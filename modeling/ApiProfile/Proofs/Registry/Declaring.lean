import Mathlib.Data.List.Nodup
import ApiProfile.Proofs.Fallible
import ApiProfile.Proofs.Table
import ApiProfile.Registry.Document
/-!
# What declarations leave in a table

Groups and commands are read with names that must differ: reading succeeds exactly if each of them is read and no
name comes twice, and then each is stored under its name (`readUnique_eq_ok`, `get?_foldl_insert`). If all are read but
some name comes twice, the first such name is reported (`readUnique_distinct`). Constants may be declared more than
once: what is recorded for a name is a matter of the declarations of that name alone, in their order
(`get?_foldl_record`).
-/

namespace ApiProfile.Registry

open Markup (Element)

/-! ## Names that must differ -/

section Unique

variable {α : Type} {nameOf : α → String}

/-- Entries that all have other names are all found, each under its own. -/
theorem get?_foldl_insert {entries : List α} (hnames : (entries.map nameOf).Nodup) (t : Table α) (key : String)
    (value : α) :
    (entries.foldl (fun t entry => t.insert (nameOf entry) entry) t).get? key = some value ↔
      (value ∈ entries ∧ nameOf value = key) ∨ (key ∉ entries.map nameOf ∧ t.get? key = some value) := by
  induction entries generalizing t with
  | nil => simp
  | cons entry entries ih =>
    rw [List.map_cons, List.nodup_cons] at hnames
    rw [List.foldl_cons, ih hnames.2, Table.get?_insert]
    by_cases hkey : key = nameOf entry
    · subst hkey
      have hother : ∀ v ∈ entries, nameOf v ≠ nameOf entry := fun v hv heq =>
        hnames.1 (heq ▸ List.mem_map_of_mem hv)
      constructor
      · rintro (⟨hmem, heq⟩ | ⟨-, heq⟩)
        · exact absurd heq (hother value hmem)
        · rw [if_pos rfl] at heq
          exact .inl ⟨by simp [Option.some.inj heq], congrArg nameOf (Option.some.inj heq).symm⟩
      · rintro (⟨hmem, heq⟩ | ⟨hnone, -⟩)
        · rcases List.mem_cons.1 hmem with rfl | hmem
          · exact .inr ⟨hnames.1, if_pos rfl⟩
          · exact absurd heq (hother value hmem)
        · exact absurd (List.mem_cons_self ..) hnone
    · have hentry : value = entry → nameOf value ≠ key := fun h => h ▸ Ne.symm hkey
      simp only [if_neg hkey, List.mem_cons, List.map_cons, not_or]
      constructor
      · rintro (⟨hmem, heq⟩ | ⟨hnone, heq⟩)
        · exact .inl ⟨.inr hmem, heq⟩
        · exact .inr ⟨⟨hkey, hnone⟩, heq⟩
      · rintro (⟨hsame | hmem, heq⟩ | ⟨⟨-, hnone⟩, heq⟩)
        · exact absurd heq (hentry hsame)
        · exact .inl ⟨hmem, heq⟩
        · exact .inr ⟨hnone, heq⟩

theorem perm_entries_foldl_insert {entries : List α} (hnames : (entries.map nameOf).Nodup) :
    (entries.foldl (fun t entry => t.insert (nameOf entry) entry) (.empty : Table α)).entries.Perm
      (entries.map fun entry => (nameOf entry, entry)) := by
  have hkeys : (entries.map fun entry => (nameOf entry, entry)).map Prod.fst = entries.map nameOf := by
    rw [List.map_map]
    rfl
  refine (List.perm_ext_iff_of_nodup (Table.nodup_entries _) (List.Nodup.of_map _ (hkeys ▸ hnames))).2 ?_
  rintro ⟨key, entry⟩
  rw [Table.mem_entries_iff, get?_foldl_insert hnames]
  simp [and_comm, eq_comm]

variable {read : Element → Except Failure α} {repeated : String → Failure}

theorem readUnique_eq_ok {es : List Element} {t found : Table α} :
    readUnique read nameOf repeated t es = .ok found ↔
      ∃ entries, es.mapM read = .ok entries ∧ (entries.map nameOf).Nodup ∧
        (∀ entry ∈ entries, t.contains (nameOf entry) = false) ∧
        found = entries.foldl (fun t entry => t.insert (nameOf entry) entry) t := by
  simp only [mapM_eq_ok]
  induction es generalizing t with
  | nil =>
    rw [readUnique]
    constructor
    · intro h
      cases h
      exact ⟨[], .nil, .nil, by simp, rfl⟩
    · rintro ⟨entries, hentries, -, -, rfl⟩
      cases hentries
      rfl
  | cons e es ih =>
    have hcontains : ∀ entry key, (t.insert (nameOf entry) entry).contains key = false ↔
        key ≠ nameOf entry ∧ t.contains key = false := by
      intro entry key
      by_cases hkey : key = nameOf entry <;> simp [Table.contains, hkey]
    rw [readUnique]
    constructor
    · intro h
      split at h
      · cases h
      · rename_i entry hread
        split at h
        · cases h
        · rename_i hnew
          obtain ⟨rest, hrest, hnodup, hfresh, rfl⟩ := ih.1 h
          refine ⟨entry :: rest, .cons hread hrest, List.nodup_cons.2 ⟨?_, hnodup⟩, ?_, rfl⟩
          · intro hmem
            obtain ⟨other, hother, heq⟩ := List.mem_map.1 hmem
            exact ((hcontains entry _).1 (hfresh other hother)).1 heq
          · intro other hother
            rcases List.mem_cons.1 hother with rfl | hother
            · exact Bool.not_eq_true _ ▸ hnew
            · exact ((hcontains entry _).1 (hfresh other hother)).2
    · rintro ⟨entries, hentries, hnodup, hfresh, rfl⟩
      obtain ⟨entry, rest, hread, hrest, rfl⟩ := List.forall₂_cons_left_iff.1 hentries
      rw [List.map_cons, List.nodup_cons] at hnodup
      rw [hread]
      dsimp only
      rw [if_neg (by simp [hfresh entry (.head rest)])]
      refine ih.2 ⟨rest, hrest, hnodup.2, fun other hother => ?_, rfl⟩
      refine (hcontains entry _).2 ⟨?_, hfresh other (.tail _ hother)⟩
      intro heq
      exact hnodup.1 (heq ▸ List.mem_map_of_mem hother)

/-- Entries that are read alike in another order make the same table. -/
theorem readUnique_perm {es fs : List Element} {found : Table α}
    (h : (es.map fun e => (read e).toOption).Perm (fs.map fun f => (read f).toOption))
    (hfound : readUnique read nameOf repeated .empty es = .ok found) :
    readUnique read nameOf repeated .empty fs = .ok found := by
  obtain ⟨entries, hentries, hnodup, -, rfl⟩ := readUnique_eq_ok.1 hfound
  obtain ⟨others, hothers, hperm⟩ := mapM_perm h hentries
  have hnodup' : (others.map nameOf).Nodup := (hperm.map nameOf).nodup_iff.2 hnodup
  refine readUnique_eq_ok.2 ⟨others, hothers, hnodup', fun _ _ => rfl, ?_⟩
  refine Table.eq_of_perm ((perm_entries_foldl_insert hnodup).trans ?_)
  exact (hperm.symm.map _).trans (perm_entries_foldl_insert hnodup').symm

/-- The first name of a list that stands in it for a second time. -/
def FirstRepeated (names : List String) (name : String) : Prop :=
  ∃ before after, names = before ++ name :: after ∧ before.Nodup ∧ name ∈ before

theorem FirstRepeated.unique {names : List String} {a b : String} (ha : FirstRepeated names a)
    (hb : FirstRepeated names b) : a = b := by
  obtain ⟨before, after, hsplit, hbefore, hmem⟩ := ha
  obtain ⟨before', after', hsplit', hbefore', hmem'⟩ := hb
  -- unless the two stand in the same place, one of them stands twice before the other
  rcases List.append_eq_append_iff.1 (hsplit.symm.trans hsplit') with ⟨between, rfl, hrest⟩ | ⟨between, rfl, hrest⟩
  · cases between with
    | nil => exact (List.cons.inj hrest).1
    | cons c between =>
      cases hrest
      exact absurd rfl ((List.nodup_append.1 hbefore').2.2 a hmem a (.head _))
  · cases between with
    | nil => exact (List.cons.inj hrest).1.symm
    | cons c between =>
      cases hrest
      exact absurd rfl ((List.nodup_append.1 hbefore).2.2 b hmem' b (.head _))

theorem exists_firstRepeated {names : List String} (h : ¬names.Nodup) : ∃ name, FirstRepeated names name := by
  induction names using List.reverseRecOn with
  | nil => exact absurd .nil h
  | append_singleton names last ih =>
    by_cases hnames : names.Nodup
    · have hlast : last ∈ names := by
        by_contra hnew
        exact h (List.nodup_append.2 ⟨hnames, by simp, by grind⟩)
      exact ⟨last, names, [], rfl, hnames, hlast⟩
    · obtain ⟨name, before, after, rfl, hbefore⟩ := ih hnames
      exact ⟨name, before, after ++ [last], by simp, hbefore⟩

theorem readUnique_append (t : Table α) (es fs : List Element) :
    readUnique read nameOf repeated t (es ++ fs) =
      readUnique read nameOf repeated t es >>= fun t => readUnique read nameOf repeated t fs := by
  induction es generalizing t with
  | nil => rfl
  | cons e es ih =>
    rw [List.cons_append, readUnique, readUnique]
    cases read e with
    | error fault => rfl
    | ok entry =>
      dsimp only
      split
      · rfl
      · exact ih _

/-- Of entries that are all read, the first one whose name has an entry already is the one reported. -/
theorem readUnique_firstRepeated {es : List Element} {entries : List α} (h : es.mapM read = .ok entries) {name : String}
    (hname : FirstRepeated (entries.map nameOf) name) :
    readUnique read nameOf repeated .empty es = .error (repeated name) := by
  obtain ⟨before, after, hsplit, hbefore, hmem⟩ := hname
  obtain ⟨first, rest, rfl, rfl, hrest⟩ := List.map_eq_append_iff.1 hsplit
  obtain ⟨entry, last, rfl, rfl, rfl⟩ := List.map_eq_cons_iff.1 hrest
  have hes := mapM_eq_ok.1 h
  obtain ⟨f, fs, hf, -, hdrop⟩ := List.forall₂_cons_right_iff.1 (List.forall₂_drop_append es first _ hes)
  obtain ⟨other, hother, hsame⟩ := List.mem_map.1 hmem
  have hfound : readUnique read nameOf repeated .empty (es.take first.length) = .ok _ :=
    readUnique_eq_ok.2 ⟨first, mapM_eq_ok.2 (List.forall₂_take_append es first _ hes), hbefore, fun _ _ => rfl, rfl⟩
  have hstored := (get?_foldl_insert hbefore .empty (nameOf entry) other).2 (.inl ⟨hother, hsame⟩)
  rw [← List.take_append_drop first.length es, readUnique_append, hfound, hdrop]
  show readUnique read nameOf repeated _ (f :: fs) = _
  rw [readUnique, hf]
  dsimp only
  rw [if_pos (by rw [Table.contains, hstored, Option.isSome_some])]

/-- What a table holds whose entries are those of a list of elements, one for each of them, under its name. -/
def HoldsEach (Declares : Element → α → Prop) (nameOf : α → String) (es : List Element) (t : Table α) : Prop :=
  ∃ entries, List.Forall₂ Declares es entries ∧ t.entries.Perm (entries.map fun entry => (nameOf entry, entry))

/-- Elements that can be read one by one are stored, each under its name, if all these names differ, and else the first
repeated name is reported. -/
theorem readUnique_distinct {Declares : Element → α → Prop} {name? : Element → Option String} {es : List Element}
    (hread : ∀ e ∈ es, ∃ entry, read e = .ok entry)
    (hdeclares : ∀ e entry, read e = .ok entry → Declares e entry ∧ name? e = some (nameOf entry)) :
    ((es.filterMap name?).Nodup →
      ∃ t, readUnique read nameOf repeated .empty es = .ok t ∧ HoldsEach Declares nameOf es t) ∧
    (¬(es.filterMap name?).Nodup → ∃ name, FirstRepeated (es.filterMap name?) name ∧
      readUnique read nameOf repeated .empty es = .error (repeated name)) := by
  obtain ⟨entries, hentries⟩ := exists_mapM_eq_ok hread
  have heach := mapM_eq_ok.1 hentries
  have hnames : es.filterMap name? = entries.map nameOf := by
    clear hentries hread
    induction heach with
    | nil => rfl
    | cons hentry _ ih => rw [List.filterMap_cons_some (hdeclares _ _ hentry).2, ih, List.map_cons]
  rw [hnames]
  constructor
  · intro hdistinct
    refine ⟨_, readUnique_eq_ok.2 ⟨entries, hentries, hdistinct, fun _ _ => rfl, rfl⟩, entries, ?_,
      perm_entries_foldl_insert hdistinct⟩
    exact heach.imp fun e entry h => (hdeclares e entry h).1
  · intro hrepeated
    obtain ⟨name, hname⟩ := exists_firstRepeated hrepeated
    exact ⟨name, hname, readUnique_firstRepeated hentries hname⟩

end Unique

/-! ## Constants -/

/-- The declarations of constants, in the order of the document. -/
def declarationsIn (root : Element) : List Element :=
  (root.elementsNamed "enums").flatMap (·.elementsNamed "enum")

def declarationsOf (root : Element) (name : String) : List Element :=
  (declarationsIn root).filter (·.attribute? "name" = some name)

/-- An element that has the name of a constant, and its value as a text. -/
structure DeclaresConstant (e : Element) (c : Constant) : Prop where
  name : e.attribute? "name" = some c.name
  value : ∃ text, e.attribute? "value" = some text ∧ Constant.parseValue c.name text = .ok c.value

theorem readDeclaration_eq_ok {e : Element} {d : Declaration} :
    readDeclaration e = .ok d ↔ DeclaresConstant e d.constant ∧ d.isDefault = (e.attribute? "api").isNone := by
  unfold readDeclaration
  simp only [bind_eq_ok, Element.requiredAttribute_eq_ok]
  constructor
  · rintro ⟨name, hname, text, htext, value, hvalue, hd⟩
    cases hd
    exact ⟨⟨hname, text, htext, hvalue⟩, rfl⟩
  · rintro ⟨⟨hname, text, htext, hvalue⟩, hdefault⟩
    refine ⟨_, hname, text, htext, _, hvalue, ?_⟩
    rw [← hdefault]
    rfl

/-- The declarations of a name, as they are read, are what is read of the declarations that have the name. -/
theorem read_declarationsOf {root : Element} {ds : List Declaration}
    (h : (declarationsIn root).mapM readDeclaration = .ok ds) (name : String) :
    (declarationsOf root name).map readDeclaration = (ds.filter (·.constant.name = name)).map .ok := by
  unfold declarationsOf
  rw [← List.forall₂_eq_eq_eq, List.forall₂_map_left_iff, List.forall₂_map_right_iff]
  exact List.rel_filter (fun e d hread => by simp [(readDeclaration_eq_ok.1 hread).1.name]) (mapM_eq_ok.1 h)

/-- The declaration that counts, of the one recorded so far and the next one of the same name. -/
def preferred (kept? : Option Declaration) (d : Declaration) : Declaration :=
  match kept? with
  | some kept => if d.isDefault && !kept.isDefault then d else kept
  | none => d

/-- What is recorded for a name comes from the declarations of that name. -/
theorem get?_foldl_record (ds : List Declaration) (t : Table Declaration) (name : String) :
    (ds.foldl record t).get? name =
      (ds.filter (·.constant.name = name)).foldl (fun kept? d => some (preferred kept? d)) (t.get? name) := by
  induction ds generalizing t with
  | nil => rfl
  | cons d ds ih =>
    have hrecord : (record t d).get? name =
        if name = d.constant.name then some (preferred (t.get? d.constant.name) d) else t.get? name :=
      t.get?_place d.constant.name _ name
    rw [List.foldl_cons, ih, hrecord]
    by_cases hname : d.constant.name = name
    · rw [List.filter_cons_of_pos (by simpa using hname), List.foldl_cons, if_pos hname.symm, hname]
    · rw [List.filter_cons_of_neg (by simpa using hname), if_neg (Ne.symm hname)]

/-! ## The whole document -/

/-- What a registry holds is what is read of the parts of the document. -/
theorem ofRoot_eq_ok {s : Selection} {root : Element} {r : Registry} :
    ofRoot s root = .ok r ↔ readConstants root = .ok r.constants ∧ readGroups root = .ok r.groups ∧
      readCommands root = .ok r.commands ∧ readFeatures s root = .ok r.features ∧ r.digest = none := by
  unfold ofRoot
  simp only [bind_eq_ok]
  constructor
  · rintro ⟨constants, hconstants, groups, hgroups, commands, hcommands, features, hfeatures, h⟩
    cases h
    exact ⟨hconstants, hgroups, hcommands, hfeatures, rfl⟩
  · rintro ⟨hconstants, hgroups, hcommands, hfeatures, hdigest⟩
    refine ⟨_, hconstants, _, hgroups, _, hcommands, _, hfeatures, ?_⟩
    rw [← hdigest]
    rfl

theorem ofDocument_eq_ok {s : Selection} {document : String} {root : Element} {r : Registry}
    (hroot : Element.ofDocument document = .ok root) :
    ofDocument s document = .ok r ↔
      ∃ found, ofRoot s root = .ok found ∧ { found with digest := some (.ofText document) } = r := by
  constructor
  · intro h
    obtain ⟨top, htop, h⟩ := bind_eq_ok.1 h
    rw [hroot] at htop
    cases htop
    obtain ⟨found, hfound, h⟩ := bind_eq_ok.1 h
    exact ⟨found, hfound, Except.ok.inj h⟩
  · rintro ⟨found, hfound, rfl⟩
    exact bind_eq_ok.2 ⟨root, hroot, bind_eq_ok.2 ⟨found, hfound, rfl⟩⟩

end ApiProfile.Registry
