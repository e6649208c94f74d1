import ApiProfile.Json.Profile
import ApiProfile.Proofs.Table
import ApiProfile.Proofs.Version
/-!
# What is written as JSON is read back

The members of an object have no order, so what comes back of a written value may have them in another one than that of
writing. A reader undoes a writer if it reads every value from all that may come back of it. This is shown for the
shapes of values first (numbers, lists, tables, members of records), and then for one kind of record after the other.
-/

namespace ApiProfile

namespace Json

variable {α : Type}

/-! ## Values up to the order of members -/

/-- The second value is the first one with the members of objects, at any depth, in any order. -/
inductive Reordered : Json → Json → Prop
  | refl (j : Json) : Reordered j j
  | array {items others : List Json} (h : List.Forall₂ Reordered items others) :
    Reordered (.array items) (.array others)
  | object {members same others : List (String × Json)} (hkeys : members.map (·.1) = same.map (·.1))
    (hvalues : List.Forall₂ Reordered (members.map (·.2)) (same.map (·.2))) (hmoved : same.Perm others) :
    Reordered (.object members) (.object others)

theorem Reordered.eq_string {text : String} {j : Json} (h : Reordered (string text) j) : j = string text := by
  cases h
  rfl

theorem Reordered.eq_integer {n : Int} {j : Json} (h : Reordered (integer n) j) : j = integer n := by
  cases h
  rfl

theorem Reordered.of_array {items : List Json} {j : Json} (h : Reordered (.array items) j) :
    ∃ others, j = .array others ∧ List.Forall₂ Reordered items others := by
  cases h with
  | refl => exact ⟨items, rfl, List.forall₂_same.2 fun item _ => .refl item⟩
  | array hitems => exact ⟨_, rfl, hitems⟩

/-- Members with the same keys and like values, one by one. -/
theorem forall₂_members {members same : List (String × Json)} (hkeys : members.map (·.1) = same.map (·.1))
    (hvalues : List.Forall₂ Reordered (members.map (·.2)) (same.map (·.2))) :
    List.Forall₂ (fun m s => m.1 = s.1 ∧ Reordered m.2 s.2) members same := by
  induction members generalizing same with
  | nil =>
    rw [List.map_eq_nil_iff.1 hkeys.symm]
    exact .nil
  | cons m members ih =>
    cases same with
    | nil => cases hkeys
    | cons s same =>
      obtain ⟨hkey, hkeys⟩ := List.cons.inj hkeys
      obtain ⟨hvalue, hvalues⟩ := List.forall₂_cons.1 hvalues
      exact .cons ⟨hkey, hvalue⟩ (ih hkeys hvalues)

theorem Reordered.of_object {members : List (String × Json)} {j : Json} (h : Reordered (.object members) j) :
    ∃ same others, j = .object others ∧ List.Forall₂ (fun m s => m.1 = s.1 ∧ Reordered m.2 s.2) members same ∧
      same.Perm others := by
  cases h with
  | refl => exact ⟨members, members, rfl, List.forall₂_same.2 fun m _ => ⟨rfl, .refl m.2⟩, .refl _⟩
  | object hkeys hvalues hmoved => exact ⟨_, _, rfl, forall₂_members hkeys hvalues, hmoved⟩

/-- The members of a record, which has each of its fields once, are looked up alike. -/
theorem Reordered.of_record {members : List (String × Json)} {j : Json} (h : Reordered (.object members) j)
    (hfields : (members.map (·.1)).Nodup) :
    ∃ others, j = .object others ∧ ∀ field, Option.Rel Reordered (members.lookup field) (others.lookup field) := by
  obtain ⟨same, others, rfl, hsame, hmoved⟩ := h.of_object
  have hkeys : members.map (·.1) = same.map (·.1) := by
    rw [← List.forall₂_eq_eq_eq, List.forall₂_map_left_iff, List.forall₂_map_right_iff]
    exact hsame.imp fun m s hms => hms.1
  have hothers : (others.map (·.1)).Nodup := (hmoved.map _).nodup_iff.1 (hkeys ▸ hfields)
  refine ⟨others, rfl, fun field => ?_⟩
  -- a look-up finds the first member of a field, which is the only one on either side
  cases hfield : members.lookup field with
  | none =>
    have hnone : others.lookup field = none := by
      rw [List.lookup_eq_none_iff] at hfield ⊢
      intro o ho
      have hkey : o.1 ∈ members.map (·.1) := by
        rw [hkeys, (hmoved.map _).mem_iff]
        exact List.mem_map_of_mem ho
      obtain ⟨m, hm, hmo⟩ := List.mem_map.1 hkey
      rw [← hmo]
      exact hfield m hm
    rw [hnone]
    exact .none
  | some value =>
    obtain ⟨i, hi⟩ := List.mem_iff_getElem?.1 (Table.mem_of_lookup hfield)
    obtain ⟨⟨key, other⟩, hs, rfl, hvalue⟩ := exists_of_forall₂ hsame.flip hi
    rw [Table.lookup_of_mem hothers (hmoved.mem_iff.1 (List.mem_of_getElem? hs))]
    exact .some hvalue

/-! ## Readers that undo writers -/

/-- The reader finds the value in all that may come back of what is written for it. -/
def Undoes (read? : Json → Option α) (write : α → Json) : Prop :=
  ∀ value j, Reordered (write value) j → read? j = some value

theorem undoes_string : Undoes string? string := by
  intro text j h
  rw [h.eq_string]
  rfl

theorem undoes_int64 : Undoes int64? fun n : Int64 => integer n.toInt := by
  intro n j h
  have hrange : Int64.minValue.toInt ≤ n.toInt ∧ n.toInt ≤ Int64.maxValue.toInt := ⟨n.minValue_le_toInt, n.toInt_le⟩
  rw [h.eq_integer]
  simpa [int64?, integer?] using hrange

theorem undoes_uint32 : Undoes uint32? fun n : UInt32 => integer n.toNat := by
  intro n j h
  have hrange : n.toNat < 0x100000000 := n.toNat_lt
  rw [h.eq_integer]
  simp [uint32?, integer?]
  omega

theorem undoes_tag {tags : List (String × α)} {text : α → String} (htags : ∀ value, tags.lookup (text value) = some value) :
    Undoes (tag? tags) fun value => string (text value) := by
  intro value j h
  rw [h.eq_string]
  exact htags value

theorem Undoes.list {read? : Json → Option α} {write : α → Json} (h : Undoes read? write) :
    Undoes (list? read?) fun values => array (values.map write) := by
  intro values j hj
  obtain ⟨others, rfl, hothers⟩ := hj.of_array
  rw [List.forall₂_map_left_iff] at hothers
  exact mapM_eq_some.2 (hothers.flip.imp fun other value hvalue => h value other hvalue)

/-- A table is found again whatever the order of its members is. -/
theorem Undoes.table {read? : Json → Option α} {write : α → Json} (h : Undoes read? write) :
    Undoes (table? read?) (ofTable write) := by
  intro t j hj
  obtain ⟨same, others, rfl, hsame, hmoved⟩ := hj.of_object
  rw [List.forall₂_map_left_iff] at hsame
  have hread : List.Forall₂ (fun m e => (read? m.2).map (fun value => (m.1, value)) = some e) same t.entries := by
    refine hsame.flip.imp fun m e hme => ?_
    obtain ⟨hkey, hvalue⟩ := hme
    rw [h e.2 m.2 hvalue, ← hkey]
    rfl
  obtain ⟨entries, hentries, hperm⟩ := List.perm_comp_forall₂ hmoved.symm hread
  unfold table?
  dsimp only
  rw [mapM_eq_some.2 hentries, Option.map_some, Table.ofList_of_perm hperm]

/-! ## Members of records -/

variable {read? : Json → Option α} {write : α → Json} {members : List (String × Json)} {field : String}

theorem exists_of_rel_some {written : Json} {found : Option Json} (h : Option.Rel Reordered (some written) found) :
    ∃ j, found = some j ∧ Reordered written j := by
  cases h with
  | some hj => exact ⟨_, rfl, hj⟩

theorem eq_none_of_rel_none {found : Option Json} (h : Option.Rel Reordered none found) : found = none := by
  cases h
  rfl

theorem required?_eq (h : Undoes read? write) {value : α}
    (hfield : Option.Rel Reordered (some (write value)) (members.lookup field)) :
    required? members field read? = some value := by
  obtain ⟨j, hlookup, hj⟩ := exists_of_rel_some hfield
  unfold required?
  rw [hlookup]
  exact h value j hj

theorem lookup_optionalMember (field : String) (write : α → Json) (value : Option α) :
    (optionalMember field write value).lookup field = value.map write := by
  cases value <;> simp [optionalMember]

/-- A text that may be missing. -/
theorem optional?_eq {value : Option String}
    (hfield : Option.Rel Reordered (value.map string) (members.lookup field)) :
    optional? members field string? = some value := by
  unfold optional?
  cases value with
  | none => rw [eq_none_of_rel_none hfield]
  | some text =>
    obtain ⟨j, hlookup, hj⟩ := exists_of_rel_some hfield
    rw [hlookup, hj.eq_string]
    rfl

theorem defaulted?_eq (h : Undoes read? write) {default value : α}
    (hfield : Option.Rel Reordered (some (write value)) (members.lookup field)) :
    defaulted? members field default read? = some value := by
  obtain ⟨j, hlookup, hj⟩ := exists_of_rel_some hfield
  unfold defaulted?
  rw [hlookup]
  exact h value j hj

theorem defaulted?_eq_default {default : α} (hfield : Option.Rel Reordered none (members.lookup field)) :
    defaulted? members field default read? = some default := by
  unfold defaulted?
  rw [eq_none_of_rel_none hfield]

end Json

open Json

/-! ## Versions and types -/

theorem Version.undoes : Undoes Version.ofJson? Version.toJson := by
  intro v j h
  rw [h.eq_string]
  simp [Version.ofJson?, string?, Except.toOption]

theorem CType.undoes : Undoes CType.ofJson? CType.toJson := by
  intro type j h
  obtain ⟨others, rfl, hothers⟩ := h.of_record (by simp)
  unfold CType.ofJson? record?
  rw [Option.bind_eq_bind, Option.bind_some, required?_eq undoes_string (hothers "base_name"),
    required?_eq undoes_uint32 (hothers "depth")]
  rfl

theorem GroupedType.undoes : Undoes GroupedType.ofJson? GroupedType.toJson := by
  intro ⟨type, group⟩ j h
  obtain ⟨others, rfl, hothers⟩ := h.of_record (by cases group <;> simp [optionalMember])
  have hgroup : optional? others "group" string? = some group := by
    apply optional?_eq
    rw [← lookup_optionalMember "group"]
    exact hothers "group"
  unfold GroupedType.ofJson? record?
  rw [Option.bind_eq_bind, Option.bind_some, required?_eq CType.undoes (hothers "descriptor"), hgroup]
  rfl

/-! ## Registries -/

theorem Constant.undoes : Undoes Constant.ofJson? Constant.toJson := by
  intro c j h
  obtain ⟨others, rfl, hothers⟩ := h.of_record (by simp)
  unfold Constant.ofJson? record?
  rw [Option.bind_eq_bind, Option.bind_some, required?_eq undoes_string (hothers "name"),
    required?_eq undoes_int64 (hothers "value")]
  rfl

theorem Group.undoes : Undoes Group.ofJson? Group.toJson := by
  intro g j h
  obtain ⟨others, rfl, hothers⟩ := h.of_record (by simp)
  unfold Group.ofJson? record?
  rw [Option.bind_eq_bind, Option.bind_some, required?_eq undoes_string (hothers "name"),
    required?_eq undoes_string.list (hothers "members")]
  simp

theorem DeclaredType.undoes : Undoes DeclaredType.ofJson? DeclaredType.toJson := by
  intro ⟨text, group⟩ j h
  obtain ⟨others, rfl, hothers⟩ := h.of_record (by cases group <;> simp [optionalMember])
  have hgroup : optional? others "group" string? = some group := by
    apply optional?_eq
    rw [← lookup_optionalMember "group"]
    exact hothers "group"
  unfold DeclaredType.ofJson? record?
  rw [Option.bind_eq_bind, Option.bind_some, required?_eq undoes_string (hothers "text"), hgroup]
  rfl

theorem DeclaredParameter.undoes : Undoes DeclaredParameter.ofJson? DeclaredParameter.toJson := by
  intro p j h
  obtain ⟨others, rfl, hothers⟩ := h.of_record (by simp)
  unfold DeclaredParameter.ofJson? record?
  rw [Option.bind_eq_bind, Option.bind_some, required?_eq undoes_string (hothers "name"),
    required?_eq DeclaredType.undoes (hothers "ty")]
  rfl

theorem Command.undoes : Undoes Command.ofJson? Command.toJson := by
  intro f j h
  obtain ⟨others, rfl, hothers⟩ := h.of_record (by simp)
  unfold Command.ofJson? record?
  rw [Option.bind_eq_bind, Option.bind_some, required?_eq undoes_string (hothers "name"),
    required?_eq DeclaredType.undoes (hothers "return_type"),
    required?_eq DeclaredParameter.undoes.list (hothers "parameters")]
  rfl

theorem Mention.undoes : Undoes Mention.ofJson? Mention.toJson := by
  intro m j h
  obtain ⟨others, rfl, hothers⟩ := h.of_record (by simp)
  have hkind : Undoes (tag? EntryKind.tags) fun kind => string kind.text :=
    undoes_tag fun kind => by cases kind <;> rfl
  unfold Mention.ofJson? record?
  rw [Option.bind_eq_bind, Option.bind_some, required?_eq undoes_string (hothers "name"),
    required?_eq hkind (hothers "kind")]
  rfl

theorem Feature.undoes : Undoes Feature.ofJson? Feature.toJson := by
  intro f j h
  obtain ⟨others, rfl, hothers⟩ := h.of_record (by simp)
  unfold Feature.ofJson? record?
  rw [Option.bind_eq_bind, Option.bind_some, required?_eq Version.undoes (hothers "version"),
    required?_eq Mention.undoes.list (hothers "additions"), required?_eq Mention.undoes.list (hothers "removals")]
  rfl

theorem Registry.undoes : Undoes Registry.ofJson? Registry.toJson := by
  intro ⟨constants, groups, commands, features, digest⟩ j h
  obtain ⟨others, rfl, hothers⟩ := h.of_record (by cases digest <;> simp [optionalMember])
  have hdigest : optional? others "source_checksum" string? = some (digest.map (·.hex)) := by
    apply optional?_eq
    rw [Option.map_map, ← lookup_optionalMember "source_checksum"]
    exact hothers "source_checksum"
  unfold Registry.ofJson? record?
  rw [Option.bind_eq_bind, Option.bind_some, required?_eq Constant.undoes.table (hothers "enums"),
    required?_eq Group.undoes.table (hothers "groups"), required?_eq Command.undoes.table (hothers "functions"),
    required?_eq Feature.undoes.list (hothers "features"), hdigest]
  cases digest <;> rfl

/-! ## Signatures and diagnostics -/

theorem Parameter.undoes : Undoes Parameter.ofJson? Parameter.toJson := by
  intro p j h
  obtain ⟨others, rfl, hothers⟩ := h.of_record (by simp)
  have hflow : Undoes (tag? Flow.tags) fun flow => string flow.text :=
    undoes_tag fun flow => by cases flow <;> rfl
  unfold Parameter.ofJson? record?
  rw [Option.bind_eq_bind, Option.bind_some, required?_eq undoes_string (hothers "name"),
    required?_eq GroupedType.undoes (hothers "ty"), required?_eq hflow (hothers "flow")]
  rfl

theorem Signature.undoes : Undoes Signature.ofJson? Signature.toJson := by
  intro s j h
  obtain ⟨others, rfl, hothers⟩ := h.of_record (by simp)
  unfold Signature.ofJson? record?
  rw [Option.bind_eq_bind, Option.bind_some, required?_eq undoes_string (hothers "name"),
    required?_eq GroupedType.undoes (hothers "return_type"),
    required?_eq Parameter.undoes.list (hothers "parameters")]
  rfl

theorem Diagnostic.undoes : Undoes Diagnostic.ofJson? Diagnostic.toJson := by
  intro ⟨subject, code, message, context⟩ j h
  have hcode : Undoes (tag? DiagnosticCode.tags) fun code => string code.name :=
    undoes_tag fun code => by cases code <;> rfl
  obtain ⟨others, rfl, hothers⟩ := h.of_record (by by_cases hcontext : context = [] <;> simp [hcontext])
  have hread : defaulted? others "context" [] (list? string?) = some context := by
    cases context with
    | nil => exact defaulted?_eq_default (hothers "context")
    | cons first rest => exact defaulted?_eq undoes_string.list (hothers "context")
  unfold Diagnostic.ofJson? record?
  rw [Option.bind_eq_bind, Option.bind_some, required?_eq undoes_string (hothers "subject"),
    required?_eq hcode (hothers "code"), required?_eq undoes_string (hothers "message"), hread]
  rfl

theorem Diagnostics.undoes : Undoes Diagnostics.ofJson? Diagnostics.toJson := by
  intro ds j h
  obtain ⟨others, rfl, hothers⟩ := h.of_record (by simp)
  unfold Diagnostics.ofJson? record?
  rw [Option.bind_eq_bind, Option.bind_some, required?_eq Diagnostic.undoes.list (hothers "items")]
  rfl

/-- Registries, signatures and diagnostics come back whole, whatever the order that members are in by then. A version is
its written numbers, so it comes back with as many of them; keys of tables need not be the names inside. -/
theorem Json.ofJson?_of_reordered :
    (∀ (r : Registry) (j : Json), Reordered r.toJson j → Registry.ofJson? j = some r) ∧
    (∀ (s : Signature) (j : Json), Reordered s.toJson j → Signature.ofJson? j = some s) ∧
    ∀ (ds : Diagnostics) (j : Json), Reordered ds.toJson j → Diagnostics.ofJson? j = some ds :=
  ⟨Registry.undoes, Signature.undoes, Diagnostics.undoes⟩

/-- A constant under another name than its own, and the same version with one number and with two. -/
def Registry.renamed : Registry :=
  ⟨.ofList [("B", ⟨"A", Int64.minValue⟩)], .ofList [("G", ⟨"G", .ofList ["A"]⟩)], .empty,
    [⟨.one 1, [⟨"B", .constant⟩], []⟩, ⟨.two 1 0, [], []⟩], none⟩

/-- What is written for it, with the members in order of their keys. -/
def Registry.renamedSorted : Json :=
  object [("enums", ofTable Constant.toJson renamed.constants), ("features", array (renamed.features.map (·.toJson))),
    ("functions", ofTable Command.toJson renamed.commands), ("groups", ofTable Group.toJson renamed.groups)]

theorem Json.ofJson?_of_reordered_renamed :
    Reordered Registry.renamed.toJson Registry.renamedSorted ∧
    Registry.ofJson? Registry.renamedSorted = some Registry.renamed ∧
    Signature.ofJson? (Signature.toJson ⟨"f", ⟨⟨"int", 0⟩, none⟩, []⟩) = some ⟨"f", ⟨⟨"int", 0⟩, none⟩, []⟩ ∧
    Diagnostics.ofJson? (Diagnostics.toJson ⟨[.droppedGroup "G"]⟩) = some ⟨[.droppedGroup "G"]⟩ := by
  have hsorted : Reordered Registry.renamed.toJson Registry.renamedSorted := by
    refine .object rfl (List.forall₂_same.2 fun j _ => .refl j) (.cons _ ?_)
    exact List.reverse_perm [("features", array (Registry.renamed.features.map (·.toJson))),
      ("functions", ofTable Command.toJson Registry.renamed.commands),
      ("groups", ofTable Group.toJson Registry.renamed.groups)]
  exact ⟨hsorted, ofJson?_of_reordered.1 _ _ hsorted, ofJson?_of_reordered.2.1 _ _ (.refl _),
    ofJson?_of_reordered.2.2 _ _ (.refl _)⟩

end ApiProfile
