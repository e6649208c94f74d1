import ApiProfile.Table
import Mathlib.Data.List.Induction
/-!
# More about tables and sets of names

What look-ups see of the keys of a table, of a table made of a list, and of a table cut down to some
keys. A table is `Keyed` when every entry is stored under the name that the entry itself has. A set of names is known by
its members: the set of a list has the names in the list, in whatever order and however often they stand there.
-/

namespace ApiProfile.Table

variable {α β : Type}

/-! ## Keys -/

theorem mem_keys_iff (t : Table α) (key : String) : key ∈ t.keys ↔ ∃ value, t.get? key = some value := by
  unfold keys
  rw [List.mem_map]
  constructor
  · rintro ⟨⟨k, value⟩, h, rfl⟩
    exact ⟨value, t.mem_entries_iff.1 h⟩
  · rintro ⟨value, h⟩
    exact ⟨(key, value), t.mem_entries_iff.2 h, rfl⟩

theorem mem_values_iff (t : Table α) {value : α} : value ∈ t.values ↔ ∃ key, t.get? key = some value := by
  unfold values
  rw [List.mem_map]
  constructor
  · rintro ⟨⟨key, v⟩, h, rfl⟩
    exact ⟨key, t.mem_entries_iff.1 h⟩
  · rintro ⟨key, h⟩
    exact ⟨(key, value), t.mem_entries_iff.2 h, rfl⟩

theorem contains_iff (t : Table α) (key : String) : t.contains key ↔ key ∈ t.keys := by
  rw [contains, mem_keys_iff, Option.isSome_iff_exists]

theorem ascending_keys (t : Table α) : t.keys.Pairwise (· < ·) :=
  List.pairwise_map.2 t.ascending

/-! ## Entries as a list -/

theorem nodup_entries (t : Table α) : t.entries.Nodup := by
  refine t.ascending.imp ?_
  rintro e _ hlt rfl
  exact String.lt_irrefl _ hlt

theorem eq_of_perm {s t : Table α} (h : s.entries.Perm t.entries) : s = t :=
  ext_get? fun key => Option.ext fun value => by rw [← mem_entries_iff, ← mem_entries_iff, h.mem_iff]

/-- A value under a new key is one more entry. -/
theorem perm_insert {t : Table α} {key : String} (h : t.get? key = none) (value : α) :
    (t.insert key value).entries.Perm ((key, value) :: t.entries) := by
  have go : ∀ l : List (String × α), l.lookup key = none →
      (placeEntry key (fun _ => value) l).Perm ((key, value) :: l) := by
    intro l hl
    induction l with
    | nil => exact .refl _
    | cons e l ih =>
      obtain ⟨k, v⟩ := e
      rw [lookup_cons_eq] at hl
      split at hl
      · cases hl
      · rename_i hne
        rw [placeEntry, if_neg hne]
        split
        · exact .refl _
        · exact ((ih hl).cons (k, v)).trans (.swap _ _ l)
  exact go t.entries h

/-! ## Entries of lists -/

theorem mem_of_lookup {κ : Type} [BEq κ] [LawfulBEq κ] {entries : List (κ × α)} {key : κ} {value : α}
    (h : entries.lookup key = some value) : (key, value) ∈ entries := by
  obtain ⟨before, after, hsplit, -⟩ := List.lookup_eq_some_iff.1 h
  rw [hsplit]
  exact List.mem_append_right before (.head after)

theorem lookup_eq_none {entries : List (String × α)} {key : String} (h : key ∉ entries.map (·.1)) :
    entries.lookup key = none := by
  rw [List.lookup_eq_none_iff]
  exact fun entry hentry => bne_iff_ne.2 fun heq => h (List.mem_map.2 ⟨entry, hentry, heq.symm⟩)

/-- Among entries that have all different keys, each one is found under its key. -/
theorem lookup_of_mem {entries : List (String × α)} (hkeys : (entries.map (·.1)).Nodup) {key : String} {value : α}
    (h : (key, value) ∈ entries) : entries.lookup key = some value := by
  induction entries with
  | nil => cases h
  | cons e entries ih =>
    obtain ⟨hkey, hkeys⟩ := List.nodup_cons.1 hkeys
    rw [lookup_cons_eq]
    rcases List.mem_cons.1 h with rfl | hmem
    · simp
    · rw [if_neg, ih hkeys hmem]
      rintro rfl
      exact hkey (List.mem_map.2 ⟨_, hmem, rfl⟩)

/-! ## Tables of lists -/

/-- The last entry of a key counts. -/
theorem get?_ofList (entries : List (String × α)) (key : String) :
    (ofList entries).get? key = entries.reverse.lookup key := by
  have hfold : ∀ e (es : List (String × α)), ofList (e :: es) = (ofList es).insertNew e.1 e.2 := fun _ _ => rfl
  induction entries generalizing key with
  | nil => rfl
  | cons e es ih =>
    rw [hfold, get?_insertNew, ih, ih, List.reverse_cons, List.lookup_append, lookup_cons_eq, List.lookup_nil]
    by_cases hkey : key = e.1
    · subst hkey
      cases es.reverse.lookup e.1 <;> simp
    · simp [hkey]

theorem get?_ofList_concat (entries : List (String × α)) (e : String × α) (key : String) :
    (ofList (entries ++ [e])).get? key = if key = e.1 then some e.2 else (ofList entries).get? key := by
  rw [get?_ofList, get?_ofList, List.reverse_append, List.reverse_singleton, List.singleton_append, lookup_cons_eq]

theorem mem_of_get?_ofList {entries : List (String × α)} {key : String} {value : α}
    (h : (ofList entries).get? key = some value) : (key, value) ∈ entries := by
  rw [get?_ofList] at h
  exact List.mem_reverse.1 (mem_of_lookup h)

theorem contains_ofList (entries : List (String × α)) (key : String) :
    (ofList entries).contains key ↔ ∃ value, (key, value) ∈ entries := by
  rw [contains, get?_ofList, List.lookup_isSome_iff]
  constructor
  · rintro ⟨⟨k, value⟩, hmem, hkey⟩
    rw [eq_of_beq hkey]
    exact ⟨value, List.mem_reverse.1 hmem⟩
  · rintro ⟨value, hmem⟩
    exact ⟨(key, value), List.mem_reverse.2 hmem, beq_self_eq_true key⟩

/-- When values are stored anew under names of their own, the one of the greatest key counts. -/
theorem exists_greatest_of_get?_ofList {t : Table α} {change : α → Option β} {nameOf : β → String} {name : String}
    {b : β} (h : (ofList ((t.values.filterMap change).map fun b => (nameOf b, b))).get? name = some b) :
    ∃ key a, t.get? key = some a ∧ change a = some b ∧
      ∀ other a' b', t.get? other = some a' → change a' = some b' → nameOf b' = name → other ≤ key := by
  simp only [← mem_entries_iff]
  obtain ⟨entries, hascending⟩ := t
  unfold values at h
  dsimp only at h ⊢
  -- from the end, where the greatest keys are
  induction entries using List.reverseRecOn with
  | nil => cases h
  | append_singleton entries e ih =>
    obtain ⟨hentries, -, hlast⟩ := List.pairwise_append.1 hascending
    rw [List.map_append, List.filterMap_append, List.map_append] at h
    by_cases hnew : ∃ b', change e.2 = some b' ∧ nameOf b' = name
    · obtain ⟨b', hchange, rfl⟩ := hnew
      have hb : b' = b := by simpa [hchange, get?_ofList_concat] using h
      subst hb
      refine ⟨e.1, e.2, by simp, hchange, fun other a' _ hmem _ _ => String.not_lt.1 fun hlt => ?_⟩
      rcases List.mem_append.1 hmem with hmem | hmem
      · exact String.lt_asymm hlt (hlast _ hmem e (List.mem_singleton_self e))
      · rw [← List.mem_singleton.1 hmem] at hlt
        exact String.lt_irrefl _ hlt
    · have hold : (ofList (((entries.map (·.2)).filterMap change).map fun b => (nameOf b, b))).get? name = some b := by
        cases hchange : change e.2 with
        | none => simpa [hchange] using h
        | some b' =>
          have hother : name ≠ nameOf b' := fun hname => hnew ⟨b', hchange, hname.symm⟩
          simpa [hchange, get?_ofList_concat, hother] using h
      obtain ⟨key, a, hmem, hchange, hgreatest⟩ := ih hentries hold
      refine ⟨key, a, List.mem_append_left _ hmem, hchange, fun other a' b' hother hchange' hname => ?_⟩
      rcases List.mem_append.1 hother with hother | hother
      · exact hgreatest other a' b' hother hchange' hname
      · rw [← List.mem_singleton.1 hother] at hnew
        exact absurd ⟨b', hchange', hname⟩ hnew

/-- The entries of a table in any order make that table again. -/
theorem ofList_of_perm {entries : List (String × α)} {t : Table α} (h : entries.Perm t.entries) : ofList entries = t := by
  have hfound : ∀ {key value}, (ofList entries).get? key = some value → t.get? key = some value := by
    intro key value hget
    rw [← mem_entries_iff, ← h.mem_iff]
    exact mem_of_get?_ofList hget
  apply ext_get?
  intro key
  cases hget : t.get? key with
  | none =>
    rw [Option.eq_none_iff_forall_ne_some]
    intro value hvalue
    rw [hfound hvalue] at hget
    cases hget
  | some value =>
    have hcontains : (ofList entries).contains key := by
      rw [contains_ofList]
      exact ⟨value, h.mem_iff.2 (t.mem_entries_iff.2 hget)⟩
    obtain ⟨found, hfirst⟩ := Option.isSome_iff_exists.1 hcontains
    rw [hfirst, ← hfound hfirst, hget]

/-- New entries leave those that are there. -/
theorem get?_foldl_insertNew (entries : List (String × α)) (t : Table α) (key : String) :
    (entries.foldl (fun t e => t.insertNew e.1 e.2) t).get? key = (t.get? key).or (entries.lookup key) := by
  induction entries generalizing t with
  | nil => simp
  | cons e es ih =>
    rw [List.foldl_cons, ih, get?_insertNew, lookup_cons_eq]
    by_cases hkey : key = e.1
    · subst hkey
      cases t.get? e.1 <;> simp
    · simp [hkey]

/-! ## Tables cut down to some keys -/

/-- Cutting down by two tests that agree on the keys of the table comes to the same. -/
theorem filter_congr {t : Table α} {p q : String → Bool} (h : ∀ key ∈ t.keys, p key = q key) :
    (t.filter fun k _ => p k) = t.filter fun k _ => q k := by
  refine ext_get? fun k => ?_
  rw [get?_filter, get?_filter]
  cases hk : t.get? k with
  | none => rfl
  | some value => rw [h k ((t.mem_keys_iff k).2 ⟨value, hk⟩)]

theorem get?_filter_eq_some {t : Table α} {p : String → α → Bool} {key : String} {value : α} :
    (t.filter p).get? key = some value ↔ t.get? key = some value ∧ p key value := by
  rw [get?_filter, Option.filter_eq_some_iff]

theorem get?_of_get?_filter {t : Table α} {p : String → α → Bool} {key : String} {value : α}
    (h : (t.filter p).get? key = some value) : t.get? key = some value :=
  (get?_filter_eq_some.1 h).1

theorem mem_keys_filter (t : Table α) (p : String → Bool) (key : String) :
    key ∈ (t.filter fun k _ => p k).keys ↔ key ∈ t.keys ∧ p key := by
  simp only [mem_keys_iff, get?_filter_eq_some, exists_and_right]

/-- Cutting down twice leaves what both tests let through. -/
theorem filter_filter (t : Table α) (p q : String → α → Bool) :
    (t.filter p).filter q = t.filter fun k value => p k value && q k value := by
  refine ext_get? fun k => ?_
  rw [get?_filter, get?_filter, get?_filter, Option.filter_filter]

theorem get?_filter_and_eq_some {t : Table α} {p q : String → α → Bool} {key : String} {value : α} :
    (t.filter fun k value => p k value && q k value).get? key = some value ↔
      (t.filter p).get? key = some value ∧ (t.filter q).get? key = some value := by
  simp only [get?_filter_eq_some, Bool.and_eq_true]
  constructor
  · rintro ⟨hget, hp, hq⟩
    exact ⟨⟨hget, hp⟩, hget, hq⟩
  · rintro ⟨⟨hget, hp⟩, -, hq⟩
    exact ⟨hget, hp, hq⟩

/-- Bringing back the entry of a key that was cut out; a key that has none brings nothing. -/
theorem restore_filter {t : Table α} {p q : String → Bool} {key : String} (hkey : q key = true)
    (hrest : ∀ k, k ≠ key → q k = p k) :
    (match t.get? key with
      | some value => (t.filter fun k _ => p k).insertNew key value
      | none => t.filter fun k _ => p k) = t.filter fun k _ => q k := by
  cases hget : t.get? key with
  | none =>
    refine filter_congr fun k hk => (hrest k ?_).symm
    rintro rfl
    obtain ⟨value, h⟩ := (t.mem_keys_iff k).1 hk
    rw [hget] at h
    cases h
  | some value =>
    refine ext_get? fun k => ?_
    simp only [get?_insertNew, get?_filter, hget]
    by_cases hk : k = key
    · subst hk
      cases p k <;> simp [hget, hkey, Option.filter]
    · simp [hk, hrest k hk]

/-- Cutting out the entry of one more key. -/
theorem erase_filter {t : Table α} {p q : String → Bool} {key : String} (hkey : q key = false)
    (hrest : ∀ k, k ≠ key → q k = p k) :
    (t.filter fun k _ => p k).erase key = t.filter fun k _ => q k := by
  refine ext_get? fun k => ?_
  rw [get?_erase, get?_filter, get?_filter]
  by_cases hk : k = key
  · subst hk
    cases t.get? k <;> simp [Option.filter, hkey]
  · simp [hk, hrest k hk]

/-! ## Entries under their own names -/

/-- Every entry is stored under its name. -/
def Keyed (nameOf : α → String) (t : Table α) : Prop :=
  ∀ key value, t.get? key = some value → nameOf value = key

variable {nameOf : α → String}

theorem keyed_empty : (empty : Table α).Keyed nameOf := by
  intro key value h
  cases h

theorem Keyed.place {t : Table α} (ht : t.Keyed nameOf) {key : String} {choose : Option α → α}
    (hnew : nameOf (choose none) = key)
    (hold : ∀ old, t.get? key = some old → nameOf (choose (some old)) = key) :
    (t.place key choose).Keyed nameOf := by
  intro k value h
  rw [get?_place] at h
  split at h
  · rename_i hk
    cases h
    rw [hk]
    cases hget : t.get? key with
    | none => exact hnew
    | some old => exact hold old hget
  · exact ht k value h

theorem Keyed.insert {t : Table α} (ht : t.Keyed nameOf) (value : α) :
    (t.insert (nameOf value) value).Keyed nameOf :=
  ht.place rfl fun _ _ => rfl

theorem Keyed.filter {t : Table α} (ht : t.Keyed nameOf) (keep : String → α → Bool) :
    (t.filter keep).Keyed nameOf := by
  intro k value h
  exact ht k value (get?_of_get?_filter h)

theorem Keyed.map {change : α → β} {nameOf : β → String} {t : Table α}
    (ht : t.Keyed fun value => nameOf (change value)) : (t.map change).Keyed nameOf := by
  intro k value h
  rw [get?_map] at h
  obtain ⟨old, hold, rfl⟩ := Option.map_eq_some_iff.1 h
  exact ht k old hold

theorem Keyed.map_values {t : Table α} (ht : t.Keyed nameOf) : t.values.map nameOf = t.keys := by
  unfold values keys
  rw [List.map_map]
  refine List.map_congr_left fun e he => ?_
  exact ht e.1 e.2 (t.mem_entries_iff.1 he)

theorem keyed_ofList (values : List α) :
    (ofList (values.map fun value => (nameOf value, value))).Keyed nameOf := by
  intro k value h
  obtain ⟨v, -, hv⟩ := List.mem_map.1 (mem_of_get?_ofList h)
  cases hv
  rfl

end ApiProfile.Table

/-! ## Sets of names -/

namespace ApiProfile.NameSet

theorem mem_ofList {names : List String} {name : String} : name ∈ ofList names ↔ name ∈ names := by
  change name ∈ (Table.ofList (names.map fun name => (name, ()))).keys ↔ name ∈ names
  rw [← Table.contains_iff, Table.contains_ofList]
  simp

/-- Sets with the same members are equal. -/
theorem ext_mem {s t : NameSet} (h : ∀ name, name ∈ s ↔ name ∈ t) : s = t := by
  have hnames : s.names = t.names := by
    have hperm : s.names.Perm t.names := by
      rw [List.perm_ext_iff_of_nodup (s.ascending.imp String.ne_of_lt) (t.ascending.imp String.ne_of_lt)]
      exact h
    exact hperm.eq_of_pairwise (fun _ _ _ _ hab hba => absurd hba (String.lt_asymm hab)) s.ascending t.ascending
  cases s; cases t; cases hnames
  rfl

/-- Of two tests, a weaker one changes nothing in front of the stronger one. -/
theorem filter_filter_of_imp {p q : String → Bool} (h : ∀ name, q name → p name) (s : NameSet) :
    (s.filter p).filter q = s.filter q := by
  apply ext_mem
  intro name
  rw [mem_filter, mem_filter, mem_filter]
  constructor
  · rintro ⟨⟨hname, -⟩, hq⟩
    exact ⟨hname, hq⟩
  · rintro ⟨hname, hq⟩
    exact ⟨⟨hname, h name hq⟩, hq⟩

@[simp] theorem ofList_names (s : NameSet) : ofList s.names = s := by
  apply ext_mem
  intro name
  exact mem_ofList

theorem ofList_perm {names others : List String} (h : names.Perm others) : ofList names = ofList others := by
  apply ext_mem
  intro name
  rw [mem_ofList, mem_ofList]
  exact h.mem_iff

end ApiProfile.NameSet
