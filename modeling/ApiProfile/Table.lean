/-!
# Tables keyed by name

A table is a list of entries in strictly ascending order of their keys (by code point), so every key
occurs once and two tables are equal as soon as they answer every look-up alike (`Table.ext_get?`).
What each operation does to look-ups is said by one lemma per operation. A set of names is the list of its members in
strictly ascending order, so equal sets are equal lists; it is made of names in any order and with repetitions.
-/

namespace ApiProfile

/-- Entries in strictly ascending order of their keys. -/
structure Table (α : Type) where
  entries : List (String × α)
  ascending : entries.Pairwise fun e f => e.1 < f.1

namespace Table

variable {α β : Type}

instance [DecidableEq α] : DecidableEq (Table α) := fun s t =>
  decidable_of_iff (s.entries = t.entries) ⟨fun h => by cases s; cases t; cases h; rfl, fun h => h ▸ rfl⟩

def empty : Table α := ⟨[], .nil⟩

instance : Inhabited (Table α) := ⟨empty⟩

/-- The keys in ascending order. -/
def keys (t : Table α) : List String :=
  t.entries.map (·.1)

/-- The entries' values, in ascending order of their keys. -/
def values (t : Table α) : List α :=
  t.entries.map (·.2)

def size (t : Table α) : Nat :=
  t.entries.length

def get? (t : Table α) (key : String) : Option α :=
  t.entries.lookup key

def contains (t : Table α) (key : String) : Bool :=
  (t.get? key).isSome

/-- Puts `choose old` under a key, where `old` is what the key had before. -/
def placeEntry (key : String) (choose : Option α → α) : List (String × α) → List (String × α)
  | [] => [(key, choose none)]
  | (k, v) :: rest =>
    if key < k then (key, choose none) :: (k, v) :: rest
    else if key = k then (key, choose (some v)) :: rest
    else (k, v) :: placeEntry key choose rest

theorem fst_mem_placeEntry {key : String} {choose : Option α → α} {l : List (String × α)}
    {e : String × α} (h : e ∈ placeEntry key choose l) : e.1 = key ∨ e ∈ l := by
  induction l with
  | nil => simp only [placeEntry, List.mem_singleton] at h; simp [h]
  | cons head rest ih =>
    obtain ⟨k, v⟩ := head
    simp only [placeEntry] at h
    split at h
    · rcases List.mem_cons.1 h with rfl | h
      · exact .inl rfl
      · exact .inr h
    · split at h
      · rcases List.mem_cons.1 h with rfl | h
        · exact .inl rfl
        · exact .inr (List.mem_cons_of_mem _ h)
      · rcases List.mem_cons.1 h with rfl | h
        · exact .inr List.mem_cons_self
        · exact (ih h).imp_right (List.mem_cons_of_mem _)

theorem ascending_placeEntry (key : String) (choose : Option α → α) {l : List (String × α)}
    (h : l.Pairwise fun e f => e.1 < f.1) :
    (placeEntry key choose l).Pairwise fun e f => e.1 < f.1 := by
  induction l with
  | nil => exact List.pairwise_singleton _ _
  | cons head rest ih =>
    obtain ⟨k, v⟩ := head
    rw [List.pairwise_cons] at h
    simp only [placeEntry]
    split
    · rename_i hlt
      refine List.pairwise_cons.2 ⟨fun e he => ?_, List.pairwise_cons.2 h⟩
      rcases List.mem_cons.1 he with rfl | he
      · exact hlt
      · exact String.lt_trans hlt (h.1 e he)
    · split
      · rename_i hkey
        subst hkey
        exact List.pairwise_cons.2 h
      · rename_i hlt hne
        refine List.pairwise_cons.2 ⟨fun e he => ?_, ih h.2⟩
        rcases fst_mem_placeEntry he with heq | he
        · rw [heq]
          exact Std.lt_of_le_of_ne (String.not_lt.1 hlt) (Ne.symm hne)
        · exact h.1 e he

/-- Puts `choose old` under a key, where `old` is what the key had before. -/
def place (t : Table α) (key : String) (choose : Option α → α) : Table α :=
  ⟨placeEntry key choose t.entries, ascending_placeEntry key choose t.ascending⟩

/-- Stores a value under a key, in place of what the key had before. -/
def insert (t : Table α) (key : String) (value : α) : Table α :=
  t.place key fun _ => value

/-- Stores a value under a key that has none yet. -/
def insertNew (t : Table α) (key : String) (value : α) : Table α :=
  t.place key (·.getD value)

def filter (keep : String → α → Bool) (t : Table α) : Table α :=
  ⟨t.entries.filter fun e => keep e.1 e.2, t.ascending.filter _⟩

def erase (t : Table α) (key : String) : Table α :=
  t.filter fun k _ => k ≠ key

def map (change : α → β) (t : Table α) : Table β :=
  ⟨t.entries.map fun e => (e.1, change e.2), List.pairwise_map.2 t.ascending⟩

/-- The table of a list of entries, of which later ones replace earlier ones with the same key. -/
def ofList (entries : List (String × α)) : Table α :=
  entries.foldr (fun e t => t.insertNew e.1 e.2) empty

/-! ## Look-ups -/

theorem lookup_cons_eq (k : String) (v : α) (rest : List (String × α)) (key : String) :
    ((k, v) :: rest).lookup key = if key = k then some v else rest.lookup key := by
  by_cases h : key = k
  · simp [h]
  · have hbeq : (key == k) = false := beq_eq_false_iff_ne.2 h
    simp only [List.lookup_cons, hbeq, h, if_false]

theorem lookup_eq_none_of_forall_lt {key : String} {l : List (String × α)}
    (h : ∀ e ∈ l, key < e.1) : l.lookup key = none := by
  rw [List.lookup_eq_none_iff]
  intro e he
  exact bne_iff_ne.2 fun heq => String.lt_irrefl _ (heq ▸ h e he)

theorem lookup_placeEntry (key : String) (choose : Option α → α) {l : List (String × α)}
    (h : l.Pairwise fun e f => e.1 < f.1) (k' : String) :
    (placeEntry key choose l).lookup k' =
      if k' = key then some (choose (l.lookup key)) else l.lookup k' := by
  induction l with
  | nil => simp only [placeEntry, lookup_cons_eq, List.lookup_nil]
  | cons head rest ih =>
    obtain ⟨k, v⟩ := head
    rw [List.pairwise_cons] at h
    simp only [placeEntry]
    split
    · rename_i hlt
      have hnone : List.lookup key ((k, v) :: rest) = none := by
        refine lookup_eq_none_of_forall_lt fun e he => ?_
        rcases List.mem_cons.1 he with rfl | he
        · exact hlt
        · exact String.lt_trans hlt (h.1 e he)
      rw [lookup_cons_eq, hnone]
    · split
      · rename_i hkey
        subst hkey
        simp only [lookup_cons_eq, if_true]
        split <;> rfl
      · rename_i hlt hne
        simp only [lookup_cons_eq, ih h.2, hne, if_false]
        by_cases hk : k' = k
        · simp [hk, Ne.symm hne]
        · simp [hk]

@[simp] theorem get?_empty (key : String) : (empty : Table α).get? key = none := rfl

theorem get?_place (t : Table α) (key : String) (choose : Option α → α) (k' : String) :
    (t.place key choose).get? k' = if k' = key then some (choose (t.get? key)) else t.get? k' :=
  lookup_placeEntry key choose t.ascending k'

@[simp] theorem get?_insert (t : Table α) (key : String) (value : α) (k' : String) :
    (t.insert key value).get? k' = if k' = key then some value else t.get? k' :=
  t.get?_place key _ k'

@[simp] theorem get?_insertNew (t : Table α) (key : String) (value : α) (k' : String) :
    (t.insertNew key value).get? k' =
      if k' = key then some ((t.get? key).getD value) else t.get? k' :=
  t.get?_place key _ k'

theorem lookup_filter_of_ascending (keep : String → α → Bool) {l : List (String × α)}
    (h : l.Pairwise fun e f => e.1 < f.1) (key : String) :
    (l.filter fun e => keep e.1 e.2).lookup key = (l.lookup key).filter (keep key) := by
  induction l with
  | nil => rfl
  | cons head rest ih =>
    obtain ⟨k, v⟩ := head
    rw [List.pairwise_cons] at h
    by_cases hk : key = k
    · subst hk
      cases hkeep : keep key v with
      | true => simp [hkeep, Option.filter]
      | false =>
        have hrest : (rest.filter fun e => keep e.1 e.2).lookup key = none :=
          lookup_eq_none_of_forall_lt fun e he => h.1 e (List.mem_filter.1 he).1
        simp [hkeep, Option.filter, hrest]
    · cases hkeep : keep k v <;> simp [lookup_cons_eq, hkeep, hk, ih h.2]

@[simp] theorem get?_filter (t : Table α) (keep : String → α → Bool) (key : String) :
    (t.filter keep).get? key = (t.get? key).filter (keep key) :=
  lookup_filter_of_ascending keep t.ascending key

@[simp] theorem get?_erase (t : Table α) (key k' : String) :
    (t.erase key).get? k' = if k' = key then none else t.get? k' := by
  rw [erase, get?_filter]
  by_cases hk : k' = key
  · subst hk; cases t.get? k' <;> simp
  · cases t.get? k' <;> simp [hk]

@[simp] theorem get?_map (t : Table α) (change : α → β) (key : String) :
    (t.map change).get? key = (t.get? key).map change := by
  have go : ∀ l : List (String × α),
      (l.map fun e => (e.1, change e.2)).lookup key = (l.lookup key).map change := by
    intro l
    induction l with
    | nil => rfl
    | cons head rest ih =>
      obtain ⟨k, v⟩ := head
      by_cases hk : key = k <;> simp [lookup_cons_eq, hk, ih]
  exact go t.entries

theorem mem_entries_iff (t : Table α) {key : String} {value : α} :
    (key, value) ∈ t.entries ↔ t.get? key = some value := by
  have go : ∀ l : List (String × α), (l.Pairwise fun e f => e.1 < f.1) →
      ((key, value) ∈ l ↔ l.lookup key = some value) := by
    intro l h
    induction l with
    | nil => simp
    | cons head rest ih =>
      obtain ⟨k, v⟩ := head
      rw [List.pairwise_cons] at h
      rw [lookup_cons_eq, List.mem_cons, ih h.2, Prod.mk.injEq]
      by_cases hk : key = k
      · subst hk
        have hnone : rest.lookup key = none := lookup_eq_none_of_forall_lt h.1
        simp [hnone, eq_comm]
      · simp [hk]
  exact go t.entries t.ascending

/-- Two tables that answer every look-up alike are equal. -/
theorem ext_get? {s t : Table α} (h : ∀ key, s.get? key = t.get? key) : s = t := by
  have hmem : ∀ e, e ∈ s.entries ↔ e ∈ t.entries := fun (k, v) => by
    rw [mem_entries_iff, mem_entries_iff, h]
  have go : ∀ l m : List (String × α), (l.Pairwise fun e f => e.1 < f.1) →
      (m.Pairwise fun e f => e.1 < f.1) → (∀ e, e ∈ l ↔ e ∈ m) → l = m := by
    intro l
    induction l with
    | nil =>
      intro m _ _ hm
      cases m with
      | nil => rfl
      | cons f m => exact absurd ((hm f).2 List.mem_cons_self) List.not_mem_nil
    | cons e l ih =>
      intro m hl hm hlm
      cases m with
      | nil => exact absurd ((hlm e).1 List.mem_cons_self) List.not_mem_nil
      | cons f m =>
        rw [List.pairwise_cons] at hl hm
        have hef : e = f := by
          rcases List.mem_cons.1 ((hlm e).1 List.mem_cons_self) with heq | he
          · exact heq
          · rcases List.mem_cons.1 ((hlm f).2 List.mem_cons_self) with heq | hf
            · exact heq.symm
            · exact absurd (hm.1 e he) (String.lt_asymm (hl.1 f hf))
        subst hef
        refine congrArg (e :: ·) (ih m hl.2 hm.2 fun g => ⟨fun hg => ?_, fun hg => ?_⟩)
        · rcases List.mem_cons.1 ((hlm g).1 (List.mem_cons_of_mem _ hg)) with heq | hg'
          · exact absurd (heq ▸ hl.1 g hg) (String.lt_irrefl _)
          · exact hg'
        · rcases List.mem_cons.1 ((hlm g).2 (List.mem_cons_of_mem _ hg)) with heq | hg'
          · exact absurd (heq ▸ hm.1 g hg) (String.lt_irrefl _)
          · exact hg'
  have hentries := go _ _ s.ascending t.ascending hmem
  cases s; cases t; cases hentries; rfl

end Table

/-! ## Sets of names -/

/-- Names in strictly ascending order. -/
structure NameSet where
  names : List String
  ascending : names.Pairwise (· < ·)
  deriving DecidableEq

namespace NameSet

def empty : NameSet := ⟨[], .nil⟩

instance : Inhabited NameSet := ⟨empty⟩

instance : Membership String NameSet := ⟨fun s name => name ∈ s.names⟩

def size (s : NameSet) : Nat :=
  s.names.length

def filter (keep : String → Bool) (s : NameSet) : NameSet :=
  ⟨s.names.filter keep, s.ascending.filter _⟩

def ofTable {α : Type} (t : Table α) : NameSet :=
  ⟨t.keys, List.pairwise_map.2 t.ascending⟩

def ofList (names : List String) : NameSet :=
  ofTable (Table.ofList (names.map fun name => (name, ())))

@[simp] theorem mem_filter {keep : String → Bool} {s : NameSet} {name : String} :
    name ∈ s.filter keep ↔ name ∈ s ∧ keep name :=
  List.mem_filter

end NameSet
end ApiProfile
