import ApiProfile.Profile.Cache
import ApiProfile.Proofs.Profile.Source
import ApiProfile.Proofs.Table
/-!
# What the cache gives out

A cache is `Reached` when calls lead to it from the empty one, whatever the files held at each of them.
Every registry kept in such a cache was read from some document for the selection that it is kept under
(`Reached.read`), and so is every registry that it gives out. Registries and type tables do not touch
each other.
-/

namespace ApiProfile

/-! ## Shelves -/

namespace Shelf

variable {κ α : Type} [BEq κ] {shelf : Shelf κ α} {key : κ} {load : Except Failure α}

theorem mem_of_kept? [LawfulBEq κ] {kept : Kept α} (h : shelf.kept? key = some kept) : (key, kept) ∈ shelf.entries :=
  Table.mem_of_lookup h

theorem kept?_append (kept : Kept α) (serial : Nat) (k : κ) :
    kept? ⟨shelf.entries ++ [(key, kept)], serial⟩ k = (shelf.kept? k).or (if k == key then some kept else none) := by
  unfold kept?
  rw [List.lookup_append, List.lookup_cons, List.lookup_nil]
  cases k == key <;> rfl

/-- A look-up finds a kept value, or reads a fault, or reads a value and puts it behind the entries. -/
theorem fetch_cases (shelf : Shelf κ α) (key : κ) (load : Except Failure α) :
    (∃ kept, shelf.kept? key = some kept ∧ shelf.fetch key load = (.ok kept, shelf)) ∨
    (∃ fault, shelf.kept? key = none ∧ load = .error fault ∧ shelf.fetch key load = (.error fault, shelf)) ∨
    ∃ kept, shelf.kept? key = none ∧ load = .ok kept.value ∧
      shelf.fetch key load = (.ok kept, ⟨shelf.entries ++ [(key, kept)], shelf.nextSerial + 1⟩) := by
  unfold fetch
  cases hkept : shelf.kept? key with
  | some kept => exact .inl ⟨kept, rfl, rfl⟩
  | none =>
    cases load with
    | error fault => exact .inr (.inl ⟨fault, rfl, rfl, rfl⟩)
    | ok value =>
      refine .inr (.inr ⟨⟨value, shelf.nextSerial⟩, rfl, rfl, ?_⟩)
      unfold keep
      rw [hkept]

theorem fetch_eq_ok [LawfulBEq κ] {kept : Kept α} (h : (shelf.fetch key load).1 = .ok kept) :
    (key, kept) ∈ shelf.entries ∨ load = .ok kept.value := by
  rcases shelf.fetch_cases key load with ⟨found, hfound, heq⟩ | ⟨fault, -, -, heq⟩ | ⟨found, -, hload, heq⟩
  · rw [heq] at h
    cases h
    exact .inl (mem_of_kept? hfound)
  · rw [heq] at h
    cases h
  · rw [heq] at h
    cases h
    exact .inr hload

theorem mem_fetch {entry : κ × Kept α} (h : entry ∈ (shelf.fetch key load).2.entries) :
    entry ∈ shelf.entries ∨ entry.1 = key ∧ load = .ok entry.2.value := by
  rcases shelf.fetch_cases key load with ⟨found, -, heq⟩ | ⟨fault, -, -, heq⟩ | ⟨found, -, hload, heq⟩
  · rw [heq] at h
    exact .inl h
  · rw [heq] at h
    exact .inl h
  · rw [heq] at h
    rcases List.mem_append.1 h with h | h
    · exact .inl h
    · rw [List.mem_singleton.1 h]
      exact .inr ⟨rfl, hload⟩

end Shelf

namespace Cache

/-! ## Registries and tables apart -/

theorem registry_fst (store : FileStore) (cache : Cache) (path : Path) (selection : Selection) :
    (cache.registry store path selection).1 =
      (cache.registries.fetch (path.parts, selection) (Registry.read store path selection)).1 := rfl

theorem registries_registry (store : FileStore) (cache : Cache) (path : Path) (selection : Selection) :
    (cache.registry store path selection).2.registries =
      (cache.registries.fetch (path.parts, selection) (Registry.read store path selection)).2 := rfl

theorem tables_registry (store : FileStore) (cache : Cache) (path : Path) (selection : Selection) :
    (cache.registry store path selection).2.tables = cache.tables := rfl

theorem tablesIn_cons (store : FileStore) (cache : Cache) (path : Path) (paths : List Path) :
    (cache.tablesIn store (path :: paths)).1 = (do
      let first ← (cache.table store path).1
      let more ← ((cache.table store path).2.tablesIn store paths).1
      return first.value :: more) := by
  rw [tablesIn]
  split <;> rename_i hfirst <;> rw [hfirst]
  · rfl
  · split <;> rename_i hmore <;> dsimp only <;> rw [hmore] <;> rfl

theorem tablesIn_snd_cons (store : FileStore) (cache : Cache) (path : Path) (paths : List Path) :
    (cache.tablesIn store (path :: paths)).2 =
      match (cache.table store path).1 with
      | .ok _ => ((cache.table store path).2.tablesIn store paths).2
      | .error _ => (cache.table store path).2 := by
  rw [tablesIn]
  split <;> rename_i hfirst <;> rw [hfirst]
  split <;> rename_i hmore <;> dsimp only <;> rw [hmore]

theorem tablesIn_append {store : FileStore} {cache after : Cache} {paths : List Path} {read : List TypeTable}
    (h : cache.tablesIn store paths = (.ok read, after)) (more : List Path) :
    cache.tablesIn store (paths ++ more) =
      ((after.tablesIn store more).1.map (read ++ ·), (after.tablesIn store more).2) := by
  induction paths generalizing cache read with
  | nil =>
    cases h
    exact Prod.ext (by rw [List.nil_append]; cases (after.tablesIn store more).1 <;> rfl) rfl
  | cons path paths ih =>
    rw [tablesIn] at h
    split at h
    · cases h
    · rename_i first cache' hfirst
      split at h <;> cases h
      rename_i rest hrest
      rw [List.cons_append, tablesIn, hfirst]
      dsimp only
      rw [ih hrest]
      cases after.tablesIn store more with
      | mk answer last => cases answer <;> rfl

theorem chain_eq_map (store : FileStore) (cache : Cache) (paths : List Path) :
    (cache.chain store paths).1 = (cache.tablesIn store paths).1.map TypeTable.chain := by
  unfold chain
  split <;> rename_i h <;> rw [h] <;> rfl

theorem chain_snd (store : FileStore) (cache : Cache) (paths : List Path) :
    (cache.chain store paths).2 = (cache.tablesIn store paths).2 := by
  unfold chain
  split <;> rename_i h <;> rw [h]

/-- Registries have no part in what the tables in files are. -/
theorem tablesIn_congr {store : FileStore} {cache cache' : Cache} (h : cache.tables = cache'.tables)
    (paths : List Path) : (cache.tablesIn store paths).1 = (cache'.tablesIn store paths).1 := by
  induction paths generalizing cache cache' with
  | nil => rfl
  | cons path paths ih =>
    have hfirst : (cache.table store path).1 = (cache'.table store path).1 := by
      unfold table
      rw [h]
    have hrest : (cache.table store path).2.tables = (cache'.table store path).2.tables := by
      unfold table
      rw [h]
    rw [tablesIn_cons, tablesIn_cons, hfirst, ih hrest]

theorem chain_congr {store : FileStore} {cache cache' : Cache} (h : cache.tables = cache'.tables)
    (paths : List Path) : (cache.chain store paths).1 = (cache'.chain store paths).1 := by
  rw [chain_eq_map, chain_eq_map, tablesIn_congr h]

/-! ## Registries come from documents -/

/-- The caches that calls lead to from the empty one. -/
inductive Reached : Cache → Prop
  | empty : Reached .empty
  | clear {cache : Cache} (h : Reached cache) : Reached cache.clear
  | registry {cache : Cache} (h : Reached cache) (store : FileStore) (path : Path) (selection : Selection) :
    Reached (cache.registry store path selection).2
  | table {cache : Cache} (h : Reached cache) (store : FileStore) (path : Path) :
    Reached (cache.table store path).2

/-- Every kept registry was read from a document for its selection. -/
def Read (cache : Cache) : Prop :=
  ∀ entry ∈ cache.registries.entries, ∃ document, Registry.ofDocument entry.1.2 document = .ok entry.2.value

theorem Read.registry {cache : Cache} (hcache : cache.Read) (store : FileStore) (path : Path)
    (selection : Selection) : (cache.registry store path selection).2.Read := by
  intro entry h
  rw [registries_registry] at h
  rcases Shelf.mem_fetch h with hkept | ⟨hkey, hload⟩
  · exact hcache entry hkept
  · rw [hkey]
    exact Registry.exists_document_of_read hload

theorem Reached.read {cache : Cache} (h : cache.Reached) : cache.Read := by
  induction h with
  | empty =>
    intro entry hentry
    cases hentry
  | clear _ _ =>
    intro entry hentry
    cases hentry
  | registry _ store path selection ih => exact ih.registry store path selection
  -- a call for a type table leaves the registries as they are
  | table _ store path ih => exact ih

theorem Reached.exists_document {cache : Cache} (hcache : cache.Reached) {store : FileStore} {path : Path}
    {selection : Selection} {kept : Kept Registry} (h : (cache.registry store path selection).1 = .ok kept) :
    ∃ document, Registry.ofDocument selection document = .ok kept.value := by
  rw [registry_fst] at h
  rcases Shelf.fetch_eq_ok h with hkept | hload
  · exact hcache.read ((path.parts, selection), kept) hkept
  · exact Registry.exists_document_of_read hload

end Cache
end ApiProfile
