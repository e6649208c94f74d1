import ApiProfile.Proofs.Profile.Sharing
import Mathlib.Data.List.Dedup
/-!
# What a cache gives out after any calls

Between the calls to a cache files may become anything. What a look-up answers is then a matter of what earlier look-ups
of its key could read: the first one since the cache was last cleared that could read anything decides for all later
ones, and until then each look-up reads the file itself (`Cache.after_remembers`). One look-up on one shelf is studied
first, then a call, and last a list of calls.
-/

namespace ApiProfile

/-- For each look-up its key and what the file gave at that time, the oldest look-up first. -/
abbrev Readings (κ α : Type) := List (κ × Except Failure α)

namespace Readings

variable {κ α : Type} [DecidableEq κ]

/-- The first value that could be read for a key. -/
def first? (readings : Readings κ α) (key : κ) : Option α :=
  readings.findSome? fun reading => if reading.1 = key then reading.2.toOption else none

/-- What one more look-up is to answer: the first value, or else what it reads itself. -/
def answer (readings : Readings κ α) (key : κ) (load : Except Failure α) : Except Failure α :=
  match readings.first? key with
  | some value => .ok value
  | none => load

/-- The keys that something could be read for, each once. -/
def loadedKeys (readings : Readings κ α) : List κ :=
  ((readings.filter fun reading => reading.2.isOk).map (·.1)).dedup

theorem first?_append (readings : Readings κ α) (key : κ) (load : Except Failure α) (k : κ) :
    first? (readings ++ [(key, load)]) k = (readings.first? k).or (if key = k then load.toOption else none) := by
  unfold first?
  rw [List.findSome?_append, List.findSome?_singleton]

theorem mem_loadedKeys {readings : Readings κ α} {key : κ} : key ∈ readings.loadedKeys ↔ readings.first? key ≠ none := by
  unfold loadedKeys first?
  rw [List.mem_dedup, ne_eq, List.findSome?_eq_none_iff]
  simp only [List.mem_map, List.mem_filter, not_forall]
  constructor
  · rintro ⟨⟨k, load⟩, ⟨hmem, hok⟩, rfl⟩
    refine ⟨(k, load), hmem, ?_⟩
    cases load with
    | error fault => cases hok
    | ok value => simp [Except.toOption]
  · rintro ⟨⟨k, load⟩, hmem, hfound⟩
    by_cases hkey : k = key
    · refine ⟨(k, load), ⟨hmem, ?_⟩, hkey⟩
      cases load with
      | error fault => simp [Except.toOption] at hfound
      | ok value => rfl
    · simp [hkey] at hfound

theorem nodup_loadedKeys (readings : Readings κ α) : readings.loadedKeys.Nodup :=
  List.nodup_dedup _

end Readings

/-! ## One look-up on a shelf -/

namespace Shelf

variable {κ α : Type} [BEq κ] {shelf : Shelf κ α} {key k : κ} {load : Except Failure α}

/-- A look-up takes nothing away and changes nothing. -/
theorem kept?_fetch {kept : Kept α} (h : shelf.kept? k = some kept) : (shelf.fetch key load).2.kept? k = some kept := by
  rcases shelf.fetch_cases key load with ⟨found, -, heq⟩ | ⟨fault, -, -, heq⟩ | ⟨found, -, -, heq⟩
  · rw [heq]
    exact h
  · rw [heq]
    exact h
  · rw [heq, kept?_append, h]
    rfl

theorem fetch_of_error {fault : Failure} (h : (shelf.fetch key load).1 = .error fault) :
    (shelf.fetch key load).2 = shelf := by
  rcases shelf.fetch_cases key load with ⟨found, -, heq⟩ | ⟨fault', -, -, heq⟩ | ⟨found, -, -, heq⟩
  · rw [heq]
  · rw [heq]
  · rw [heq] at h
    cases h

variable [DecidableEq κ] {readings : Readings κ α}

/-- The shelf has, for each key once, the first value that could be read. -/
structure Holds (shelf : Shelf κ α) (readings : Readings κ α) : Prop where
  kept : ∀ key, (shelf.kept? key).map (·.value) = readings.first? key
  nodup : shelf.keys.Nodup

theorem Holds.of_no_entries (h : shelf.entries = []) : shelf.Holds ([] : Readings κ α) where
  kept key := by
    unfold kept?
    rw [h]
    rfl
  nodup := by
    unfold keys
    rw [h]
    exact .nil

theorem Holds.answer_fetch (h : shelf.Holds readings) (key : κ) (load : Except Failure α) :
    (shelf.fetch key load).1.map (·.value) = readings.answer key load := by
  have hfirst := h.kept key
  unfold Readings.answer
  rw [← hfirst]
  rcases shelf.fetch_cases key load with ⟨found, hkept, heq⟩ | ⟨fault, hkept, rfl, heq⟩ | ⟨found, hkept, rfl, heq⟩
  · rw [heq, hkept]
    rfl
  · rw [heq, hkept]
    rfl
  · rw [heq, hkept]
    rfl

variable [LawfulBEq κ]

/-- The step: a look-up adds its reading. -/
theorem Holds.fetch (h : shelf.Holds readings) (key : κ) (load : Except Failure α) :
    (shelf.fetch key load).2.Holds (readings ++ [(key, load)]) := by
  rcases shelf.fetch_cases key load with ⟨found, hkept, heq⟩ | ⟨fault, hkept, rfl, heq⟩ | ⟨found, hkept, rfl, heq⟩
  · rw [heq]
    refine ⟨fun k => ?_, h.nodup⟩
    rw [Readings.first?_append, ← h.kept]
    by_cases hk : key = k
    · rw [← hk, hkept]
      rfl
    · rw [if_neg hk, Option.or_none]
  · rw [heq]
    refine ⟨fun k => ?_, h.nodup⟩
    rw [Readings.first?_append, ← h.kept]
    by_cases hk : key = k
    · rw [if_pos hk, show (Except.error fault : Except Failure α).toOption = none from rfl, Option.or_none]
    · rw [if_neg hk, Option.or_none]
  · rw [heq]
    refine ⟨fun k => ?_, ?_⟩
    · rw [Readings.first?_append, ← h.kept, kept?_append]
      by_cases hk : key = k
      · -- nothing was kept under the key, so this reading is the first one that counts
        subst hk
        rw [hkept, beq_self_eq_true]
        simp [Except.toOption]
      · rw [if_neg hk, Option.or_none, beq_false_of_ne (Ne.symm hk)]
        simp
    · unfold keys
      rw [List.map_append, List.map_singleton, ← List.concat_eq_append, List.nodup_concat]
      exact ⟨kept?_eq_none.1 hkept, h.nodup⟩

/-- As many entries as keys that something could be read for. -/
theorem Holds.size_eq (h : shelf.Holds readings) : shelf.size = readings.loadedKeys.length := by
  have hperm : shelf.keys.Perm readings.loadedKeys := by
    rw [List.perm_ext_iff_of_nodup h.nodup (Readings.nodup_loadedKeys _)]
    intro key
    rw [Readings.mem_loadedKeys, ← h.kept, ne_eq, Option.map_eq_none_iff, kept?_eq_none, not_not]
  rw [← hperm.length_eq]
  exact (List.length_map ..).symm

end Shelf

/-! ## Calls -/

namespace Cache

/-- A call to a cache. -/
inductive Call
  | registry (path : Path) (selection : Selection)
  | table (path : Path)
  | chain (paths : List Path)
  | clear
  deriving DecidableEq, Repr

/-- The cache after a call. -/
def perform (store : FileStore) (cache : Cache) : Call → Cache
  | .registry path selection => (cache.registry store path selection).2
  | .table path => (cache.table store path).2
  | .chain paths => (cache.chain store paths).2
  | .clear => cache.clear

/-- The cache after calls, the oldest first, each with the files at its time. -/
def after (calls : List (FileStore × Call)) : Cache :=
  calls.foldl (fun cache call => cache.perform call.1 call.2) .empty

/-- What the look-ups since the cache was last cleared have read. -/
structure Past where
  registries : Readings (Path.Parts × Selection) Registry
  tables : Readings Path.Parts TypeTable

/-- A chain looks its tables up one by one, up to and including the first one that is not to be had. -/
def readTables (store : FileStore) : Readings Path.Parts TypeTable → List Path → Readings Path.Parts TypeTable
  | tables, [] => tables
  | tables, path :: paths =>
    let load := TypeTable.read store path
    match tables.answer path.parts load with
    | .ok _ => readTables store (tables ++ [(path.parts, load)]) paths
    | .error _ => tables ++ [(path.parts, load)]

def Past.record (store : FileStore) (past : Past) : Call → Past
  | .registry path selection =>
    { past with registries := past.registries ++ [((path.parts, selection), Registry.read store path selection)] }
  | .table path => { past with tables := past.tables ++ [(path.parts, TypeTable.read store path)] }
  | .chain paths => { past with tables := readTables store past.tables paths }
  | .clear => ⟨[], []⟩

def Past.ofCalls (calls : List (FileStore × Call)) : Past :=
  calls.foldl (fun past call => past.record call.1 call.2) ⟨[], []⟩

/-- Calls for the tables at paths, one after the other whether they fail or not. -/
def tableCalls (store : FileStore) : Cache → List Path → List (Except Failure (Kept TypeTable)) × Cache
  | cache, [] => ([], cache)
  | cache, path :: paths =>
    let (answer, next) := cache.table store path
    let (answers, last) := tableCalls store next paths
    (answer :: answers, last)

/-! ## Chains -/

/-- Tables in files are what calls for them answer, up to the first fault. -/
theorem tablesIn_eq_calls (store : FileStore) (cache : Cache) (paths : List Path) :
    ∃ (made rest : List Path) (kept : List (Kept TypeTable)), paths = made ++ rest ∧
      (rest = [] ∧ (cache.tableCalls store made).1 = kept.map .ok ∧
          cache.tablesIn store paths = (.ok (kept.map (·.value)), (cache.tableCalls store made).2) ∨
        ∃ fault, (cache.tableCalls store made).1 = kept.map .ok ++ [.error fault] ∧
          cache.tablesIn store paths = (.error fault, (cache.tableCalls store made).2)) := by
  induction paths generalizing cache with
  | nil => exact ⟨[], [], [], rfl, .inl ⟨rfl, rfl, rfl⟩⟩
  | cons path paths ih =>
    cases htable : cache.table store path with
    | mk answer next =>
      cases answer with
      | error fault =>
        refine ⟨[path], paths, [], rfl, .inr ⟨fault, ?_, ?_⟩⟩
        · simp [tableCalls, htable]
        · simp [tableCalls, tablesIn, htable]
      | ok first =>
        obtain ⟨made, rest, kept, rfl, hend⟩ := ih next
        refine ⟨path :: made, rest, first :: kept, rfl, ?_⟩
        rcases hend with ⟨hrest, hanswers, htables⟩ | ⟨fault, hanswers, htables⟩
        · refine .inl ⟨hrest, ?_, ?_⟩
          · simp [tableCalls, htable, hanswers]
          · simp [tableCalls, tablesIn, htable, htables]
        · refine .inr ⟨fault, ?_, ?_⟩
          · simp [tableCalls, htable, hanswers]
          · simp [tableCalls, tablesIn, htable, htables]

/-! ## Calls keep what is there -/

/-- What a cache keeps, the other one keeps too. -/
structure KeptIn (cache other : Cache) : Prop where
  registries : ∀ key kept, cache.registries.kept? key = some kept → other.registries.kept? key = some kept
  tables : ∀ key kept, cache.tables.kept? key = some kept → other.tables.kept? key = some kept

theorem KeptIn.refl (cache : Cache) : cache.KeptIn cache :=
  ⟨fun _ _ h => h, fun _ _ h => h⟩

theorem KeptIn.trans {cache other third : Cache} (h : cache.KeptIn other) (h' : other.KeptIn third) :
    cache.KeptIn third :=
  ⟨fun key kept hkept => h'.registries key kept (h.registries key kept hkept),
    fun key kept hkept => h'.tables key kept (h.tables key kept hkept)⟩

theorem keptIn_table (store : FileStore) (cache : Cache) (path : Path) : cache.KeptIn (cache.table store path).2 :=
  ⟨fun _ _ h => h, fun _ _ h => Shelf.kept?_fetch h⟩

theorem keptIn_tablesIn (store : FileStore) (cache : Cache) (paths : List Path) :
    cache.KeptIn (cache.tablesIn store paths).2 := by
  induction paths generalizing cache with
  | nil => exact .refl cache
  | cons path paths ih =>
    rw [tablesIn_snd_cons]
    cases (cache.table store path).1 with
    | ok first => exact (keptIn_table store cache path).trans (ih _)
    | error fault => exact keptIn_table store cache path

theorem keptIn_perform (store : FileStore) (cache : Cache) {call : Call} (hcall : call ≠ .clear) :
    cache.KeptIn (cache.perform store call) := by
  cases call with
  | registry path selection => exact ⟨fun _ _ h => Shelf.kept?_fetch h, fun _ _ h => h⟩
  | table path => exact keptIn_table store cache path
  | chain paths =>
    change cache.KeptIn (cache.chain store paths).2
    rw [chain_snd]
    exact keptIn_tablesIn store cache paths
  | clear => contradiction

/-! ## Any calls -/

/-- Both shelves hold the first values that could be read. -/
structure Holds (cache : Cache) (past : Past) : Prop where
  registries : cache.registries.Holds past.registries
  tables : cache.tables.Holds past.tables

theorem Holds.table {cache : Cache} {past : Past} (h : cache.Holds past) (store : FileStore) (path : Path) :
    (cache.table store path).2.Holds { past with tables := past.tables ++ [(path.parts, TypeTable.read store path)] } :=
  ⟨h.registries, h.tables.fetch path.parts (TypeTable.read store path)⟩

theorem Holds.answer_table {cache : Cache} {past : Past} (h : cache.Holds past) (store : FileStore) (path : Path) :
    (cache.table store path).1.map (·.value) = past.tables.answer path.parts (TypeTable.read store path) :=
  h.tables.answer_fetch path.parts (TypeTable.read store path)

theorem Holds.tablesIn {cache : Cache} {past : Past} (h : cache.Holds past) (store : FileStore) (paths : List Path) :
    (cache.tablesIn store paths).2.Holds { past with tables := readTables store past.tables paths } := by
  induction paths generalizing cache past with
  | nil => exact h
  | cons path paths ih =>
    have hanswer := h.answer_table store path
    rw [tablesIn_snd_cons, readTables]
    cases hfirst : (cache.table store path).1 with
    | ok first =>
      rw [hfirst] at hanswer
      rw [← hanswer]
      exact ih (h.table store path)
    | error fault =>
      rw [hfirst] at hanswer
      rw [← hanswer]
      exact h.table store path

/-- The step: a call adds its readings. -/
theorem Holds.perform {cache : Cache} {past : Past} (h : cache.Holds past) (store : FileStore) (call : Call) :
    (cache.perform store call).Holds (past.record store call) := by
  cases call with
  | registry path selection =>
    exact ⟨h.registries.fetch (path.parts, selection) (Registry.read store path selection), h.tables⟩
  | table path => exact h.table store path
  | chain paths =>
    change (cache.chain store paths).2.Holds _
    rw [chain_snd]
    exact h.tablesIn store paths
  | clear => exact ⟨.of_no_entries rfl, .of_no_entries rfl⟩

/-- The run: any calls leave the cache with what their look-ups have read. -/
theorem holds_after (calls : List (FileStore × Call)) : (after calls).Holds (.ofCalls calls) := by
  have hrun : ∀ {cache : Cache} {past : Past}, cache.Holds past →
      (calls.foldl (fun cache call => cache.perform call.1 call.2) cache).Holds
        (calls.foldl (fun past call => past.record call.1 call.2) past) := by
    induction calls with
    | nil => exact id
    | cons call calls ih => exact fun h => ih (h.perform call.1 call.2)
  exact hrun ⟨.of_no_entries rfl, .of_no_entries rfl⟩

/-- What a cache answers and does at any files, if `past` are the readings since it was last cleared. -/
structure Remembers (cache : Cache) (past : Past) : Prop where
  /-- The first registry that could be read for the key, or else what the file gives now. -/
  registry : ∀ store path selection, (cache.registry store path selection).1.map (·.value) =
    past.registries.answer (path.parts, selection) (Registry.read store path selection)
  /-- The first table that could be read for the key, or else what the file gives now. -/
  table : ∀ store path, (cache.table store path).1.map (·.value) =
    past.tables.answer path.parts (TypeTable.read store path)
  /-- A fault leaves everything as it was. -/
  registry_fault : ∀ store path selection fault, (cache.registry store path selection).1 = .error fault →
    (cache.registry store path selection).2 = cache
  table_fault : ∀ store path fault, (cache.table store path).1 = .error fault → (cache.table store path).2 = cache
  /-- A chain makes the calls for its tables, up to and including the first one that fails. -/
  chain : ∀ store paths, ∃ (made rest : List Path) (kept : List (Kept TypeTable)), paths = made ++ rest ∧
    (rest = [] ∧ (cache.tableCalls store made).1 = kept.map .ok ∧
        cache.chain store paths = (.ok (.chain (kept.map (·.value))), (cache.tableCalls store made).2) ∨
      ∃ fault, (cache.tableCalls store made).1 = kept.map .ok ++ [.error fault] ∧
        cache.chain store paths = (.error fault, (cache.tableCalls store made).2))
  /-- Only clearing takes anything away or changes it. -/
  keeps : ∀ store call, call ≠ .clear → cache.KeptIn (cache.perform store call)
  registries_size : cache.registries.size = past.registries.loadedKeys.length
  tables_size : cache.tables.size = past.tables.loadedKeys.length

/-- After any calls, between which the files may become anything, a cache remembers the first values that could be read
since it was last cleared. -/
theorem after_remembers (calls : List (FileStore × Call)) : (after calls).Remembers (.ofCalls calls) where
  registry store path selection :=
    (holds_after calls).registries.answer_fetch (path.parts, selection) (Registry.read store path selection)
  table store path := (holds_after calls).answer_table store path
  registry_fault store path selection fault h := by
    have hshelf := Shelf.fetch_of_error h
    exact congrArg (fun shelf => { after calls with registries := shelf }) hshelf
  table_fault store path fault h := by
    have hshelf := Shelf.fetch_of_error h
    exact congrArg (fun shelf => { after calls with tables := shelf }) hshelf
  chain store paths := by
    obtain ⟨made, rest, kept, hpaths, hend⟩ := (after calls).tablesIn_eq_calls store paths
    refine ⟨made, rest, kept, hpaths, ?_⟩
    rcases hend with ⟨hrest, hanswers, htables⟩ | ⟨fault, hanswers, htables⟩
    · refine .inl ⟨hrest, hanswers, ?_⟩
      unfold Cache.chain
      rw [htables]
    · refine .inr ⟨fault, hanswers, ?_⟩
      unfold Cache.chain
      rw [htables]
  keeps store call hcall := keptIn_perform store (after calls) hcall
  registries_size := (holds_after calls).registries.size_eq
  tables_size := (holds_after calls).tables.size_eq

/-- A table that is read, then changed in its file, is given out as it was read, until the cache is cleared. -/
example : let files := fun text : String => FileStore.mk [] [(["t"], .file text.toUTF8)]
    let answer := fun calls => ((after calls).table (files "int, u8") ⟨"t"⟩).1.map fun kept => kept.value
    let first := (files "int, i32", Call.table ⟨"t"⟩)
    answer [first] = TypeTable.read (files "int, i32") ⟨"t"⟩ ∧
    answer [first, (files "", .clear)] = TypeTable.read (files "int, u8") ⟨"t"⟩ := by
  decide +kernel

end Cache
end ApiProfile
