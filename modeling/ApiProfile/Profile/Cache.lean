import ApiProfile.Files.Store
import ApiProfile.Registry.Document
import ApiProfile.TypeTable
/-!
# Sources of profiles and their cache

Registries and type tables are read from files. A file that is not there is reported by its path alone;
every other fault is labelled with the file once. Profiles share sources, so what is read is kept: registries
by path and selection, type tables by path. A kept value is given out as it was read first, whatever becomes
of the file; a fault is not kept. `clear` forgets everything.
-/

namespace ApiProfile

/-! ## Sources -/

/-- Labels what reading a file reports. -/
def labelled {α : Type} (path : Path) : Except Failure α → Except Failure α
  | .ok value => .ok value
  | .error fault => .error (fault.inFileOnce path)

def Registry.read (store : FileStore) (path : Path) (selection : Selection) :
    Except Failure Registry := do
  labelled path (ofDocument selection (← store.readDocument path))

def TypeTable.read (store : FileStore) (path : Path) : Except Failure TypeTable := do
  labelled path (parse (← store.readDocument path))

/-! ## What is kept -/

/-- A kept value, with a number that tells it from every other value kept before or after. -/
structure Kept (α : Type) where
  value : α
  serial : Nat
  deriving Inhabited

structure Shelf (κ α : Type) where
  entries : List (κ × Kept α)
  nextSerial : Nat
  deriving Inhabited

namespace Shelf

variable {κ α : Type}

def empty : Shelf κ α := ⟨[], 0⟩

def size (shelf : Shelf κ α) : Nat :=
  shelf.entries.length

/-- Forgets the kept values; serial numbers are not used again. -/
def clear (shelf : Shelf κ α) : Shelf κ α :=
  { shelf with entries := [] }

/-- The value kept under a key, if there is one. -/
def kept? [BEq κ] (shelf : Shelf κ α) (key : κ) : Option (Kept α) :=
  shelf.entries.lookup key

/-- Keeps a value under a key, unless one is kept there already; the kept one is the answer. -/
def keep [BEq κ] (shelf : Shelf κ α) (key : κ) (value : α) : Kept α × Shelf κ α :=
  match shelf.kept? key with
  | some kept => (kept, shelf)
  | none =>
    let kept := ⟨value, shelf.nextSerial⟩
    (kept, ⟨shelf.entries ++ [(key, kept)], shelf.nextSerial + 1⟩)

/-- The value kept under a key, or else what `load` reads, which is then kept. -/
def fetch [BEq κ] (shelf : Shelf κ α) (key : κ) (load : Except Failure α) :
    Except Failure (Kept α) × Shelf κ α :=
  match shelf.kept? key with
  | some kept => (.ok kept, shelf)
  | none =>
    match load with
    | .error fault => (.error fault, shelf)
    | .ok value =>
      let (kept, shelf) := shelf.keep key value
      (.ok kept, shelf)

end Shelf

/-- The sources read so far. -/
structure Cache where
  registries : Shelf (Path.Parts × Selection) Registry
  tables : Shelf Path.Parts TypeTable
  deriving Inhabited

namespace Cache

def empty : Cache := ⟨.empty, .empty⟩

def clear (cache : Cache) : Cache :=
  ⟨cache.registries.clear, cache.tables.clear⟩

/-- The registry in a file for a selection. -/
def registry (store : FileStore) (cache : Cache) (path : Path) (selection : Selection) :
    Except Failure (Kept Registry) × Cache :=
  let (answer, registries) :=
    cache.registries.fetch (path.parts, selection) (Registry.read store path selection)
  (answer, { cache with registries })

def table (store : FileStore) (cache : Cache) (path : Path) :
    Except Failure (Kept TypeTable) × Cache :=
  let (answer, tables) := cache.tables.fetch path.parts (TypeTable.read store path)
  (answer, { cache with tables })

/-- The type tables in files, in order; the first fault ends it. -/
def tablesIn (store : FileStore) :
    Cache → List Path → Except Failure (List TypeTable) × Cache
  | cache, [] => (.ok [], cache)
  | cache, path :: paths =>
    match cache.table store path with
    | (.error fault, cache) => (.error fault, cache)
    | (.ok first, cache) =>
      match tablesIn store cache paths with
      | (.error fault, cache) => (.error fault, cache)
      | (.ok more, cache) => (.ok (first.value :: more), cache)

def chain (store : FileStore) (cache : Cache) (paths : List Path) :
    Except Failure TypeTable × Cache :=
  match cache.tablesIn store paths with
  | (.error fault, cache) => (.error fault, cache)
  | (.ok tables, cache) => (.ok (TypeTable.chain tables), cache)

end Cache

end ApiProfile
