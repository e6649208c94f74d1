import ApiProfile.Failure
/-!
# Files

A file system as a value, seen from a working directory. A path is followed piece by piece as an
operating system does it: every piece but the last must lead to a directory, and so must one before a
slash. A place is the list of names that leads to it from the root.
-/

namespace ApiProfile

inductive FileEntry
  | file (content : ByteArray)
  | directory
  deriving Inhabited

/-- Files are told apart by their bytes. -/
instance : DecidableEq FileEntry
  | .directory, .directory => isTrue rfl
  | .file a, .file b =>
    if h : a.data = b.data then isTrue (by rw [ByteArray.ext h])
    else isFalse fun he => h (by cases he; rfl)
  | .file _, .directory => isFalse nofun
  | .directory, .file _ => isFalse nofun

/-- Entries by place. A later entry for a place comes before an earlier one. -/
structure FileStore where
  workingDirectory : List String
  entries : List (List String × FileEntry)
  deriving Inhabited

namespace FileStore

/-- A file system that has the working directory only. -/
def emptyAt (workingDirectory : List String) : FileStore := ⟨workingDirectory, []⟩

/-- What a place holds. A place that others lie below is a directory. -/
def at? (store : FileStore) (place : List String) : Option FileEntry :=
  match store.entries.lookup place with
  | some entry => some entry
  | none =>
    if place.isPrefixOf store.workingDirectory ∨ store.entries.any (fun e => place.isPrefixOf e.1)
    then some .directory else none

def isDirectoryAt (store : FileStore) (place : List String) : Bool :=
  store.at? place == some .directory

/-- The place that one piece of a path leads to from a directory. Nothing lies above the root. -/
def stepFrom (place : List String) (piece : String) : List String :=
  if piece = "" ∨ piece = "." then place
  else if piece = ".." then place.dropLast
  else place ++ [piece]

/-- The place that pieces of a path lead to, if every piece starts from a directory. -/
def follow (store : FileStore) : (place : List String) → List String → Option (List String)
  | place, [] => some place
  | place, piece :: pieces =>
    if store.isDirectoryAt place then follow store (stepFrom place piece) pieces else none

/-- Where a path starts: at the root or at the working directory. -/
def base (store : FileStore) (path : Path) : List String :=
  if path.isAbsolute then [] else store.workingDirectory

/-- The place that a path leads to; there need not be anything. -/
def place? (store : FileStore) (path : Path) : Option (List String) :=
  if path.text = "" then none else store.follow (store.base path) path.pieces

def entry? (store : FileStore) (path : Path) : Option FileEntry :=
  (store.place? path).bind store.at?

def isDirectory (store : FileStore) (path : Path) : Bool :=
  store.entry? path == some .directory

def pathExists (store : FileStore) (path : Path) : Bool :=
  (store.entry? path).isSome

/-- The content of the file that a path leads to. -/
def file? (store : FileStore) (path : Path) : Option ByteArray :=
  match store.entry? path with
  | some (.file content) => some content
  | _ => none

def isFile (store : FileStore) (path : Path) : Bool :=
  (store.file? path).isSome

def readDocument (store : FileStore) (path : Path) : Except Failure String :=
  match store.file? path with
  | none => .error (.documentNotFound path)
  | some content =>
    match String.fromUTF8? content with
    | some text => .ok text
    | none => .error (.inFile path .unreadable)

def put (store : FileStore) (place : List String) (entry : FileEntry) : FileStore :=
  { store with entries := (place, entry) :: store.entries }

/-- Takes out what is at a place and below it. -/
def removeAt (store : FileStore) (place : List String) : FileStore :=
  { store with entries := store.entries.filter fun e => !place.isPrefixOf e.1 }

/-- Writes a file; its directory must be there, and the path must not lead to a directory. -/
def write? (store : FileStore) (path : Path) (content : ByteArray) : Option FileStore :=
  match store.place? path with
  | none => none
  | some place =>
    if store.isDirectoryAt place || !path.fits then none else some (store.put place (.file content))

/-- Makes the directories that pieces of a path lead to from a directory; a file in the way ends
it. -/
def makeFrom (store : FileStore) : (place : List String) → List String → Option FileStore
  | _, [] => some store
  | place, piece :: pieces =>
    let next := stepFrom place piece
    match store.at? next with
    | some (.file _) => none
    | some .directory => makeFrom store next pieces
    | none => makeFrom (store.put next .directory) next pieces

/-- Makes a directory and those that it lies in. A `.` after the last name makes nothing: the
directory must be there by then. -/
def makeDirectories? (store : FileStore) (path : Path) : Option FileStore :=
  let names := path.parts.names
  match store.makeFrom (store.base path) names.dropLast with
  | none => none
  | some made =>
    if made.isDirectory path then some made
    else if path.endsInDot || !path.fits then none
    else made.makeFrom (store.base path) names

/-- The places that entries were put at, each once, newest first. -/
def places (store : FileStore) : List (List String) :=
  (store.entries.map (·.1)).eraseDups

/-- The entries of a store that an earlier one does not have, or has with another content: directories
before what lies in them. -/
def changedSince (store earlier : FileStore) : List (List String × FileEntry) :=
  store.places.reverse.filterMap fun place =>
    match store.at? place with
    | some entry => if earlier.at? place = some entry then none else some (place, entry)
    | none => none

end FileStore
end ApiProfile
