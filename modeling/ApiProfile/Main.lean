import ApiProfile.CommandLine.Run
/-!
# The program

Looks at the files that a request can depend on, carries the request out over their values, and makes
the same changes to the file system.
-/

namespace ApiProfile.CommandLine

/-- The name and the value of a variable: the name ends at the first equals sign after the first character. -/
def nameAndValue? (text : String) : Option (String × String) :=
  match text.toList with
  | [] => none
  | c :: rest =>
    match rest.dropWhile (· ≠ '=') with
    | [] => none
    | _ :: value => some (String.ofList (c :: rest.takeWhile (· ≠ '=')), String.ofList value)

/-- The variables in a block of the environment: each ends with a NUL. Those that are no text are left
out. -/
def variablesOf (block : ByteArray) : Environment :=
  (block.toList.splitOn 0).filterMap fun bytes =>
    (String.fromUTF8? (ByteArray.mk bytes.toArray)).bind nameAndValue?

/-- The variables of the environment; there are none where the system does not list them. -/
def environmentVariables : IO Environment := do
  try return variablesOf (← IO.FS.readBinFile "/proc/self/environ")
  catch _ => return []

/-- What a path of the file system leads to. -/
def observe (text : String) : IO (Option FileEntry) := do
  try
    let place ← IO.FS.realPath text
    if ← place.isDir then return some .directory
    else return some (.file (← IO.FS.readBinFile place))
  catch _ => return none

/-- Records what a path leads to, and what its first pieces do. -/
def record (store : FileStore) (path : Path) : IO FileStore := do
  let mut store := store
  let pieces := path.pieces
  for count in List.range pieces.length do
    let first := pieces.take (count + 1)
    if let some entry ← observe ("/".intercalate first) then
      store := store.put (first.foldl FileStore.stepFrom (store.base path)) entry
  return store

/-- Records the files that a request can depend on, the ones that a configuration names after those that
the configuration is loaded from. -/
def snapshot (environment : Environment) (invocation : Invocation) : IO FileStore := do
  let directory ← IO.currentDir
  let mut store := FileStore.emptyAt ((Path.mk directory.toString).pieces.filter (· ≠ ""))
  for _ in List.range 2 do
    store ← (invocation.consulted .tomlOnly store environment).foldlM record store
  return store

/-- Makes changes to the file system. -/
def perform (changes : List (List String × FileEntry)) : IO Unit := do
  for (place, entry) in changes do
    let text := "/" ++ "/".intercalate place
    match entry with
    | .directory => IO.FS.createDirAll text
    | .file content => IO.FS.writeBinFile text content

/-- The text shown when arguments are not understood, or help is asked for. -/
def usage : String :=
  "Usage: registry-bind [-c FILE] resolve [-p NAME]... [-o DIRECTORY] [--strict]\n"
    ++ "       registry-bind typemap check FILE...\n"
    ++ "       registry-bind [-c FILE] config show\n"
    ++ "       registry-bind config init [FILE]\n"

/-- Carries out a request on the file system. -/
def carryOut (invocation : Invocation) : IO UInt32 := do
  let environment ← environmentVariables
  let store ← snapshot environment invocation
  let outcome := invocation.run store environment
  perform (outcome.store.changedSince store)
  IO.print outcome.output
  IO.eprint outcome.errorOutput
  return outcome.status

end ApiProfile.CommandLine

/-- Resolves the profiles of an API registry and writes their models. -/
def main (arguments : List String) : IO UInt32 := do
  match ApiProfile.CommandLine.Invocation.ofArguments arguments with
  | .ok invocation => ApiProfile.CommandLine.carryOut invocation
  | .error .help =>
    IO.print ApiProfile.CommandLine.usage
    return 0
  | .error .usage =>
    IO.eprint ApiProfile.CommandLine.usage
    return 2
