import ApiProfile.Files.Path
/-!
# Arguments of the command line

Reads what the program is asked for. Commands form a tree; each has options of its own, and every one
can name a configuration file, of which the one given last counts. An option is given at most once to
a command, but for the profiles to run. Its value may be attached to it, or else is the argument after
it, which must not look like an option. After `--` nothing is an option.
-/

namespace ApiProfile.CommandLine

/-- What the program is asked for. -/
inductive Request
  | runProfiles (names : List String) (directory : Option Path) (strict : Bool)
  | checkTables (files : List Path)
  | showConfiguration
  | createConfiguration (path : Path)
  deriving DecidableEq, Repr, Inhabited

/-- A request, and the configuration file that is named with it. -/
structure Invocation where
  configuration : Option Path
  request : Request
  deriving DecidableEq, Repr, Inhabited

/-- Why arguments make no request: they ask for help, or they are not understood. -/
inductive Refusal
  | help
  | usage
  deriving DecidableEq, Repr, Inhabited

/-! ## Commands and options -/

/-- The program and the commands below it. -/
inductive Level
  | program
  | resolve
  | typeTables
  | checkTables
  | configuration
  | showConfiguration
  | createConfiguration
  deriving DecidableEq, Repr, Inhabited

def Level.commands : Level → List (String × Level)
  | program => [("resolve", resolve), ("typemap", typeTables), ("config", configuration)]
  | typeTables => [("check", checkTables)]
  | configuration => [("show", showConfiguration), ("init", createConfiguration)]
  | resolve | checkTables | showConfiguration | createConfiguration => []

/-- Whether a level takes another path after `count` of them. -/
def Level.takesPath (count : Nat) : Level → Bool
  | checkTables => true
  | createConfiguration => count = 0
  | program | resolve | typeTables | configuration | showConfiguration => false

/-- What can be given to a command by name. -/
inductive Switch
  | configuration
  | profile
  | directory
  | strict
  | help
  deriving DecidableEq, Repr, Inhabited

/-- The name of an option behind two hyphens. -/
def Switch.name : Switch → String
  | configuration => "config"
  | profile => "profile"
  | directory => "output"
  | strict => "strict"
  | help => "help"

/-- The letter of an option behind one hyphen. -/
def Switch.letter? : Switch → Option Char
  | configuration => some 'c'
  | profile => some 'p'
  | directory => some 'o'
  | strict => none
  | help => some 'h'

def Switch.takesValue : Switch → Bool
  | configuration | profile | directory => true
  | strict | help => false

def Level.switches : Level → List Switch
  | resolve => [.configuration, .profile, .directory, .strict, .help]
  | program | typeTables | checkTables | configuration | showConfiguration | createConfiguration =>
    [.configuration, .help]

/-! ## The look of an argument -/

/-- An argument by its look. -/
inductive Argument
  | endOfOptions
  | long (name : String) (attached : Option String)
  | short (letter : Char) (attached : Option String)
  | word
  deriving DecidableEq, Repr, Inhabited

/-- What follows the letter of an option: its value, with or without an equals sign before it. -/
def attachedValue : List Char → Option String
  | [] => none
  | '=' :: value => some (String.ofList value)
  | value => some (String.ofList value)

/-- The name of a long option and the value behind its first equals sign. -/
def longArgument (cs : List Char) : Argument :=
  match cs.dropWhile (· ≠ '=') with
  | [] => .long (String.ofList cs) none
  | _ :: value => .long (String.ofList (cs.takeWhile (· ≠ '='))) (some (String.ofList value))

/-- The look of an argument; a hyphen alone is a word. -/
def Argument.ofText (text : String) : Argument :=
  match text.toList with
  | ['-', '-'] => .endOfOptions
  | '-' :: '-' :: cs => longArgument cs
  | '-' :: letter :: cs => .short letter (attachedValue cs)
  | _ => .word

/-- The option of a level that an argument gives, and the value attached to it. -/
def Level.switch? (level : Level) : Argument → Option (Switch × Option String)
  | .long name attached => (level.switches.find? (·.name = name)).map (·, attached)
  | .short letter attached => (level.switches.find? (·.letter? = some letter)).map (·, attached)
  | .endOfOptions | .word => none

/-! ## Reading -/

/-- What has been given so far; `switches` are the options given to the level itself. -/
structure Given where
  switches : List Switch := []
  configuration : Option Path := none
  profiles : List String := []
  directory : Option Path := none
  strict : Bool := false
  paths : List Path := []
  deriving DecidableEq, Repr, Inhabited

/-- A path out of an argument, which must not be empty. -/
def pathArgument (text : String) : Except Refusal Path :=
  if text = "" then .error .usage else .ok ⟨text⟩

/-- Takes an option with its value; an option without one has the empty text. -/
def Given.take (given : Given) (switch : Switch) (value : String) : Except Refusal Given :=
  if switch ≠ .profile ∧ switch ∈ given.switches then .error .usage
  else
    let given := { given with switches := switch :: given.switches }
    match switch with
    | .configuration => do return { given with configuration := some (← pathArgument value) }
    | .profile => .ok { given with profiles := given.profiles ++ [value] }
    | .directory => do return { given with directory := some (← pathArgument value) }
    | .strict => .ok { given with strict := true }
    | .help => .error .help

/-- Takes a path, if the level has use for one more. -/
def Given.takePath (level : Level) (given : Given) (text : String) : Except Refusal Given := do
  if level.takesPath given.paths.length then
    return { given with paths := given.paths ++ [← pathArgument text] }
  else throw .usage

/-- Follows the names of commands whose help is asked for. -/
def followHelp : Level → List String → Refusal
  | _, [] => .help
  | level, name :: names =>
    match level.commands.lookup name with
    | some below => followHelp below names
    | none => .usage

/-- Reads arguments from left to right; the name of a command starts a level of its own. -/
def scan : Level → Given → List String → Except Refusal (Level × Given)
  | level, given, [] => .ok (level, given)
  | level, given, text :: rest =>
    match level.commands.lookup text with
    | some below => scan below { given with switches := [] } rest
    | none =>
      if text = "help" ∧ level.commands ≠ [] then .error (followHelp level rest)
      else match Argument.ofText text with
        | .endOfOptions => (rest.foldlM (Given.takePath level) given).map (level, ·)
        | .word => do scan level (← given.takePath level text) rest
        | argument =>
          match level.switch? argument with
          | none => .error .usage
          | some (switch, some value) =>
            if switch.takesValue then do scan level (← given.take switch value) rest
            else .error .usage
          | some (switch, none) =>
            if switch.takesValue then
              match rest with
              | [] => .error .usage
              | value :: rest =>
                if Argument.ofText value = .word then do
                  scan level (← given.take switch value) rest
                else .error .usage
            else do scan level (← given.take switch "") rest

def Given.request? (given : Given) : Level → Option Request
  | .resolve => some (.runProfiles given.profiles given.directory given.strict)
  | .checkTables => if given.paths = [] then none else some (.checkTables given.paths)
  | .showConfiguration => some .showConfiguration
  | .createConfiguration => some (.createConfiguration (given.paths.head?.getD ⟨"bind.toml"⟩))
  | .program | .typeTables | .configuration => none

def Invocation.ofArguments (arguments : List String) : Except Refusal Invocation := do
  let (level, given) ← scan .program {} arguments
  match given.request? level with
  | some request => return ⟨given.configuration, request⟩
  | none => throw .usage

example : (Invocation.ofArguments ["-c", "a.toml", "resolve", "-pes", "--profile=core"]).toOption
    = some ⟨some ⟨"a.toml"⟩, .runProfiles ["es", "core"] none false⟩ := by decide +kernel
example : (Invocation.ofArguments ["config", "init", "--", "-x"]).toOption
    = some ⟨none, .createConfiguration ⟨"-x"⟩⟩ := by decide +kernel
example : (Invocation.ofArguments ["typemap", "check"]).toOption = none := by decide +kernel
example : (Invocation.ofArguments ["resolve", "-o", "-x"]).toOption = none := by decide +kernel

end ApiProfile.CommandLine
