import ApiProfile.CType
import ApiProfile.Digest
import ApiProfile.Table
import ApiProfile.Version
/-!
# Registries

A registry holds what one document declares for one API: named constants, groups of constants,
commands, and features. A feature is a version with the names that it adds and those that it
removes. A registry is built once and then replaced, never changed, by each pass over it.
-/

namespace ApiProfile

/-- A named constant of 64 bits. -/
structure Constant where
  name : String
  value : Int64
  deriving DecidableEq, Repr, Inhabited

structure Group where
  name : String
  members : NameSet
  deriving DecidableEq, Inhabited

/-- The text of a type as a document has it, and the group that its values are drawn from. -/
structure DeclaredType where
  text : String
  group : Option String
  deriving DecidableEq, Repr, Inhabited

/-- A parameter as a document has it. -/
structure DeclaredParameter where
  name : String
  type : DeclaredType
  deriving DecidableEq, Repr, Inhabited

/-- A command with its result type and its parameters in call order. -/
structure Command where
  name : String
  result : DeclaredType
  parameters : List DeclaredParameter
  deriving DecidableEq, Repr, Inhabited

/-- What a feature may add or remove. -/
inductive EntryKind
  | constant
  | command
  deriving DecidableEq, Repr, Inhabited

/-- A name in a feature, with the kind of entry that it stands for. -/
structure Mention where
  name : String
  kind : EntryKind
  deriving DecidableEq, Repr, Inhabited

/-- The names that a version adds and those that it removes. -/
structure Feature where
  version : Version
  additions : List Mention
  removals : List Mention
  deriving DecidableEq, Repr, Inhabited

/-- The declarations of a document, and the digest of that document if it is known. -/
structure Registry where
  constants : Table Constant
  groups : Table Group
  commands : Table Command
  features : List Feature
  digest : Option Digest
  deriving DecidableEq, Inhabited

/-- The group in brackets, then the text of the type. -/
def DeclaredType.render (type : DeclaredType) : String :=
  withGroup type.group type.text

/-- The result type, then the name. -/
def Command.render (command : Command) : String :=
  command.result.render ++ " " ++ command.name

/-- The version, with how many names it adds and removes. -/
def Feature.render (feature : Feature) : String :=
  feature.version.render ++ " (+" ++ feature.additions.length.repr ++ " -"
    ++ feature.removals.length.repr ++ ")"

namespace Registry

/-- The registry of lists of entries, of which later ones replace earlier ones with the same name. -/
def ofEntries (constants : List Constant) (groups : List Group) (commands : List Command)
    (features : List Feature) : Registry where
  constants := .ofList (constants.map fun c => (c.name, c))
  groups := .ofList (groups.map fun g => (g.name, g))
  commands := .ofList (commands.map fun f => (f.name, f))
  features := features
  digest := none

/-- Whether the registry has an entry of the kind and name that a feature mentions. -/
def declares (r : Registry) (mention : Mention) : Bool :=
  match mention.kind with
  | .constant => r.constants.contains mention.name
  | .command => r.commands.contains mention.name

def latestVersion? (r : Registry) : Option Version :=
  Version.latest? (r.features.map (·.version))

end Registry
end ApiProfile
