import ApiProfile.Json.Profile
import ApiProfile.Profile.Run
import ApiProfile.Toml.Writer
/-!
# Configurations

A configuration says where sources are and models go, what to do about types that no table has, and
which profiles there are. Every setting has a default but a profile's name and API. Paths of sources
are seen from the root directory of the input.
-/

namespace ApiProfile

/-- How models are written. -/
inductive OutputFormat
  | pretty
  | compact
  deriving DecidableEq, Repr, Inhabited

/-- Where sources are: the directory that paths are seen from, and the registry of profiles that name
none. -/
structure InputSettings where
  root : Path := ⟨"."⟩
  registry : Path := ⟨"gl.xml"⟩
  deriving DecidableEq, Repr, Inhabited

/-- Where models go, and how they are written. -/
structure OutputSettings where
  directory : Path := ⟨"generated"⟩
  format : OutputFormat := .pretty
  deriving DecidableEq, Repr, Inhabited

/-- A profile as it is configured. -/
structure ProfileSettings where
  name : String
  api : String
  profile : Option String := none
  maxVersion : Option Version := none
  registry : Option Path := none
  typeTables : List Path := [⟨"gl.tm"⟩]
  deriving DecidableEq, Repr, Inhabited

/-- The profiles that there are when none are configured. -/
def ProfileSettings.defaults : List ProfileSettings :=
  [{ name := "gl-compatibility", api := "gl", profile := some "compatibility" },
    { name := "gl-core", api := "gl", profile := some "core" }, { name := "gles2", api := "gles2" }]

structure Configuration where
  input : InputSettings := {}
  output : OutputSettings := {}
  unmapped : UnmappedPolicy := .lenient
  profiles : List ProfileSettings := ProfileSettings.defaults
  deriving DecidableEq, Repr, Inhabited

def OutputFormat.text : OutputFormat → String
  | pretty => "pretty"
  | compact => "compact"

def OutputFormat.tags : List (String × OutputFormat) :=
  [("pretty", pretty), ("compact", compact)]

namespace Configuration

/-- A path of a source, seen from the root directory of the input. -/
def inputPath (c : Configuration) (path : Path) : Path :=
  c.input.root.join path

def profile? (c : Configuration) (name : String) : Option ProfileSettings :=
  c.profiles.find? (·.name = name)

def resolveProfile (c : Configuration) (p : ProfileSettings) : Profile where
  name := p.name
  selection := ⟨p.api, p.profile⟩
  maxVersion := p.maxVersion
  registry := c.inputPath (p.registry.getD c.input.registry)
  typeTables := p.typeTables.map c.inputPath
  unmapped := c.unmapped

def resolvedProfiles (c : Configuration) : List Profile :=
  c.profiles.map c.resolveProfile

/-! ## Writing -/

def optionalSetting {α : Type} (name : String) (text : α → String) :
    Option α → List (String × Toml.Written)
  | some value => [(name, .text (text value))]
  | none => []

def profileSection (p : ProfileSettings) : Toml.Section where
  title := .item "profiles"
  settings := [("name", .text p.name), ("api", .text p.api)]
    ++ optionalSetting "profile" id p.profile
    ++ optionalSetting "max_version" Version.render p.maxVersion
    ++ optionalSetting "registry" Path.text p.registry
    ++ [("typemaps", .texts (p.typeTables.map (·.text)))]

/-- The sections of a configuration file. An empty list of profiles is a setting of the file, and stands
before the tables. -/
def sections (c : Configuration) : List Toml.Section :=
  (if c.profiles = [] then [⟨.none, [("profiles", .texts [])]⟩] else [])
    ++ [⟨.table "input", [("root", .text c.input.root.text),
        ("registry", .text c.input.registry.text)]⟩,
      ⟨.table "output", [("dir", .text c.output.directory.text),
        ("format", .text c.output.format.text)]⟩,
      ⟨.table "mapping", [("unmapped", .text c.unmapped.text)]⟩]
    ++ c.profiles.map profileSection

def render (c : Configuration) : String :=
  Toml.render c.sections

end Configuration
end ApiProfile
