import ApiProfile.Configuration.Basic
/-!
# Configurations as JSON

The written form of configurations as JSON values, and its reader. A member that is left out has its
default.
-/

namespace ApiProfile

open Json

def Path.toJson (p : Path) : Json :=
  string p.text

def Path.ofJson? (j : Json) : Option Path :=
  j.string?.map Path.mk

def InputSettings.toJson (i : InputSettings) : Json :=
  object [("root", i.root.toJson), ("registry", i.registry.toJson)]

def InputSettings.ofJson? (j : Json) : Option InputSettings := do
  let members ← j.record? ["root", "registry"]
  let standard : InputSettings := {}
  return ⟨← defaulted? members "root" standard.root Path.ofJson?,
    ← defaulted? members "registry" standard.registry Path.ofJson?⟩

def OutputSettings.toJson (o : OutputSettings) : Json :=
  object [("dir", o.directory.toJson), ("format", string o.format.text)]

def OutputSettings.ofJson? (j : Json) : Option OutputSettings := do
  let members ← j.record? ["dir", "format"]
  let standard : OutputSettings := {}
  return ⟨← defaulted? members "dir" standard.directory Path.ofJson?,
    ← defaulted? members "format" standard.format (tag? OutputFormat.tags)⟩

def ProfileSettings.toJson (p : ProfileSettings) : Json :=
  object ([("name", string p.name), ("api", string p.api)]
    ++ optionalMember "profile" string p.profile
    ++ optionalMember "max_version" Version.toJson p.maxVersion
    ++ optionalMember "registry" Path.toJson p.registry
    ++ [("typemaps", array (p.typeTables.map (·.toJson)))])

def ProfileSettings.ofJson? (j : Json) : Option ProfileSettings := do
  let members ← j.record? ["name", "api", "profile", "max_version", "registry", "typemaps"]
  let name ← required? members "name" string?
  let api ← required? members "api" string?
  let standard : ProfileSettings := { name, api }
  return ⟨name, api, ← optional? members "profile" string?,
    ← optional? members "max_version" Version.ofJson?, ← optional? members "registry" Path.ofJson?,
    ← defaulted? members "typemaps" standard.typeTables (list? Path.ofJson?)⟩

/-- The settings for mapping, which are the policy alone. -/
def UnmappedPolicy.settingsOfJson? (j : Json) : Option UnmappedPolicy := do
  let members ← j.record? ["unmapped"]
  defaulted? members "unmapped" .lenient (tag? UnmappedPolicy.tags)

namespace Configuration

def toJson (c : Configuration) : Json :=
  object [("input", c.input.toJson), ("output", c.output.toJson),
    ("mapping", object [("unmapped", string c.unmapped.text)]),
    ("profiles", array (c.profiles.map (·.toJson)))]

def ofJson? (j : Json) : Option Configuration := do
  let members ← j.record? ["input", "output", "mapping", "profiles"]
  let standard : Configuration := {}
  return ⟨← defaulted? members "input" standard.input InputSettings.ofJson?,
    ← defaulted? members "output" standard.output OutputSettings.ofJson?,
    ← defaulted? members "mapping" standard.unmapped UnmappedPolicy.settingsOfJson?,
    ← defaulted? members "profiles" standard.profiles (list? ProfileSettings.ofJson?)⟩

end Configuration
end ApiProfile
