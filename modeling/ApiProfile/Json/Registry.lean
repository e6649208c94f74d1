import ApiProfile.Json.Value
import ApiProfile.Registry.Basic
/-!
# Registries as JSON

The written form of registries and of all they hold, and its reader. Missing groups and digests are
left out, sets are written in order, and versions are written as text.
-/

namespace ApiProfile

open Json

/-! ## Versions and types -/

def Version.toJson (v : Version) : Json :=
  string v.render

def Version.ofJson? (j : Json) : Option Version :=
  j.string?.bind fun text => (Version.parse text).toOption

def CType.toJson (type : CType) : Json :=
  object [("base_name", string type.base), ("depth", integer type.depth.toNat)]

def CType.ofJson? (j : Json) : Option CType := do
  let members ← j.record? ["base_name", "depth"]
  return ⟨← required? members "base_name" string?, ← required? members "depth" uint32?⟩

def GroupedType.toJson (grouped : GroupedType) : Json :=
  object (("descriptor", grouped.type.toJson) :: optionalMember "group" string grouped.group)

def GroupedType.ofJson? (j : Json) : Option GroupedType := do
  let members ← j.record? ["descriptor", "group"]
  return ⟨← required? members "descriptor" CType.ofJson?, ← optional? members "group" string?⟩

/-! ## Entries of a registry -/

def Constant.toJson (c : Constant) : Json :=
  object [("name", string c.name), ("value", integer c.value.toInt)]

def Constant.ofJson? (j : Json) : Option Constant := do
  let members ← j.record? ["name", "value"]
  return ⟨← required? members "name" string?, ← required? members "value" int64?⟩

def Group.toJson (g : Group) : Json :=
  object [("name", string g.name), ("members", array (g.members.names.map string))]

def Group.ofJson? (j : Json) : Option Group := do
  let members ← j.record? ["name", "members"]
  return ⟨← required? members "name" string?,
    .ofList (← required? members "members" (list? string?))⟩

def DeclaredType.toJson (type : DeclaredType) : Json :=
  object (("text", string type.text) :: optionalMember "group" string type.group)

def DeclaredType.ofJson? (j : Json) : Option DeclaredType := do
  let members ← j.record? ["text", "group"]
  return ⟨← required? members "text" string?, ← optional? members "group" string?⟩

def DeclaredParameter.toJson (p : DeclaredParameter) : Json :=
  object [("name", string p.name), ("ty", p.type.toJson)]

def DeclaredParameter.ofJson? (j : Json) : Option DeclaredParameter := do
  let members ← j.record? ["name", "ty"]
  return ⟨← required? members "name" string?, ← required? members "ty" DeclaredType.ofJson?⟩

def Command.toJson (f : Command) : Json :=
  object [("name", string f.name), ("return_type", f.result.toJson),
    ("parameters", array (f.parameters.map (·.toJson)))]

def Command.ofJson? (j : Json) : Option Command := do
  let members ← j.record? ["name", "return_type", "parameters"]
  return ⟨← required? members "name" string?, ← required? members "return_type" DeclaredType.ofJson?,
    ← required? members "parameters" (list? DeclaredParameter.ofJson?)⟩

/-! ## Features -/

def EntryKind.text : EntryKind → String
  | constant => "enum"
  | command => "function"

def EntryKind.tags : List (String × EntryKind) :=
  [("enum", constant), ("function", command)]

def Mention.toJson (m : Mention) : Json :=
  object [("name", string m.name), ("kind", string m.kind.text)]

def Mention.ofJson? (j : Json) : Option Mention := do
  let members ← j.record? ["name", "kind"]
  return ⟨← required? members "name" string?, ← required? members "kind" (tag? EntryKind.tags)⟩

def Feature.toJson (f : Feature) : Json :=
  object [("version", f.version.toJson), ("additions", array (f.additions.map (·.toJson))),
    ("removals", array (f.removals.map (·.toJson)))]

def Feature.ofJson? (j : Json) : Option Feature := do
  let members ← j.record? ["version", "additions", "removals"]
  return ⟨← required? members "version" Version.ofJson?,
    ← required? members "additions" (list? Mention.ofJson?),
    ← required? members "removals" (list? Mention.ofJson?)⟩

/-! ## Registries -/

namespace Registry

def toJson (r : Registry) : Json :=
  object ([("enums", ofTable Constant.toJson r.constants), ("groups", ofTable Group.toJson r.groups),
    ("functions", ofTable Command.toJson r.commands), ("features", array (r.features.map (·.toJson)))]
    ++ optionalMember "source_checksum" (fun digest => string digest.hex) r.digest)

def ofJson? (j : Json) : Option Registry := do
  let members ← j.record? ["enums", "groups", "functions", "features", "source_checksum"]
  let constants ← required? members "enums" (table? Constant.ofJson?)
  let groups ← required? members "groups" (table? Group.ofJson?)
  let commands ← required? members "functions" (table? Command.ofJson?)
  let features ← required? members "features" (list? Feature.ofJson?)
  let digest ← optional? members "source_checksum" string?
  return ⟨constants, groups, commands, features, digest.map Digest.mk⟩

end Registry
end ApiProfile
