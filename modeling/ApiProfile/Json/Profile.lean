import ApiProfile.Json.Registry
import ApiProfile.Profile.Run
/-!
# Profile models as JSON

The written form of signatures and diagnostics, with its reader, and of the model of a profile, which generators
read. A diagnostic without context is written without that member.
-/

namespace ApiProfile

open Json

/-! ## Signatures and diagnostics -/

def Flow.tags : List (String × Flow) :=
  [("in", input), ("out", output)]

def Parameter.toJson (p : Parameter) : Json :=
  object [("name", string p.name), ("ty", p.type.toJson), ("flow", string p.flow.text)]

def Parameter.ofJson? (j : Json) : Option Parameter := do
  let members ← j.record? ["name", "ty", "flow"]
  return ⟨← required? members "name" string?, ← required? members "ty" GroupedType.ofJson?,
    ← required? members "flow" (tag? Flow.tags)⟩

def Signature.toJson (s : Signature) : Json :=
  object [("name", string s.name), ("return_type", s.result.toJson),
    ("parameters", array (s.parameters.map (·.toJson)))]

def Signature.ofJson? (j : Json) : Option Signature := do
  let members ← j.record? ["name", "return_type", "parameters"]
  return ⟨← required? members "name" string?, ← required? members "return_type" GroupedType.ofJson?,
    ← required? members "parameters" (list? Parameter.ofJson?)⟩

def DiagnosticCode.name : DiagnosticCode → String
  | unmappedType => "UnmappedType"
  | danglingReference => "DanglingReference"
  | droppedGroup => "DroppedGroup"

def DiagnosticCode.tags : List (String × DiagnosticCode) :=
  [("UnmappedType", unmappedType), ("DanglingReference", danglingReference),
    ("DroppedGroup", droppedGroup)]

def Diagnostic.toJson (d : Diagnostic) : Json :=
  object ([("subject", string d.subject), ("code", string d.code.name), ("message", string d.message)]
    ++ if d.context = [] then [] else [("context", array (d.context.map string))])

def Diagnostic.ofJson? (j : Json) : Option Diagnostic := do
  let members ← j.record? ["subject", "code", "message", "context"]
  return ⟨← required? members "subject" string?, ← required? members "code" (tag? DiagnosticCode.tags),
    ← required? members "message" string?, ← defaulted? members "context" [] (list? string?)⟩

def Diagnostics.toJson (ds : Diagnostics) : Json :=
  object [("items", array (ds.items.map (·.toJson)))]

def Diagnostics.ofJson? (j : Json) : Option Diagnostics := do
  let members ← j.record? ["items"]
  return ⟨← required? members "items" (list? Diagnostic.ofJson?)⟩

def UnmappedPolicy.text : UnmappedPolicy → String
  | lenient => "lenient"
  | strict => "strict"

def UnmappedPolicy.tags : List (String × UnmappedPolicy) :=
  [("lenient", lenient), ("strict", strict)]

/-! ## Models -/

def Selection.members (s : Selection) : List (String × Json) :=
  ("api", string s.api) :: optionalMember "profile" string s.profile

def ProfileModel.toJson (m : ProfileModel) : Json :=
  object (("name", string m.name) :: m.selection.members
    ++ optionalMember "max_version" Version.toJson m.maxVersion
    ++ [("registry", m.registry.toJson), ("functions", array (m.signatures.map (·.toJson))),
      ("diagnostics", m.diagnostics.toJson)])

end ApiProfile
