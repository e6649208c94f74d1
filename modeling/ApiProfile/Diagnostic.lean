import ApiProfile.Version
/-!
# Diagnostics

Findings that do not make a profile fail. A type without an entry in the type tables is a warning and
is recorded once, with all its uses; a dangling reference and a dropped group are for information and
are recorded each time.
-/

namespace ApiProfile

inductive DiagnosticCode
  | unmappedType
  | danglingReference
  | droppedGroup
  deriving DecidableEq, Repr, Inhabited

/-- How much a finding matters. -/
inductive Severity
  | info
  | warning
  deriving DecidableEq, Repr, Inhabited

/-- A finding about a type, a constant, a command or a group. -/
structure Diagnostic where
  subject : String
  code : DiagnosticCode
  message : String
  context : List String
  deriving DecidableEq, Repr, Inhabited

/-- Findings in the order in which they were made. -/
structure Diagnostics where
  items : List Diagnostic
  deriving DecidableEq, Repr, Inhabited

def DiagnosticCode.text : DiagnosticCode → String
  | unmappedType => "W001"
  | danglingReference => "I001"
  | droppedGroup => "I002"

def DiagnosticCode.severity : DiagnosticCode → Severity
  | unmappedType => .warning
  | danglingReference | droppedGroup => .info

def Severity.text : Severity → String
  | info => "info"
  | warning => "warning"

namespace Diagnostic

def severity (d : Diagnostic) : Severity :=
  d.code.severity

/-- The finding on one line, and each piece of context on a line of its own. -/
def render (d : Diagnostic) : String :=
  "[" ++ d.code.text ++ "] " ++ d.severity.text ++ ": " ++ d.message ++ " (" ++ d.subject ++ ")"
    ++ String.join (d.context.map ("\n  - " ++ ·))

/-- A finding about a type that no table has, with its first use. -/
def unmappedType (name usedBy : String) : Diagnostic :=
  ⟨name, .unmappedType, "Unable to map type '" ++ name ++ "' to a low-level type",
    ["used by " ++ usedBy]⟩

/-- A finding about a name that a feature mentions and the registry does not declare. -/
def danglingReference (name version : String) : Diagnostic :=
  ⟨name, .danglingReference,
    "Feature " ++ version ++ " references '" ++ name ++ "', which the registry does not declare", []⟩

/-- A finding about a group that lost all its members. -/
def droppedGroup (name : String) : Diagnostic :=
  ⟨name, .droppedGroup, "Group '" ++ name ++ "' has no surviving members", []⟩

end Diagnostic

namespace Diagnostics

def empty : Diagnostics := ⟨[]⟩

def push (ds : Diagnostics) (d : Diagnostic) : Diagnostics :=
  ⟨ds.items ++ [d]⟩

def extend (ds more : Diagnostics) : Diagnostics :=
  ⟨ds.items ++ more.items⟩

/-- Adds a use to the finding about a type, or that finding if there is none yet. -/
def noteUse (name usedBy : String) : List Diagnostic → List Diagnostic
  | [] => [.unmappedType name usedBy]
  | d :: ds =>
    if d.code = .unmappedType ∧ d.subject = name then
      { d with context := d.context ++ ["used by " ++ usedBy] } :: ds
    else d :: noteUse name usedBy ds

def unmappedType (ds : Diagnostics) (name usedBy : String) : Diagnostics :=
  ⟨noteUse name usedBy ds.items⟩

def withCode (ds : Diagnostics) (code : DiagnosticCode) : List Diagnostic :=
  ds.items.filter (·.code = code)

def warnings (ds : Diagnostics) : List Diagnostic :=
  ds.items.filter (·.severity = .warning)

/-- Every finding, each ended by a line end. -/
def render (ds : Diagnostics) : String :=
  String.join (ds.items.map (·.render ++ "\n"))

end Diagnostics
end ApiProfile
