import ApiProfile.Markup.Document
import ApiProfile.Registry.Basic
import ApiProfile.Text.Basic
/-!
# Registry documents

Reads a registry from a document for one API and one of its sub-profiles. Every declared constant,
group and command is read, whatever is selected; features of other APIs and blocks that the selection
does not admit are passed over unread. The parts are read in the order constants, groups, commands,
features, and the first fault met in that order is reported.
-/

namespace ApiProfile

open Markup (Element)

/-- The API, and the sub-profile of it, that a registry is read for. -/
structure Selection where
  api : String
  profile : Option String
  deriving DecidableEq, Repr, Inhabited

/-- Whether an element is for a selection: an `api` it names must be the selected one, and a `profile`
it names must be the selected sub-profile. -/
def Selection.admits (s : Selection) (e : Element) : Bool :=
  ((e.attribute? "api").all fun api => api = s.api)
    && ((e.attribute? "profile").all fun profile => s.profile = some profile)

/-- Reads the value of a constant: hexadecimal after `0x`, else decimal. A number of 64 bits that is
too large for a signed one stands for the signed number with the same bits. -/
def Constant.parseValue (name text : String) : Except Failure Int64 :=
  let digits := Text.trim text.toList
  let value? := match digits with
    | '0' :: 'x' :: hex => (Text.uint64? 16 hex).map UInt64.toInt64
    | _ => (Text.int64? digits).or ((Text.uint64? 10 digits).map UInt64.toInt64)
  match value? with
  | some value => .ok value
  | none => .error (.invalidConstantValue name text)

namespace Registry

/-! ## Constants -/

/-- A declaration of a constant; one for all APIs is a default. -/
structure Declaration where
  constant : Constant
  isDefault : Bool
  deriving DecidableEq, Repr, Inhabited

def readDeclaration (e : Element) : Except Failure Declaration := do
  let name ← e.requiredAttribute "name"
  let value ← Constant.parseValue name (← e.requiredAttribute "value")
  return ⟨⟨name, value⟩, (e.attribute? "api").isNone⟩

/-- Records a declaration: the first one of a name is kept, but a default takes the place of one for
a single API. -/
def record (t : Table Declaration) (d : Declaration) : Table Declaration :=
  t.place d.constant.name fun
    | some kept => if d.isDefault && !kept.isDefault then d else kept
    | none => d

def readConstants (root : Element) : Except Failure (Table Constant) := do
  let declarations ←
    ((root.elementsNamed "enums").flatMap (·.elementsNamed "enum")).mapM readDeclaration
  return (declarations.foldl record .empty).map (·.constant)

/-! ## Groups and commands -/

/-- Reads entries whose names must differ; a repeated name is reported once its entry is read. -/
def readUnique {α : Type} (read : Element → Except Failure α) (nameOf : α → String)
    (repeated : String → Failure) : Table α → List Element → Except Failure (Table α)
  | t, [] => .ok t
  | t, e :: es =>
    match read e with
    | .error fault => .error fault
    | .ok entry =>
      if t.contains (nameOf entry) then .error (repeated (nameOf entry))
      else readUnique read nameOf repeated (t.insert (nameOf entry) entry) es

/-- Reads a group, whose members are named by its child elements. -/
def readGroup (e : Element) : Except Failure Group := do
  let name ← e.requiredAttribute "name"
  let members ← e.elements.mapM (·.requiredAttribute "name")
  return ⟨name, .ofList members⟩

def readGroups (root : Element) : Except Failure (Table Group) :=
  readUnique readGroup (·.name) .duplicateGroup .empty
    ((root.elementsNamed "groups").flatMap (·.elementsNamed "group"))

/-- The type text of a declaration, which is what is left when the last occurrence of the declared
name is cut out of it. What stands behind the name, such as an array annotation, belongs to the
type. -/
def typeText (name text : String) : String :=
  match Text.cutLast name.toList text.toList with
  | some (before, after) =>
    match Text.trim after with
    | [] => String.ofList (Text.trim before)
    | suffix => String.ofList (Text.trim before ++ ' ' :: suffix)
  | none => String.ofList (Text.trim text.toList)

/-- Reads the name in an element that declares one, and the type around the name. -/
def readTyped (e : Element) : Except Failure (String × DeclaredType) := do
  let name := (← e.requiredChild "name").text
  return (name, ⟨typeText name e.text, e.attribute? "group"⟩)

def readParameter (e : Element) : Except Failure DeclaredParameter := do
  let (name, type) ← readTyped e
  return ⟨name, type⟩

/-- Reads a command: its prototype declares its name and result. -/
def readCommand (e : Element) : Except Failure Command := do
  let (name, result) ← readTyped (← e.requiredChild "proto")
  let parameters ← (e.elementsNamed "param").mapM readParameter
  return ⟨name, result, parameters⟩

def readCommands (root : Element) : Except Failure (Table Command) :=
  readUnique readCommand (·.name) .duplicateCommand .empty
    ((root.elementsNamed "commands").flatMap (·.elementsNamed "command"))

/-! ## Features -/

/-- Reads a name in a feature; types are left out. -/
def readMention (e : Element) : Except Failure (Option Mention) := do
  let name ← e.requiredAttribute "name"
  match e.name with
  | "type" => return none
  | "enum" => return some ⟨name, .constant⟩
  | "command" => return some ⟨name, .command⟩
  | other => .error (.unknownFeatureElement other)

/-- The names in those blocks of a feature that the selection admits. -/
def readMentions (selection : Selection) (feature : Element) (block : String) :
    Except Failure (List Mention) := do
  let mentions ←
    (((feature.elementsNamed block).filter selection.admits).flatMap (·.elements)).mapM readMention
  return mentions.filterMap id

/-- Reads a feature; features of other APIs are left out. -/
def readFeature (selection : Selection) (e : Element) : Except Failure (Option Feature) := do
  if (← e.requiredAttribute "api") ≠ selection.api then
    return none
  let version ← Version.parse (← e.requiredAttribute "number")
  let additions ← readMentions selection e "require"
  let removals ← readMentions selection e "remove"
  return some ⟨version, additions, removals⟩

/-- The features of a document for a selection, in document order. -/
def readFeatures (selection : Selection) (root : Element) : Except Failure (List Feature) := do
  let features ← (root.elementsNamed "feature").mapM (readFeature selection)
  return features.filterMap id

/-! ## The whole document -/

/-- The registry of the element at the top of a document. -/
def ofRoot (selection : Selection) (root : Element) : Except Failure Registry := do
  let constants ← readConstants root
  let groups ← readGroups root
  let commands ← readCommands root
  let features ← readFeatures selection root
  return ⟨constants, groups, commands, features, none⟩

/-- The registry of a document, with the digest of its text. -/
def ofDocument (selection : Selection) (document : String) : Except Failure Registry := do
  let registry ← ofRoot selection (← Element.ofDocument document)
  return { registry with digest := some (.ofText document) }

end Registry
end ApiProfile
