import ApiProfile.Registry.Basic
import ApiProfile.Text.Word
/-!
# Signatures

A signature is a command with its types read: each parameter has a base name, a depth of
indirection and a flow. A parameter whose text has the whole word `const` flows out, every other one
flows in.
-/

namespace ApiProfile

/-- Which way a parameter's data go. -/
inductive Flow
  | input
  | output
  deriving DecidableEq, Repr, Inhabited

/-- A parameter with its type read. -/
structure Parameter where
  name : String
  type : GroupedType
  flow : Flow
  deriving DecidableEq, Repr, Inhabited

/-- A command with its types read; parameters are in call order. -/
structure Signature where
  name : String
  result : GroupedType
  parameters : List Parameter
  deriving DecidableEq, Repr, Inhabited

def Flow.text : Flow → String
  | input => "in"
  | output => "out"

/-- The direction of a parameter with this type text. -/
def Flow.ofText (text : String) : Flow :=
  if Text.hasWord "const".toList text.toList then output else input

/-- Direction, type and name. -/
def Parameter.render (p : Parameter) : String :=
  p.flow.text ++ " " ++ p.type.render ++ " " ++ p.name

namespace Signature

def parameter? (s : Signature) (name : String) : Option Parameter :=
  s.parameters.find? (·.name = name)

/-- The result, the name, and the parameters in brackets. -/
def render (s : Signature) : String :=
  s.result.render ++ " " ++ s.name ++ "("
    ++ String.intercalate ", " (s.parameters.map Parameter.render) ++ ")"

end Signature

def DeclaredType.read (type : DeclaredType) : Except Failure GroupedType := do
  return ⟨← CType.parse type.text, type.group⟩

def DeclaredParameter.read (p : DeclaredParameter) : Except Failure Parameter := do
  return ⟨p.name, ← p.type.read, Flow.ofText p.type.text⟩

/-- The signature of a command; parameters are read before the result. -/
def Command.signature (command : Command) : Except Failure Signature := do
  let parameters ← command.parameters.mapM (·.read)
  return ⟨command.name, ← command.result.read, parameters⟩

/-- The signatures of all commands, in the order of their keys. -/
def Registry.signatures (r : Registry) : Except Failure (List Signature) :=
  r.commands.values.mapM (·.signature)

end ApiProfile
