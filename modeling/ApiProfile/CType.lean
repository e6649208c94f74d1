import ApiProfile.Failure
/-!
# Indirected types

The types of parameters and results are written as in C. Of such a text two things are kept: the
base name, which is its words without `const`, and the depth of indirection, one for each `*` and
one for an array annotation, however many dimensions that has.
-/

namespace ApiProfile

/-- A base name under a number of indirections. -/
structure CType where
  base : String
  depth : UInt32
  deriving DecidableEq, Repr, Inhabited

namespace CType

/-- The part of a type before its array annotation, and whether it has one: the annotation runs from
the first `[` to a `]` at the end. -/
def splitArray (text : List Char) : List Char × Bool :=
  if '[' ∈ text ∧ text.getLast? = some ']' then (text.takeWhile (· ≠ '['), true) else (text, false)

/-- Blanks and stars stand between the words of a type. -/
def separatesWords (c : Char) : Bool :=
  Text.isBlank c || c = '*'

/-- The words of a type that name its base. -/
def baseWords (body : List Char) : List (List Char) :=
  (Text.wordsBy separatesWords body).filter (· ≠ "const".toList)

def parse (text : String) : Except Failure CType :=
  let (body, isArray) := splitArray (Text.trim text.toList)
  match baseWords body with
  | [] => .error (.emptyType text)
  | words =>
    .ok ⟨String.ofList ([' '].intercalate words),
      UInt32.ofNat (body.count '*') + if isArray then 1 else 0⟩

/-- More levels of indirection on top of a type. -/
def indirected (type : CType) (levels : UInt32) : CType :=
  ⟨type.base, type.depth + levels⟩

/-- The base name with a star for each indirection. -/
def render (type : CType) : String :=
  String.ofList (type.base.toList ++ List.replicate type.depth.toNat '*')

end CType

/-- A type, with the group that its values are drawn from if it names one. -/
structure GroupedType where
  type : CType
  group : Option String
  deriving DecidableEq, Repr, Inhabited

/-- A text, with a group in brackets before it if there is one. -/
def withGroup (group : Option String) (text : String) : String :=
  match group with
  | some name => "(" ++ name ++ ") " ++ text
  | none => text

/-- The group in brackets, then the type. -/
def GroupedType.render (grouped : GroupedType) : String :=
  withGroup grouped.group grouped.type.render

end ApiProfile
