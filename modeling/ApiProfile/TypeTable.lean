import ApiProfile.CType
import ApiProfile.Table
import ApiProfile.Text.Basic
/-!
# Type tables

A type table gives types of an API the types that represent them, one pair to a line with a comma
between; `#` starts a comment. The left type of a pair must not be indirected: such rows are passed
over. A name may stand on the left once. Tables are chained by `TypeTable.bake`, one after another by
`TypeTable.chain`.
-/

namespace ApiProfile

/-- The representation of each type name. -/
structure TypeTable where
  entries : Table CType
  deriving DecidableEq, Inhabited

namespace TypeTable

def empty : TypeTable := ⟨.empty⟩

/-- The table of a list of pairs, of which later ones replace earlier ones with the same name. -/
def ofList (pairs : List (String × CType)) : TypeTable :=
  ⟨.ofList pairs⟩

/-! ## Reading -/

/-- The representation of a name, and the line it was read from. -/
structure Row where
  target : CType
  line : Nat
  deriving DecidableEq, Repr, Inhabited

/-- The pieces of a row between commas: empty ones do not count, blank ones do. -/
def columns (row : List Char) : List (List Char) :=
  ((Text.splitBy (· == ',') row).filter (· ≠ [])).map Text.trim

/-- Reads the type in a column; a fault carries the line. -/
def parseColumn (line : Nat) (column : List Char) : Except Failure CType :=
  match CType.parse (String.ofList column) with
  | .ok type => .ok type
  | .error fault => .error (.atLine line fault)

/-- Takes in the columns of a row. -/
def addRow (rows : Table Row) (line : Nat) : List (List Char) → Except Failure (Table Row)
  | [left, right] => do
    let source ← parseColumn line left
    if source.depth ≠ 0 then
      return rows
    let target ← parseColumn line right
    match rows.get? source.base with
    | some first => .error (.duplicateRow source.base line first.line)
    | none => return rows.insert source.base ⟨target, line⟩
  | found => .error (.malformedRow line found.length)

/-- Takes in lines, the first of which has the given number. -/
def addLines : Table Row → (line : Nat) → List (List Char) → Except Failure (Table Row)
  | rows, _, [] => .ok rows
  | rows, line, text :: more =>
    let row := text.takeWhile (· ≠ '#')
    if Text.trim row = [] then addLines rows (line + 1) more
    else match addRow rows line (columns row) with
      | .ok rows => addLines rows (line + 1) more
      | .error fault => .error fault

def parse (text : String) : Except Failure TypeTable :=
  match addLines .empty 1 (Text.lines text.toList) with
  | .ok rows => .ok ⟨rows.map (·.target)⟩
  | .error fault => .error fault

/-! ## Mapping -/

/-- The representation of a type: that of its base name, under the indirections of both. -/
def map? (t : TypeTable) (type : CType) : Option CType :=
  (t.entries.get? type.base).map (·.indirected type.depth)

/-- Chains two tables: what the first one maps to is mapped by the second, and the names that only the
second one has are carried over. -/
def bake (t next : TypeTable) : TypeTable :=
  next.entries.entries.foldl (fun baked (name, type) => ⟨baked.entries.insertNew name type⟩)
    ⟨t.entries.map fun type => (next.map? type).getD type⟩

/-- The chain of tables, in order; no tables give the empty one. -/
def chain : List TypeTable → TypeTable
  | [] => empty
  | first :: more => more.foldl bake first

end TypeTable
end ApiProfile
