import ApiProfile.Toml.Quoted
import ApiProfile.Toml.Scalar
/-!
# Statements of a settings file

A TOML file is a list of statements, one to a line: a header starts a table or an item of a list of
tables, and an assignment gives a key a value. Keys are names with points between them. Inline tables
are read into assignments and put together by `tableOf?`, as files are.
-/

namespace ApiProfile.Toml

/-- A key: the names between its points. -/
abbrev Key := List String

/-- The text without the blanks it starts with, inside a line. -/
def skipSpace (cs : List Char) : List Char :=
  cs.dropWhile isInlineSpace

/-- What follows a comment that the text starts with; the line end stays. -/
def skipComment : List Char → List Char
  | '#' :: cs => cs.dropWhile isPlain
  | cs => cs

theorem length_skipSpace_le (cs : List Char) : (skipSpace cs).length ≤ cs.length :=
  (List.dropWhile_sublist _).length_le

theorem length_skipComment_le (cs : List Char) : (skipComment cs).length ≤ cs.length := by
  unfold skipComment
  split
  · exact Nat.le_succ_of_le (List.dropWhile_sublist _).length_le
  · exact Nat.le_refl _

/-- What follows the end of a line, after blanks and a comment. The end of the text ends a line. -/
def endLine? (cs : List Char) : Option (List Char) :=
  match skipComment (skipSpace cs) with
  | [] => some []
  | rest => lineEnd? rest

/-- What follows blanks, comments and line ends. -/
def skipLines (cs : List Char) : List Char :=
  match h : lineEnd? (skipComment (skipSpace cs)) with
  | some rest =>
    have : rest.length < cs.length :=
      Nat.lt_of_lt_of_le (length_lt_of_lineEnd? h)
        (Nat.le_trans (length_skipComment_le _) (length_skipSpace_le _))
    skipLines rest
  | none => skipComment (skipSpace cs)
  termination_by cs.length

/-! ## Keys -/

/-- A character that a name may have without quotes. -/
def isBareChar (c : Char) : Bool :=
  c.isAlphanum || c = '_' || c = '-'

/-- The name that a text starts with, and what follows it. -/
def name? (cs : List Char) : Option (String × List Char) :=
  match quotedLine? cs with
  | some (name, rest) => some (String.ofList name, rest)
  | none =>
    let bare := cs.takeWhile isBareChar
    if bare = [] then none else some (String.ofList bare, cs.dropWhile isBareChar)

/-- The key that a text starts with, with blanks around its points, and what follows it. A key with more
than `most` names is refused. -/
def keyWithin? : (most : Nat) → List Char → Option (Key × List Char)
  | 0, _ => none
  | most + 1, cs => do
    let (name, rest) ← name? (skipSpace cs)
    match skipSpace rest with
    | '.' :: more => (keyWithin? most more).map fun (names, rest) => (name :: names, rest)
    | rest => return ([name], rest)

/-- How deep a file may nest: the most names of a key, and the most lists and inline tables inside of each
other. -/
def deepest : Nat := 79

/-- The key that a text starts with, and what follows it. -/
def key? (cs : List Char) : Option (Key × List Char) :=
  keyWithin? deepest cs

/-! ## Tables -/

/-- What a key of a table under construction leads to: a value, a table, or a list of tables of which
the last one is under construction. A table is implicit if no header or value named it, and dotted if
the points of a key made it. -/
inductive Item
  | value (value : Toml)
  | table (implicit dotted : Bool) (entries : List (String × Item))
  | tables (earlier : List (List (String × Item))) (last : List (String × Item))
  deriving Inhabited

abbrev Entries := List (String × Item)

/-- Changes what a key leads to; there may be nothing before. -/
def alter? (key : String) (change : Option Item → Option Item) : Entries → Option Entries
  | [] => (change none).map fun item => [(key, item)]
  | (k, item) :: rest =>
    if k = key then (change (some item)).map fun item => (k, item) :: rest
    else (alter? key change rest).map fun rest => (k, item) :: rest

/-- Changes the entries of the table that a key leads to, and makes the tables on the way that are not
there. `change` is told whether that table is dotted. A dotted key does not lead through tables that
are not implicit. -/
def descend? (dottedKey : Bool) (change : (dotted : Bool) → Entries → Option Entries) :
    (dotted : Bool) → Key → Entries → Option Entries
  | dotted, [], entries => change dotted entries
  | _, name :: names, entries =>
    alter? name (fun
      | none => (descend? dottedKey change dottedKey names []).map (.table true dottedKey)
      | some (.value _) => none
      | some (.table implicit dotted inner) =>
        if dottedKey && !implicit then none
        else (descend? dottedKey change dotted names inner).map (.table implicit dotted)
      | some (.tables earlier last) =>
        (descend? dottedKey change false names last).map (.tables earlier)) entries

/-- Gives a key a value. The key must be new, and the points of a key must not lead into a table that
they did not make. -/
def assign? (key : Key) (value : Toml) (entries : Entries) : Option Entries :=
  match key.getLast? with
  | none => none
  | some name =>
    let path := key.dropLast
    descend? true (fun dotted entries =>
      if dotted = path.isEmpty then none
      else alter? name (fun old => if old.isSome then none else some (.value value)) entries)
      false path entries

mutual

def Item.finish : Item → Toml
  | .value value => value
  | .table _ _ entries => .table (finishEntries entries)
  | .tables earlier last => .array (finishTables earlier ++ [.table (finishEntries last)])

def finishEntries : List (String × Item) → List (String × Toml)
  | [] => []
  | (key, item) :: rest => (key, item.finish) :: finishEntries rest

def finishTables : List (List (String × Item)) → List Toml
  | [] => []
  | entries :: rest => .table (finishEntries entries) :: finishTables rest

end

def tableOf? (assignments : List (Key × Toml)) : Option Toml :=
  (assignments.foldlM (fun entries (key, value) => assign? key value entries) []).map
    fun entries => .table (finishEntries entries)

/-! ## Values -/

mutual

/-- The value that a text starts with, and what follows it. Lists and inline tables nest at most `depth`
times, and `fuel` bounds the number of steps. -/
def valueWith? : (fuel depth : Nat) → List Char → Option (Toml × List Char)
  | 0, _, _ => none
  | fuel + 1, depth, cs =>
    match cs, depth with
    | '"' :: _, _ | '\'' :: _, _ =>
      (quoted? cs).map fun (text, rest) => (string (String.ofList text), rest)
    | '[' :: _, 0 | '\x7b' :: _, 0 => none
    | '[' :: rest, depth + 1 =>
      (itemsWith? fuel depth rest).map fun (items, rest) => (array items, rest)
    | '\x7b' :: rest, depth + 1 =>
      match skipSpace rest with
      | '\x7d' :: rest => some (table [], rest)
      | rest => do
        let (assignments, rest) ← assignmentsWith? fuel depth rest
        return (← tableOf? assignments, rest)
    | _, _ => scalar? cs

/-- The items of a list up to its end, and what follows it. Blanks, comments and line ends may stand
around items, and a comma after the last one. -/
def itemsWith? : (fuel depth : Nat) → List Char → Option (List Toml × List Char)
  | 0, _, _ => none
  | fuel + 1, depth, cs =>
    match skipLines cs with
    | ']' :: rest => some ([], rest)
    | cs => do
      let (item, rest) ← valueWith? fuel depth cs
      match skipLines rest with
      | ',' :: rest =>
        let (items, rest) ← itemsWith? fuel depth rest
        return (item :: items, rest)
      | ']' :: rest => return ([item], rest)
      | _ => none

/-- The assignments of an inline table up to its end, and what follows it. -/
def assignmentsWith? : (fuel depth : Nat) → List Char → Option (List (Key × Toml) × List Char)
  | 0, _, _ => none
  | fuel + 1, depth, cs => do
    let (assignment, rest) ← assignmentWith? fuel depth cs
    match skipSpace rest with
    | ',' :: rest =>
      let (assignments, rest) ← assignmentsWith? fuel depth rest
      return (assignment :: assignments, rest)
    | '\x7d' :: rest => return ([assignment], rest)
    | _ => none

/-- The assignment that a text starts with, and what follows it. -/
def assignmentWith? : (fuel depth : Nat) → List Char → Option ((Key × Toml) × List Char)
  | 0, _, _ => none
  | fuel + 1, depth, cs => do
    let (key, rest) ← key? cs
    match rest with
    | '=' :: rest =>
      let (value, rest) ← valueWith? fuel depth (skipSpace rest)
      return ((key, value), rest)
    | _ => none

end

/-! ## Statements -/

inductive Statement
  | header (key : Key)
  | itemHeader (key : Key)
  | assignment (key : Key) (value : Toml)
  deriving Repr, BEq, Inhabited

/-- The statement that a text starts with, and what follows its line. -/
def statement? (cs : List Char) : Option (Statement × List Char) :=
  match cs with
  | '[' :: '[' :: rest => do
    let (key, rest) ← key? rest
    let rest ← match rest with
      | ']' :: ']' :: rest => endLine? rest
      | _ => none
    return (.itemHeader key, rest)
  | '[' :: rest => do
    let (key, rest) ← key? rest
    let rest ← match rest with
      | ']' :: rest => endLine? rest
      | _ => none
    return (.header key, rest)
  | _ => do
    let ((key, value), rest) ← assignmentWith? (4 * cs.length + 4) deepest cs
    return (.assignment key value, ← endLine? rest)

/-- The statements of a text. `fuel` bounds their number. -/
def statementsWith? : (fuel : Nat) → List Char → Option (List Statement)
  | fuel, cs =>
    match skipLines cs with
    | [] => some []
    | cs =>
      match fuel with
      | 0 => none
      | fuel + 1 => do
        let (statement, rest) ← statement? cs
        return statement :: (← statementsWith? fuel rest)

def statements? (cs : List Char) : Option (List Statement) :=
  statementsWith? cs.length cs

end ApiProfile.Toml
