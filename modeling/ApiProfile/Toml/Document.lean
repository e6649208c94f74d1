import ApiProfile.Text.Basic
import ApiProfile.Toml.Statement
/-!
# Settings files

Reads a TOML file: its statements, one after the other, build one table. An assignment goes into the
table of the header before it. No table may be started twice, and no key may be given two values. A table whose first
key is `dateKey` stands for the date or time in the text under that key, and the rest of that table does not count.
-/

namespace ApiProfile.Toml

/-! ## Tables that stand for dates -/

/-- The key of a date or time. -/
def dateKey : String := "$__toml_private_datetime"

/-- The limits of dates and times in texts: an hour may be 24, and an offset may have more minutes than an
hour has. -/
def ClockLimits.wide : ClockLimits := ⟨24, 24, 99⟩

/-- The date or time that a text is, from its start to its end. -/
def dateOf? : Toml → Option Toml
  | string text =>
    match datetime? .wide text.toList with
    | some (text, []) => some (datetime (String.ofList text))
    | _ => none
  | _ => none

mutual

/-- The value with dates in the place of the tables that stand for them. A table that stands for a date
but has none is refused. -/
def withDates? : Toml → Option Toml
  | array items => (itemsWithDates? items).map array
  | table entries =>
    match entries.head? with
    | some (key, value) =>
      if key = dateKey then dateOf? value else (entriesWithDates? entries).map table
    | none => some (table [])
  | value => some value

def itemsWithDates? : List Toml → Option (List Toml)
  | [] => some []
  | item :: items => do return (← withDates? item) :: (← itemsWithDates? items)

def entriesWithDates? : List (String × Toml) → Option (List (String × Toml))
  | [] => some []
  | (key, value) :: entries => do return (key, ← withDates? value) :: (← entriesWithDates? entries)

end

/-! ## Tables of a file -/

/-- A table under construction, and the key of the table that assignments go into. -/
structure Draft where
  entries : Entries
  current : Key
  deriving Inhabited

namespace Draft

def start : Draft := ⟨[], []⟩

/-- The entries of a table that is started: those that an implicit table of that name has, if it is not
dotted. -/
def started? : Option Item → Option Entries
  | none => some []
  | some (.table true false inner) => some inner
  | some _ => none

/-- Starts a table, which comes last in the table around it. -/
def openTable (key : Key) (draft : Draft) : Option Draft := do
  let name ← key.getLast?
  let entries ← descend? false (fun _ entries => do
    let inner ← started? (entries.lookup name)
    return entries.filter (·.1 ≠ name) ++ [(name, .table false false inner)])
    false key.dropLast draft.entries
  return ⟨entries, key⟩

/-- Starts a table at the end of a list of tables. -/
def openItem (key : Key) (draft : Draft) : Option Draft := do
  let name ← key.getLast?
  let entries ← descend? false (fun _ entries =>
    alter? name (fun
      | none => some (.tables [] [])
      | some (.tables earlier last) => some (.tables (earlier ++ [last]) [])
      | some _ => none) entries)
    false key.dropLast draft.entries
  return ⟨entries, key⟩

def assign (key : Key) (value : Toml) (draft : Draft) : Option Draft := do
  let entries ← descend? false (fun _ entries => assign? key value entries)
    false draft.current draft.entries
  return { draft with entries }

def take? (draft : Draft) : Statement → Option Draft
  | .header key => draft.openTable key
  | .itemHeader key => draft.openItem key
  | .assignment key value => draft.assign key value

end Draft

/-- The entries of a file. A byte order mark at its start does not count. -/
def parse? (text : String) : Option (List (String × Toml)) := do
  let statements ← statements? (Text.dropByteOrderMark text.toList)
  let draft ← statements.foldlM Draft.take? .start
  match ← (table (finishEntries draft.entries)).withDates? with
  | table entries => some entries
  | _ => none

end ApiProfile.Toml
