import ApiProfile.Configuration.SettingPath
import ApiProfile.Toml.Document
/-!
# Layers of settings

A configuration is put together from layers of settings, files and variables of the environment, of
which later ones win: tables are merged key by key, and everything else is replaced whole. Keys do not
depend on case, but for those inside of lists. A key of a layer may be a path to a setting inside of
tables and lists.
-/

namespace ApiProfile

/-- The variables of an environment, with their texts. -/
abbrev Environment := List (String × String)

namespace Layer

open Toml

/-! ## Merging -/

mutual

/-- Sets a key to a value: a table is merged into what the key has. -/
def assign (key : String) : Toml → List (String × Toml) → List (String × Toml)
  | .table incoming, entries =>
    upsert key.toLower (fun old => mergeInto incoming (old.getD (.table []))) entries
  | value, entries => upsert key.toLower (fun _ => value) entries

/-- Merges entries into a value, which becomes a table by the first of them. -/
def mergeInto : List (String × Toml) → Toml → Toml
  | [], target => target
  | (key, value) :: more, target => mergeInto more (.table (assign key value target.entries))

end

/-- Changes the item at a place of a list. Places below zero count from the end, and a list that is too
short is filled up. -/
def alterItem (index : Int) (change : Toml → Toml) (items : List Toml) : List Toml :=
  let place := if index < 0 then items.length - index.natAbs else index.toNat
  (items ++ List.replicate (place + 1 - items.length) Toml.missing).modify place change

/-- Sets the end of a path in a value. What the path leads through becomes tables and lists. -/
def assignAt : SettingPath → (value target : Toml) → Toml
  | [], value, _ => value
  | [.key name], value, target => .table (assign name value target.entries)
  | .key name :: path, value, target =>
    .table (upsert name.toLower (fun old => assignAt path value (old.getD .missing)) target.entries)
  | .place index :: path, value, target =>
    .array (alterItem index (assignAt path value) target.items)

def merge (settings layer : List (String × Toml)) : List (String × Toml) :=
  layer.foldl (fun settings (key, value) =>
    (assignAt (.ofText key) value (.table settings)).entries) settings

/-! ## Variables -/

/-- The digits at the start of a text, and the rest. -/
def splitDigits (cs : List Char) : List Char × List Char :=
  (cs.takeWhile Char.isDigit, cs.dropWhile Char.isDigit)

/-- An exponent behind its letter, with an optional sign. -/
def exponent? (cs : List Char) : Option Int :=
  let (negative, digits) := splitSign cs
  (Text.digits? 10 digits).map fun n => if negative then -n else n

/-- A number of floating point as variables have it: digits before or after the point may be missing
but not both, and infinities have names. -/
def float? (cs : List Char) : Option Text.Floating :=
  let (negative, size) := splitSign cs
  let lowered := size.map Char.toLower
  if lowered = "inf".toList ∨ lowered = "infinity".toList then some (.infinite negative)
  else if lowered = "nan".toList then some .notANumber
  else do
    let (whole, rest) := splitDigits size
    let (fraction, rest) := match rest with
      | '.' :: rest => splitDigits rest
      | _ => ([], rest)
    let power ← match rest with
      | [] => some 0
      | mark :: rest => if mark = 'e' ∨ mark = 'E' then exponent? rest else none
    let digits ← Text.digits? 10 (whole ++ fraction)
    return Text.Floating.ofDecimal negative digits (power - fraction.length)

/-- The value of a variable: a truth value, a number if it reads as one, else a text. -/
def variableValue (text : String) : Toml :=
  let cs := text.toList
  let lowered := cs.map Char.toLower
  if lowered = "true".toList then .boolean true
  else if lowered = "false".toList then .boolean false
  else match Text.int64? cs with
    | some n => .integer n.toInt
    | none =>
      match float? cs with
      | some x => .float x
      | none => .string text

/-- The text with a point for every two underscores. -/
def pointsForUnderscores : List Char → List Char
  | '_' :: '_' :: rest => '.' :: pointsForUnderscores rest
  | c :: rest => c :: pointsForUnderscores rest
  | [] => []

/-- The settings of an environment: variables whose names start with `BIND__`, in any case. -/
def ofEnvironment (environment : Environment) : List (String × Toml) :=
  environment.filterMap fun (name, text) =>
    let lowered := name.toLower.toList
    if "bind__".toList.isPrefixOf lowered then
      some (String.ofList (pointsForUnderscores (lowered.drop 6)), variableValue text)
    else none

end Layer
end ApiProfile
