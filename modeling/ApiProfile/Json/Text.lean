import ApiProfile.Json.Value
/-!
# JSON text

Writes a JSON value, compactly or with two spaces of indentation to a level. Quotes, backslashes and
control characters are escaped; all other characters stand for themselves.
-/

namespace ApiProfile.Json

def hexPair (n : Nat) : List Char :=
  [(n / 16 % 16).digitChar, (n % 16).digitChar]

/-- A character as it stands between quotes. -/
def escapeChar (c : Char) : List Char :=
  if c = '"' then ['\\', '"']
  else if c = '\\' then ['\\', '\\']
  else if c = '\n' then ['\\', 'n']
  else if c = '\r' then ['\\', 'r']
  else if c = '\t' then ['\\', 't']
  else if c.toNat = 8 then ['\\', 'b']
  else if c.toNat = 12 then ['\\', 'f']
  else if c.toNat < 32 then '\\' :: 'u' :: '0' :: '0' :: hexPair c.toNat
  else [c]

def quote (text : String) : String :=
  String.ofList ('"' :: text.toList.flatMap escapeChar ++ ['"'])

/-- A decimal with all its places. -/
def decimalText (digits : Int) (places : Nat) : String :=
  let shown := digits.natAbs.repr.toList
  let padded := List.replicate (places + 1 - shown.length) '0' ++ shown
  let cut := padded.length - places
  String.ofList ((if digits < 0 then ['-'] else []) ++ padded.take cut
    ++ (if places = 0 then [] else '.' :: padded.drop cut))

/-- Values that are not made of others. -/
def atomText : Json → String
  | null => "null"
  | bool value => if value then "true" else "false"
  | integer value => value.repr
  | decimal digits places => decimalText digits places
  | string value => quote value
  | array _ => "[]"
  | object _ => "\x7b\x7d"

mutual

/-- The value on one line, without blanks. -/
def compact : Json → String
  | array items => "[" ++ compactItems items ++ "]"
  | object members => "\x7b" ++ compactMembers members ++ "\x7d"
  | atom => atomText atom

def compactItems : List Json → String
  | [] => ""
  | [item] => compact item
  | item :: items => compact item ++ "," ++ compactItems items

def compactMembers : List (String × Json) → String
  | [] => ""
  | [(key, value)] => quote key ++ ":" ++ compact value
  | (key, value) :: members => quote key ++ ":" ++ compact value ++ "," ++ compactMembers members

end

/-- A line end and the indentation of a level. -/
def indent (level : Nat) : String :=
  "\n" ++ String.ofList (List.replicate (2 * level) ' ')

mutual

/-- The value with every item and member on a line of its own, inside `level` others. -/
def prettyAt (level : Nat) : Json → String
  | array (item :: items) => "[" ++ prettyItems level (item :: items) ++ indent level ++ "]"
  | object (member :: members) =>
    "\x7b" ++ prettyMembers level (member :: members) ++ indent level ++ "\x7d"
  | atom => atomText atom

def prettyItems (level : Nat) : List Json → String
  | [] => ""
  | [item] => indent (level + 1) ++ prettyAt (level + 1) item
  | item :: items => indent (level + 1) ++ prettyAt (level + 1) item ++ "," ++ prettyItems level items

def prettyMembers (level : Nat) : List (String × Json) → String
  | [] => ""
  | [(key, value)] => indent (level + 1) ++ quote key ++ ": " ++ prettyAt (level + 1) value
  | (key, value) :: members =>
    indent (level + 1) ++ quote key ++ ": " ++ prettyAt (level + 1) value ++ ","
      ++ prettyMembers level members

end

/-- The value with every item and member on a line of its own. -/
def pretty (j : Json) : String :=
  prettyAt 0 j

end ApiProfile.Json
