import ApiProfile.Text.Basic
/-!
# References

In attribute values and text a reference stands for a character: `&lt;`, `&gt;`, `&amp;`, `&apos;`
and `&quot;`, or a code point in decimal (`&#65;`) or hexadecimal (`&#x41;`). Any other `&` is a
fault.
-/

namespace ApiProfile.Markup

/-- The character with a code point other than zero. -/
def charOf? (n : Nat) : Option Char :=
  if h : n ≠ 0 ∧ n.isValidChar then some (Char.ofNatAux n h.2) else none

/-- The character that a reference stands for, given by what is between `&` and `;`. -/
def referenced? (name : List Char) : Option Char :=
  if name = "lt".toList then some '<'
  else if name = "gt".toList then some '>'
  else if name = "amp".toList then some '&'
  else if name = "apos".toList then some '\''
  else if name = "quot".toList then some '"'
  else match name with
    | '#' :: 'x' :: digits => (Text.digits? 16 digits).bind charOf?
    | '#' :: digits => (Text.digits? 10 digits).bind charOf?
    | _ => none

/-- Puts characters in place of references. The first argument holds the reference being read, newest
character first, if one is open. -/
def unescapeFrom : Option (List Char) → List Char → Option (List Char)
  | none, [] => some []
  | some _, [] => none
  | none, c :: rest =>
    if c = '&' then unescapeFrom (some []) rest else (unescapeFrom none rest).map (c :: ·)
  | some name, c :: rest =>
    if c = '&' then none
    else if c = ';' then
      match referenced? name.reverse with
      | some char => (unescapeFrom none rest).map (char :: ·)
      | none => none
    else unescapeFrom (some (c :: name)) rest

/-- Puts characters in place of references. -/
def unescape (raw : List Char) : Option (List Char) :=
  unescapeFrom none raw

end ApiProfile.Markup
