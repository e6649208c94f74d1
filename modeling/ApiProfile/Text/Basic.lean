/-!
# Texts and their pieces

Text is handled as a list of characters. Blank characters are those with the Unicode property White_Space: trimming
takes them off the ends of a text, and `wordsBy` cuts a text into the runs that lie between separators. A line ends at a
line feed, and a carriage return right before that line feed belongs to the line end. `cutLast` splits a text around the
last occurrence of another one. A byte order mark at the start of a text is not part of what it says. A numeral is one or
more digits in a base, of either case, after at most one sign; its readers take the whole text or nothing, and refuse a
number outside the range of its type.
-/

namespace ApiProfile.Text

/-! ## Blanks and words -/

/-- A character with the property White_Space. -/
def isBlank (c : Char) : Bool :=
  let n := c.toNat
  (9 ≤ n && n ≤ 13) || n = 0x20 || n = 0x85 || n = 0xA0 || n = 0x1680 || (0x2000 ≤ n && n ≤ 0x200A)
    || n = 0x2028 || n = 0x2029 || n = 0x202F || n = 0x205F || n = 0x3000

/-- The text without the blanks it starts with. -/
def trimStart (text : List Char) : List Char :=
  text.dropWhile isBlank

/-- The text without the blanks it ends with. -/
def trimEnd (text : List Char) : List Char :=
  (text.reverse.dropWhile isBlank).reverse

def trim (text : List Char) : List Char :=
  trimEnd (trimStart text)

/-- The pieces between the separators, empty ones included: one more piece than separators. -/
def splitBy (separates : Char → Bool) : List Char → List (List Char)
  | [] => [[]]
  | c :: rest =>
    match separates c, splitBy separates rest with
    | true, pieces => [] :: pieces
    | false, [] => [[c]]
    | false, piece :: pieces => (c :: piece) :: pieces

theorem splitBy_ne_nil (separates : Char → Bool) (text : List Char) : splitBy separates text ≠ [] := by
  cases text with
  | nil => simp [splitBy]
  | cons c rest => simp only [splitBy]; split <;> simp

/-- The pieces between the separators that are not empty. -/
def wordsBy (separates : Char → Bool) (text : List Char) : List (List Char) :=
  (splitBy separates text).filter (· ≠ [])

/-! ## Lines -/

/-- The line without a carriage return at its end. -/
def dropReturn (line : List Char) : List Char :=
  if line.getLast? = some '\r' then line.dropLast else line

/-- Takes the line ends off the pieces between line feeds: the last piece has none, and is no line
when it is empty. -/
def linesOfPieces : List (List Char) → List (List Char)
  | [] => []
  | [last] => if last = [] then [] else [last]
  | piece :: pieces => dropReturn piece :: linesOfPieces pieces

def lines (text : List Char) : List (List Char) :=
  linesOfPieces (splitBy (· == '\n') text)

/-- The number of bytes of a text in UTF-8. -/
def byteLength : List Char → Nat
  | [] => 0
  | c :: rest => c.utf8Size + byteLength rest

/-- The characters that start within the first `count` bytes of a text. -/
def startingWithin : (count : Nat) → List Char → List Char
  | _, [] => []
  | count, c :: rest => if count = 0 then [] else c :: startingWithin (count - c.utf8Size) rest

/-- The number, counted from 1, of the line that a text has come to after `count` bytes. -/
def lineAt (text : List Char) (count : Nat) : Nat :=
  1 + (startingWithin count text).count '\n'

/-! ## Occurrences and marks -/

/-- What stands before and after the last occurrence of `needle`; the empty text occurs last at the
very end. -/
def cutLast (needle : List Char) : List Char → Option (List Char × List Char)
  | [] => if needle = [] then some ([], []) else none
  | c :: rest =>
    match cutLast needle rest with
    | some (before, after) => some (c :: before, after)
    | none => if needle.isPrefixOf (c :: rest) then some ([], (c :: rest).drop needle.length) else none

theorem eq_append_of_cutLast {needle text before after : List Char}
    (h : cutLast needle text = some (before, after)) : text = before ++ needle ++ after := by
  induction text generalizing before with
  | nil =>
    simp only [cutLast] at h
    split at h <;> simp_all
  | cons c rest ih =>
    simp only [cutLast] at h
    split at h
    · rename_i b a hcut
      simp only [Option.some.injEq, Prod.mk.injEq] at h
      obtain ⟨rfl, rfl⟩ := h
      simp [ih hcut]
    · split at h
      · rename_i hpre
        simp only [Option.some.injEq, Prod.mk.injEq] at h
        obtain ⟨rfl, rfl⟩ := h
        obtain ⟨tail, htail⟩ := List.isPrefixOf_iff_prefix.1 hpre
        simp [← htail]
      · simp at h

/-- The text without a byte order mark at its start. -/
def dropByteOrderMark : List Char → List Char
  | '\uFEFF' :: rest => rest
  | text => text

theorem dropByteOrderMark_of_head? {text : List Char} (h : text.head? ≠ some '\uFEFF') :
    dropByteOrderMark text = text := by
  unfold dropByteOrderMark
  split
  · exact absurd rfl h
  · rfl

/-! ## Numerals -/

/-- The value of a digit in a base of at most 16. -/
def digit? (base : Nat) (c : Char) : Option Nat :=
  let value :=
    if '0' ≤ c ∧ c ≤ '9' then c.toNat - '0'.toNat
    else if 'a' ≤ c ∧ c ≤ 'f' then c.toNat - 'a'.toNat + 10
    else if 'A' ≤ c ∧ c ≤ 'F' then c.toNat - 'A'.toNat + 10
    else base
  if value < base then some value else none

/-- The number that digits denote, read on from `start`. -/
def digitsFrom? (base : Nat) : (start : Nat) → List Char → Option Nat
  | start, [] => some start
  | start, c :: rest =>
    match digit? base c with
    | some d => digitsFrom? base (base * start + d) rest
    | none => none

/-- The number that one or more digits denote. -/
def digits? (base : Nat) (text : List Char) : Option Nat :=
  if text = [] then none else digitsFrom? base 0 text

/-- A number without sign or with a plus sign, below `limit`. -/
def unsigned? (base limit : Nat) (text : List Char) : Option Nat :=
  let digits := match text with
    | '+' :: rest => rest
    | _ => text
  (digits? base digits).filter (· < limit)

def uint64? (base : Nat) (text : List Char) : Option UInt64 :=
  (unsigned? base UInt64.size text).map UInt64.ofNat

/-- A decimal number with an optional sign, between -2⁶³ and 2⁶³ - 1. -/
def int64? : List Char → Option Int64
  | '-' :: rest => ((digits? 10 rest).filter (· ≤ 0x8000000000000000)).map fun n => Int64.ofInt (-n)
  | text => (unsigned? 10 0x8000000000000000 text).map Int64.ofNat

end ApiProfile.Text
