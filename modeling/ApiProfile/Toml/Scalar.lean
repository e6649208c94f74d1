import ApiProfile.Text.Basic
import ApiProfile.Text.Binary64
/-!
# Values and scalars

The values that a TOML file can hold, with a value for what was left out. Entries of a table are in the order of
writing. Scalars are numbers, truth values, dates and times. None of them contains a blank, but for the one that may
stand between a date and a time, which are kept as text in their normal form. Digits of numbers may be grouped by
underscores, each between two digits.
-/

namespace ApiProfile

/-! ## Values -/

/-- A TOML value. An item of a list is `missing` if only a later one was given; no file holds such an
item. -/
inductive Toml
  | missing
  | string (value : String)
  | integer (value : Int)
  | float (value : Text.Floating)
  | boolean (value : Bool)
  | datetime (text : String)
  | array (items : List Toml)
  | table (entries : List (String × Toml))
  deriving Repr, BEq, Inhabited

namespace Toml

/-- The entries of a table; other values have none. -/
def entries : Toml → List (String × Toml)
  | table entries => entries
  | _ => []

/-- The items of a list; other values have none. -/
def items : Toml → List Toml
  | array items => items
  | _ => []

/-- Puts `choose old` under a key, where `old` is what the key had before; a new key comes last. -/
def upsert {α : Type} (key : String) (choose : Option α → α) : List (String × α) → List (String × α)
  | [] => [(key, choose none)]
  | (k, v) :: rest =>
    if k = key then (k, choose (some v)) :: rest else (k, v) :: upsert key choose rest

/-! ## Numbers -/

/-- The digits without the underscores between them. -/
def ungroup? (isDigit : Char → Bool) : List Char → Option (List Char)
  | [] => none
  | [c] => if isDigit c then some [c] else none
  | c :: '_' :: rest => if isDigit c then (ungroup? isDigit rest).map (c :: ·) else none
  | c :: rest => if isDigit c then (ungroup? isDigit rest).map (c :: ·) else none

/-- The sign that a number may start with, and the rest. -/
def splitSign : List Char → Bool × List Char
  | '-' :: rest => (true, rest)
  | '+' :: rest => (false, rest)
  | cs => (false, cs)

/-- Decimal digits that do not start with a zero, unless it is the only one. -/
def wholeDigits? (cs : List Char) : Option (List Char) :=
  (ungroup? Char.isDigit cs).filter fun digits => digits.head? ≠ some '0' || digits.length = 1

/-- A number of 64 bits in base 16, 8 or 2, read from behind its mark. -/
def basedInteger? (base : Nat) (cs : List Char) : Option Int :=
  ((ungroup? (fun c => (Text.digit? base c).isSome) cs).bind (Text.digits? base)).bind fun n =>
    if n < 0x8000000000000000 then some n else none

/-- A whole number of 64 bits. -/
def integer? : List Char → Option Int
  | '0' :: 'x' :: rest => basedInteger? 16 rest
  | '0' :: 'o' :: rest => basedInteger? 8 rest
  | '0' :: 'b' :: rest => basedInteger? 2 rest
  | cs =>
    let (negative, digits) := splitSign cs
    ((wholeDigits? digits).bind (Text.digits? 10)).bind fun n =>
      if negative then (if n ≤ 0x8000000000000000 then some (-n) else none)
      else if n < 0x8000000000000000 then some n else none

/-- An exponent, read from behind its letter. -/
def exponent? (cs : List Char) : Option Int :=
  let (negative, digits) := splitSign cs
  ((ungroup? Char.isDigit digits).bind (Text.digits? 10)).map fun n => if negative then -n else n

/-- What stands before and after the letter of an exponent. -/
def splitExponent (cs : List Char) : List Char × Option (List Char) :=
  let isMark := fun c => c = 'e' || c = 'E'
  match cs.dropWhile (!isMark ·) with
  | [] => (cs, none)
  | _ :: rest => (cs.takeWhile (!isMark ·), some rest)

/-- What stands before and after the point. -/
def splitPoint (cs : List Char) : List Char × Option (List Char) :=
  match cs.dropWhile (· ≠ '.') with
  | [] => (cs, none)
  | _ :: rest => (cs.takeWhile (· ≠ '.'), some rest)

/-- A number of floating point; it has a fraction or an exponent, or is one of the named values. A
number too large to be one is refused. -/
def float? (cs : List Char) : Option Text.Floating :=
  let (negative, size) := splitSign cs
  if size = "inf".toList then some (.infinite negative)
  else if size = "nan".toList then some .notANumber
  else do
    let (number, exponentText) := splitExponent size
    let (whole, fraction) := splitPoint number
    if exponentText.isNone && fraction.isNone then none
    let wholeDigits ← wholeDigits? whole
    let fractionDigits ← match fraction with
      | some digits => ungroup? Char.isDigit digits
      | none => some []
    let power ← match exponentText with
      | some text => exponent? text
      | none => some 0
    let digits ← Text.digits? 10 (wholeDigits ++ fractionDigits)
    let value := Text.Floating.ofDecimal negative digits (power - fractionDigits.length)
    if value = .infinite false then none else some value

/-! ## Dates and times -/

/-- A number of exactly `count` decimal digits, and what follows it. -/
def fixed? (count : Nat) (cs : List Char) : Option (Nat × List Char) :=
  let digits := cs.take count
  if digits.length = count ∧ digits.all Char.isDigit then
    (Text.digits? 10 digits).map fun n => (n, cs.drop count)
  else none

/-- What follows a character, if the text starts with it. -/
def after? (c : Char) : List Char → Option (List Char)
  | [] => none
  | d :: rest => if d = c then some rest else none

def daysIn (year month : Nat) : Nat :=
  if month = 2 then
    if year % 4 = 0 ∧ (year % 100 ≠ 0 ∨ year % 400 = 0) then 29 else 28
  else if month ∈ [4, 6, 9, 11] then 30 else 31

/-- Decimal digits of a number, filled up with zeros to a width. -/
def padded (width n : Nat) : List Char :=
  let digits := n.repr.toList
  List.replicate (width - digits.length) '0' ++ digits

def date? (cs : List Char) : Option (List Char × List Char) := do
  let (year, cs) ← fixed? 4 cs
  let (month, cs) ← fixed? 2 (← after? '-' cs)
  let (day, cs) ← fixed? 2 (← after? '-' cs)
  if 1 ≤ month ∧ month ≤ 12 ∧ 1 ≤ day ∧ day ≤ daysIn year month then
    return (padded 4 year ++ '-' :: padded 2 month ++ '-' :: padded 2 day, cs)
  else none

/-- A fraction of a second as nine digits without zeros at their end, and what follows it. -/
def fraction? : List Char → Option (List Char × List Char)
  | '.' :: cs =>
    let digits := cs.takeWhile Char.isDigit
    let kept := ((digits.take 9).reverse.dropWhile (· = '0')).reverse
    if digits = [] then none
    else some (if kept = [] then [] else '.' :: kept, cs.dropWhile Char.isDigit)
  | cs => some ([], cs)

/-- The greatest numbers of a clock: the hour of a day, and the hour and the minute of an offset. -/
structure ClockLimits where
  hour : Nat
  offsetHour : Nat
  offsetMinute : Nat
  deriving DecidableEq, Repr, Inhabited

/-- The limits of dates and times in a file. -/
def ClockLimits.standard : ClockLimits := ⟨23, 23, 59⟩

def time? (limits : ClockLimits) (cs : List Char) : Option (List Char × List Char) := do
  let (hour, cs) ← fixed? 2 cs
  let (minute, cs) ← fixed? 2 (← after? ':' cs)
  let (second, cs) ← fixed? 2 (← after? ':' cs)
  let (fraction, cs) ← fraction? cs
  if hour ≤ limits.hour ∧ minute ≤ 59 ∧ second ≤ 60 then
    return (padded 2 hour ++ ':' :: padded 2 minute ++ ':' :: padded 2 second ++ fraction, cs)
  else none

/-- An offset from universal time, of at most a day, and what follows it; none is the empty text. -/
def offset? (limits : ClockLimits) : List Char → Option (List Char × List Char)
  | 'Z' :: cs | 'z' :: cs => some (['Z'], cs)
  | '+' :: cs => signed false cs
  | '-' :: cs => signed true cs
  | cs => some ([], cs)
where
  signed (negative : Bool) (cs : List Char) : Option (List Char × List Char) := do
    let (hour, cs) ← fixed? 2 cs
    let (minute, cs) ← fixed? 2 (← after? ':' cs)
    let total := 60 * hour + minute
    let sign := if negative ∧ total ≠ 0 then '-' else '+'
    if hour ≤ limits.offsetHour ∧ minute ≤ limits.offsetMinute ∧ total ≤ 24 * 60 then
      return (sign :: padded 2 (total / 60) ++ ':' :: padded 2 (total % 60), cs)
    else none

/-- A date, a time or both, in their normal form, and what follows it. -/
def datetime? (limits : ClockLimits) (cs : List Char) : Option (List Char × List Char) :=
  match date? cs with
  | none => time? limits cs
  | some (date, rest) =>
    let withTime := match rest with
      | c :: more =>
        if c = 'T' ∨ c = 't' ∨ c = ' ' then do
          let (time, more) ← time? limits more
          let (offset, more) ← offset? limits more
          return (date ++ 'T' :: time ++ offset, more)
        else none
      | [] => none
    some (withTime.getD (date, rest))

/-! ## Scalars -/

/-- A character that a scalar other than text may be written with. -/
def isScalarChar (c : Char) : Bool :=
  c.isAlphanum || c = '+' || c = '-' || c = '_' || c = '.' || c = ':'

/-- The scalar that a text starts with, other than quoted text, and what follows it. -/
def scalar? (cs : List Char) : Option (Toml × List Char) :=
  match datetime? .standard cs with
  | some (text, rest) => some (datetime (String.ofList text), rest)
  | none =>
    let token := cs.takeWhile isScalarChar
    let rest := cs.dropWhile isScalarChar
    if token = "true".toList then some (boolean true, rest)
    else if token = "false".toList then some (boolean false, rest)
    else match integer? token with
      | some n => some (integer n, rest)
      | none => (float? token).map fun x => (float x, rest)

end Toml
end ApiProfile
