/-!
# Numbers of binary floating point

Decimal numbers are rounded to 53 binary digits, the nearest first and the even one of two, and
written back with the fewest decimal digits that round to the same number, the nearest such digits
first and the upper ones of two. All of it is exact arithmetic on natural numbers.
-/

namespace ApiProfile.Text

/-- A finite number that is not negative: `mantissa` times two to the `exponent`. -/
structure Binary64 where
  mantissa : Nat
  exponent : Int
  deriving DecidableEq, Repr, Inhabited

namespace Binary64

/-- The least number of 53 binary digits, which is two to the 52. -/
def leastLong : Nat := 0x10000000000000

structure Quotient where
  numerator : Nat
  denominator : Nat
  deriving DecidableEq, Repr, Inhabited

def Quotient.scale (x : Quotient) (base : Nat) : (power : Int) → Quotient
  | .ofNat n => ⟨x.numerator * base.pow n, x.denominator⟩
  | .negSucc n => ⟨x.numerator, x.denominator * base.pow (n + 1)⟩

def Quotient.floor (x : Quotient) : Nat :=
  x.numerator / x.denominator

/-- Whether a quotient is nearer to the whole number below it than to the next one. -/
def Quotient.isBelowHalf (x : Quotient) : Bool :=
  2 * (x.numerator % x.denominator) < x.denominator

/-- The whole number nearest to a quotient, the even one of two. -/
def Quotient.round (x : Quotient) : Nat :=
  let tie : Bool := 2 * (x.numerator % x.denominator) = x.denominator
  if x.isBelowHalf || (tie && x.floor % 2 = 0) then x.floor else x.floor + 1

def Quotient.atMost (x y : Quotient) : Bool :=
  x.numerator * y.denominator ≤ y.numerator * x.denominator

/-- The power of two at or below a quotient that is not zero. -/
def Quotient.log2 (x : Quotient) : Int :=
  let guess : Int := x.numerator.log2 - x.denominator.log2
  if (Quotient.mk 1 1).scale 2 guess |>.atMost x then guess else guess - 1

def digitCount (n : Nat) : Nat :=
  (Nat.toDigits 10 n).length

/-- The number nearest to `digits` times ten to the `power`; none if that is beyond all numbers. -/
def ofDecimal? (digits : Nat) (power : Int) : Option Binary64 :=
  let magnitude := power + digitCount digits
  if digits = 0 ∨ magnitude < -330 then some ⟨0, -1074⟩
  else if 310 < magnitude then none
  else
    let exact := (Quotient.mk digits 1).scale 10 power
    let exponent := max (exact.log2 - 52) (-1074)
    let mantissa := (exact.scale 2 (-exponent)).round
    let number : Binary64 :=
      if mantissa = 2 * leastLong then ⟨leastLong, exponent + 1⟩ else ⟨mantissa, exponent⟩
    if 971 < number.exponent then none else some number

/-- A whole multiple of a quarter of the number's last binary digit. -/
def quarters (x : Binary64) (count : Nat) : Quotient :=
  (Quotient.mk count 1).scale 2 (x.exponent - 2)

/-- Whether a quotient rounds to the number: the ends of the interval do so for an even mantissa. -/
def covers (x : Binary64) (y : Quotient) : Bool :=
  let low := x.quarters
    (4 * x.mantissa - if x.mantissa = leastLong ∧ -1074 < x.exponent then 1 else 2)
  let high := x.quarters (4 * x.mantissa + 2)
  low.atMost y && y.atMost high
    && (x.mantissa % 2 = 0 || !(y.atMost low || high.atMost y))

/-- A number of decimal digits: `digits` times ten to the `power`. -/
structure Decimal where
  digits : Nat
  power : Int
  deriving DecidableEq, Repr, Inhabited

/-- Of the two neighbours of the number on a decimal grid, the nearer one that rounds to it; of two that
are as near, the upper one. -/
def neighbour? (x : Binary64) (power : Int) : Option Decimal :=
  let exact := (x.quarters (4 * x.mantissa)).scale 10 (-power)
  let below := exact.floor
  let candidates := if exact.isBelowHalf then [below, below + 1] else [below + 1, below]
  (candidates.find? fun n => x.covers ((Quotient.mk n 1).scale 10 power)).map (⟨·, power⟩)

/-- The shortest decimal that rounds to the number. -/
def shortest (x : Binary64) : Decimal :=
  if x.mantissa = 0 then ⟨0, 0⟩
  else
    let exact := x.quarters (4 * x.mantissa)
    let places : Int := digitCount (exact.scale 10 400).floor - 400
    ((List.range 17).findSome? fun (n : Nat) => x.neighbour? (places - n - 1)).getD ⟨0, 0⟩

/-- A decimal written out without an exponent, and without zeros at the end of its fraction. -/
def Decimal.text (d : Decimal) : List Char :=
  let shown := d.digits.repr.toList
  match d.power with
  | .ofNat n => if d.digits = 0 then ['0'] else shown ++ List.replicate n '0'
  | .negSucc n =>
    let places := n + 1
    let padded := List.replicate (places + 1 - shown.length) '0' ++ shown
    let fraction := padded.drop (padded.length - places)
    let kept := (fraction.reverse.dropWhile (· = '0')).reverse
    padded.take (padded.length - places) ++ if kept = [] then [] else '.' :: kept

end Binary64

/-! ## Numbers as written -/

/-- A number of binary floating point, or one of the values that are none. -/
inductive Floating
  | notANumber
  | infinite (negative : Bool)
  | finite (negative : Bool) (size : Binary64)
  deriving DecidableEq, Repr, Inhabited

namespace Floating

/-- The number nearest to a decimal, which is infinite if it is beyond all numbers. -/
def ofDecimal (negative : Bool) (digits : Nat) (power : Int) : Floating :=
  match Binary64.ofDecimal? digits power with
  | some size => finite negative size
  | none => infinite negative

/-- The number in its shortest decimal text. -/
def text : Floating → String
  | notANumber => "NaN"
  | infinite negative => if negative then "-inf" else "inf"
  | finite negative size =>
    String.ofList ((if negative then ['-'] else []) ++ size.shortest.text)

example : (ofDecimal false 32 (-1)).text = "3.2" := by decide +kernel
example : (ofDecimal false 5 (-324)).text = "0." ++ String.ofList (List.replicate 323 '0') ++ "5" := by
  decide +kernel
example : (ofDecimal true 1 21).text = "-1000000000000000000000" := by decide +kernel
example : (ofDecimal false 9007199254740993 0).text = "9007199254740992" := by decide +kernel
example : (ofDecimal false 5960464477539062 (-22)).text = "0.0000005960464477539063" := by decide +kernel

end Floating
end ApiProfile.Text
