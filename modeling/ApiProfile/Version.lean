import ApiProfile.Failure
import ApiProfile.Text.Basic
/-!
# Feature versions

A version is one to three numbers of 64 bits. It is written with as many numbers as it was read
with, and compared as if it had three, the missing ones being zero: `1`, `1.0` and `1.0.0` are
written differently and rank alike.
-/

namespace ApiProfile

/-- One, two or three version numbers. -/
inductive Version
  | one (major : UInt64)
  | two (major minor : UInt64)
  | three (major minor patch : UInt64)
  deriving DecidableEq, Repr, Inhabited

namespace Version

def major : Version → UInt64
  | one a | two a _ | three a _ _ => a

def minor : Version → UInt64
  | one _ => 0
  | two _ b | three _ b _ => b

def patch : Version → UInt64
  | one _ | two _ _ => 0
  | three _ _ c => c

def numbers : Version → List UInt64
  | one a => [a]
  | two a b => [a, b]
  | three a b c => [a, b, c]

def ofNumbers? : List UInt64 → Option Version
  | [a] => some (one a)
  | [a, b] => some (two a b)
  | [a, b, c] => some (three a b c)
  | _ => none

@[simp] theorem ofNumbers?_numbers (v : Version) : ofNumbers? v.numbers = some v := by
  cases v <;> rfl

/-- Versions rank by their numbers, the first ones first. -/
def rank (v w : Version) : Ordering :=
  (compare v.major w.major).then ((compare v.minor w.minor).then (compare v.patch w.patch))

def atMost (v w : Version) : Bool :=
  (v.rank w).isLE

def render (v : Version) : String :=
  String.intercalate "." (v.numbers.map fun n => n.toNat.repr)

/-- Drops one letter `v` in front of the numbers. -/
def dropMark : List Char → List Char
  | 'v' :: rest => rest
  | text => text

/-- Reads a version: blanks at the ends and one `v` in front do not matter. -/
def parse (text : String) : Except Failure Version :=
  let parts := Text.splitBy (· == '.') (dropMark (Text.trim text.toList))
  match (parts.mapM (Text.uint64? 10)).bind ofNumbers? with
  | some version => .ok version
  | none => .error (.invalidVersion text)

/-- The version of highest rank, the last one of several. -/
def latest? (versions : List Version) : Option Version :=
  versions.foldl (fun best v => match best with
    | none => some v
    | some b => if b.atMost v then some v else some b) none

end Version
end ApiProfile
