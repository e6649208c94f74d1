import ApiProfile.Text.Basic
/-!
# Paths

A path is kept as it was written, since messages show it so. Two paths name the same entry of a
cache when their parts agree: repeated and trailing slashes and inner `.` parts are no parts, while
a leading `.` and every `..` are.
-/

namespace ApiProfile

structure Path where
  text : String
  deriving DecidableEq, Repr, Inhabited

namespace Path

/-- A path that starts at the root of the file system. -/
def isAbsolute (p : Path) : Bool :=
  p.text.toList.head? == some '/'

/-- The pieces between slashes, empty ones included. -/
def pieces (p : Path) : List String :=
  (Text.splitBy (· == '/') p.text.toList).map String.ofList

/-- What two spellings of one path have in common. -/
structure Parts where
  absolute : Bool
  names : List String
  deriving DecidableEq, Repr, Inhabited

def parts (p : Path) : Parts :=
  let names := p.pieces.filter fun piece => piece ≠ "" ∧ piece ≠ "."
  ⟨p.isAbsolute, if p.pieces.head? = some "." then "." :: names else names⟩

/-- Whether a name may be given to an entry of a directory: it has no more than 255 bytes, and no NUL. -/
def nameFits (name : String) : Bool :=
  name.utf8ByteSize ≤ 255 && !name.toList.contains '\x00'

/-- Whether an entry may be made under a path. -/
def fits (p : Path) : Bool :=
  p.text.utf8ByteSize < 4096 && p.pieces.all nameFits

/-- Whether the last piece of a path, slashes after it apart, is a `.`. -/
def endsInDot (p : Path) : Bool :=
  (p.pieces.filter (· ≠ "")).getLast? == some "."

/-- What stands behind the last dot of a path's last name, if something stands before that dot. -/
def ending? (p : Path) : Option String :=
  match p.pieces.getLast? with
  | none | some ".." => none
  | some name =>
    match Text.cutLast ['.'] name.toList with
    | some (_ :: _, ending) => some (String.ofList ending)
    | _ => none

/-- A path with an ending added to its last name; slashes and `.` behind that name fall away. -/
def withEnding (ending : String) (p : Path) : Path :=
  let kept := (p.pieces.reverse.dropWhile fun piece => piece = "" ∨ piece = ".").reverse
  if kept = [] ∨ kept.getLast? = some ".." then p
  else ⟨"/".intercalate kept ++ "." ++ ending⟩

/-- A path seen from a directory: an absolute path stays as it is. -/
def join (directory path : Path) : Path :=
  if path.isAbsolute || directory.text = "" then path
  else if directory.text.toList.getLast? = some '/' then ⟨directory.text ++ path.text⟩
  else ⟨directory.text ++ "/" ++ path.text⟩

example : (Path.mk "a//b/./c/").parts = (Path.mk "a/b/c").parts := by decide +kernel
example : (Path.mk "./a").parts ≠ (Path.mk "a").parts := by decide +kernel

end Path
end ApiProfile
