import ApiProfile.Text.Basic
/-!
# Paths of settings

A path leads to a setting inside of tables and lists: it starts with a key, and goes on with keys behind
points and places in lists between brackets, as in `profiles[0].name`. A text that is no path is one
key.
-/

namespace ApiProfile

/-- A step of a path: to a key of a table, or to a place in a list, from its end if negative. -/
inductive SettingStep
  | key (name : String)
  | place (index : Int)
  deriving DecidableEq, Repr, Inhabited

abbrev SettingPath := List SettingStep

namespace SettingPath

def isKeyChar (c : Char) : Bool :=
  c.isAlphanum || c = ' ' || c = '_' || c = '-'

/-- A blank inside of brackets. -/
def isSpacing (c : Char) : Bool :=
  c = ' ' || c = '\t' || c = '\r' || c = '\n'

/-- The key that a text starts with, and what follows it. -/
def key? (cs : List Char) : Option (SettingStep × List Char) :=
  let name := cs.takeWhile isKeyChar
  if name = [] then none else some (.key (String.ofList name), cs.dropWhile isKeyChar)

/-- The number between brackets, with blanks around it and no plus sign. -/
def index? (cs : List Char) : Option Int :=
  match ((cs.dropWhile isSpacing).reverse.dropWhile isSpacing).reverse with
  | '+' :: _ => none
  | number => (Text.int64? number).map Int64.toInt

/-- The place that a text starts with, up to the bracket after it, and what follows. -/
def place? (cs : List Char) : Option (SettingStep × List Char) :=
  match cs.dropWhile (· ≠ ']') with
  | [] => none
  | _ :: rest => (index? (cs.takeWhile (· ≠ ']'))).map fun index => (.place index, rest)

/-- The step that a text starts with behind the first key, and what follows it. -/
def step? : List Char → Option (SettingStep × List Char)
  | '.' :: cs => key? cs
  | '[' :: cs => place? cs
  | _ => none

theorem length_le_of_key? {cs rest : List Char} {step : SettingStep}
    (h : key? cs = some (step, rest)) : rest.length ≤ cs.length := by
  simp only [key?] at h
  split at h
  · cases h
  · cases h
    exact (List.dropWhile_sublist _).length_le

theorem length_le_of_place? {cs rest : List Char} {step : SettingStep}
    (h : place? cs = some (step, rest)) : rest.length ≤ cs.length := by
  unfold place? at h
  split at h
  · cases h
  · rename_i tail hdrop
    obtain ⟨index, _, heq⟩ := Option.map_eq_some_iff.1 h
    cases heq
    have bound := (List.dropWhile_sublist (l := cs) (· ≠ ']')).length_le
    rw [hdrop] at bound
    exact Nat.le_of_succ_le bound

theorem length_lt_of_step? {cs rest : List Char} {step : SettingStep}
    (h : step? cs = some (step, rest)) : rest.length < cs.length := by
  unfold step? at h
  split at h
  · exact Nat.lt_succ_of_le (length_le_of_key? h)
  · exact Nat.lt_succ_of_le (length_le_of_place? h)
  · cases h

/-- The steps of a text behind the first key. -/
def steps? (cs : List Char) : Option (List SettingStep) :=
  if cs = [] then some []
  else
    match h : step? cs with
    | none => none
    | some (step, rest) =>
      have := length_lt_of_step? h
      (steps? rest).map (step :: ·)
  termination_by cs.length

def ofText (text : String) : SettingPath :=
  let path? := (key? text.toList).bind fun (first, rest) => (steps? rest).map (first :: ·)
  path?.getD [.key text]

example : ofText "profiles[ -1 ].name" = [.key "profiles", .place (-1), .key "name"] := by
  decide +kernel
example : ofText "profiles[x].name" = [.key "profiles[x].name"] := by decide +kernel

end SettingPath
end ApiProfile
