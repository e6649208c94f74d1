import ApiProfile.Text.Basic
/-!
# Quoted text

Text in a TOML file stands between double quotes, where a backslash starts an escape, or between
single quotes, where every character stands for itself. Three quotes enclose text of several lines:
a line end right after them does not count, and up to two quotes may stand before the closing ones.
-/

namespace ApiProfile.Toml

/-- Blanks inside a line. -/
def isInlineSpace (c : Char) : Bool :=
  c = ' ' || c = '\t'

/-- A character that may stand in a comment or quoted text: no control character but a tab. -/
def isPlain (c : Char) : Bool :=
  c = '\t' || (32 ≤ c.toNat && c.toNat ≠ 127)

/-- The text behind a line end, if the text starts with one. -/
def lineEnd? : List Char → Option (List Char)
  | '\n' :: rest => some rest
  | '\r' :: '\n' :: rest => some rest
  | _ => none

/-- What a character behind a backslash stands for. -/
def escaped? (c : Char) : Option Char :=
  match c with
  | 'b' => some (Char.ofNat 8)
  | 't' => some '\t'
  | 'n' => some '\n'
  | 'f' => some (Char.ofNat 12)
  | 'r' => some '\r'
  | '"' => some '"'
  | '\\' => some '\\'
  | _ => none

/-- The character with a code point in hexadecimal digits. -/
def codePoint? (digits : List Char) : Option Char :=
  (Text.digits? 16 digits).bind fun n => if h : n.isValidChar then some (Char.ofNatAux n h) else none

/-- The character that an escape stands for, and the text behind it. The escape is read from behind
its backslash. -/
def escape? : List Char → Option (Char × List Char)
  | 'u' :: a :: b :: c :: d :: rest => (codePoint? [a, b, c, d]).map fun char => (char, rest)
  | 'U' :: a :: b :: c :: d :: e :: f :: g :: h :: rest =>
    (codePoint? [a, b, c, d, e, f, g, h]).map fun char => (char, rest)
  | c :: rest => (escaped? c).map fun char => (char, rest)
  | [] => none

theorem length_lt_of_escape? {cs rest : List Char} {char : Char}
    (h : escape? cs = some (char, rest)) : rest.length < cs.length := by
  unfold escape? at h
  split at h
  · obtain ⟨_, _, h⟩ := Option.map_eq_some_iff.1 h
    cases h
    simp only [List.length_cons]
    omega
  · obtain ⟨_, _, h⟩ := Option.map_eq_some_iff.1 h
    cases h
    simp only [List.length_cons]
    omega
  · obtain ⟨_, _, h⟩ := Option.map_eq_some_iff.1 h
    cases h
    simp
  · cases h

/-- The text up to a closing double quote, and what follows it. -/
def basicBody (cs : List Char) : Option (List Char × List Char) :=
  match cs with
  | [] => none
  | c :: rest =>
    if c = '"' then some ([], rest)
    else if c = '\\' then
      match h : escape? rest with
      | some (char, rest') =>
        have : rest'.length < rest.length := length_lt_of_escape? h
        (basicBody rest').map fun (body, after) => (char :: body, after)
      | none => none
    else if isPlain c then (basicBody rest).map fun (body, after) => (c :: body, after)
    else none
  termination_by cs.length

/-- The text up to a closing single quote, and what follows it. -/
def literalBody : List Char → Option (List Char × List Char)
  | [] => none
  | c :: rest =>
    if c = '\'' then some ([], rest)
    else if isPlain c then (literalBody rest).map fun (body, after) => (c :: body, after)
    else none

/-- The text behind a backslash at the end of a line: the line end and all blank space after it do not
count. -/
def continuation? (cs : List Char) : Option (List Char) :=
  (lineEnd? (cs.dropWhile isInlineSpace)).map
    (·.dropWhile fun c => isInlineSpace c || c = '\n' || c = '\r')

theorem length_lt_of_lineEnd? {cs rest : List Char} (h : lineEnd? cs = some rest) :
    rest.length < cs.length := by
  unfold lineEnd? at h
  split at h <;> cases h <;> simp only [List.length_cons] <;> omega

theorem length_lt_of_continuation? {cs rest : List Char} (h : continuation? cs = some rest) :
    rest.length < cs.length := by
  obtain ⟨line, hline, rfl⟩ := Option.map_eq_some_iff.1 h
  have h1 := length_lt_of_lineEnd? hline
  have h2 := (List.dropWhile_sublist isInlineSpace (l := cs)).length_le
  have h3 := (List.dropWhile_sublist (fun c => isInlineSpace c || c = '\n' || c = '\r')
    (l := line)).length_le
  omega

/-- The quotes that end text of several lines, after those that belong to the text: the latter, and
what follows. -/
def closing? (quote : Char) (cs : List Char) : Option (List Char × List Char) :=
  let run := (cs.takeWhile (· = quote)).length
  if run < 3 then none
  else
    let inner := min (run - 3) 2
    some (List.replicate inner quote, cs.drop (inner + 3))

/-- The text up to three closing double quotes, and what follows them. -/
def basicLines (cs : List Char) : Option (List Char × List Char) :=
  match closing? '"' cs with
  | some found => some found
  | none =>
    match cs with
    | [] => none
    | c :: rest =>
      if c = '\\' then
        match h : continuation? rest with
        | some rest' =>
          have : rest'.length < rest.length := length_lt_of_continuation? h
          basicLines rest'
        | none =>
          match h : escape? rest with
          | some (char, rest') =>
            have : rest'.length < rest.length := length_lt_of_escape? h
            (basicLines rest').map fun (body, after) => (char :: body, after)
          | none => none
      else
        match h : lineEnd? (c :: rest) with
        | some rest' =>
          have : rest'.length ≤ rest.length := Nat.le_of_lt_succ (length_lt_of_lineEnd? h)
          (basicLines rest').map fun (body, after) => ('\n' :: body, after)
        | none =>
          if isPlain c then (basicLines rest).map fun (body, after) => (c :: body, after) else none
  termination_by cs.length

/-- The text up to three closing single quotes, and what follows them. -/
def literalLines (cs : List Char) : Option (List Char × List Char) :=
  match closing? '\'' cs with
  | some found => some found
  | none =>
    match cs with
    | [] => none
    | c :: rest =>
      match h : lineEnd? (c :: rest) with
      | some rest' =>
        have : rest'.length ≤ rest.length := Nat.le_of_lt_succ (length_lt_of_lineEnd? h)
        (literalLines rest').map fun (body, after) => ('\n' :: body, after)
      | none =>
        if isPlain c then (literalLines rest).map fun (body, after) => (c :: body, after) else none
  termination_by cs.length

/-- Leaves out a line end that the text starts with. -/
def dropLineEnd (cs : List Char) : List Char :=
  (lineEnd? cs).getD cs

/-- The quoted text of one line that a text starts with, and what follows it. -/
def quotedLine? : List Char → Option (List Char × List Char)
  | '"' :: rest => basicBody rest
  | '\'' :: rest => literalBody rest
  | _ => none

/-- The quoted text that a text starts with, and what follows it. -/
def quoted? : List Char → Option (List Char × List Char)
  | '"' :: '"' :: '"' :: rest => basicLines (dropLineEnd rest)
  | '\'' :: '\'' :: '\'' :: rest => literalLines (dropLineEnd rest)
  | cs => quotedLine? cs

end ApiProfile.Toml
