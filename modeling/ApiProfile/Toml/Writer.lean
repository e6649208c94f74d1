/-!
# Writing settings files

Writes texts and lists of texts as a TOML file of sections. A text stands between double quotes, and
between single or three quotes where that saves escapes. A text with line ends stands between three
quotes and on lines of its own. A list of several texts has one to a line.
-/

namespace ApiProfile.Toml

/-! ## Texts -/

/-- The length of the longest run of a character. -/
def longestRun (char : Char) : (run longest : Nat) → List Char → Nat
  | run, longest, [] => max run longest
  | run, longest, c :: rest =>
    if c = char then longestRun char (run + 1) longest rest
    else longestRun char 0 (max run longest) rest

/-- The quotes that a text may stand between: double ones, between which escapes are read, and single
ones, between which they are not. Three quotes admit line ends and shorter runs of quotes. -/
inductive Quotes
  | double
  | single
  | threeDouble
  | threeSingle
  deriving DecidableEq, Repr, Inhabited

namespace Quotes

def isThree : Quotes → Bool
  | double | single => false
  | threeDouble | threeSingle => true

def hasEscapes : Quotes → Bool
  | double | threeDouble => true
  | single | threeSingle => false

def mark (quotes : Quotes) : Char :=
  if quotes.hasEscapes then '"' else '\''

def text (quotes : Quotes) : List Char :=
  List.replicate (if quotes.isThree then 3 else 1) quotes.mark

/-- How many marks may stand in a row inside of the quotes. -/
def allowance (quotes : Quotes) : Nat :=
  if quotes.isThree then 2 else 0

/-- Whether a text can stand between the quotes as it is. Control characters other than tabs and line
ends cannot. -/
def suit (quotes : Quotes) (text : List Char) : Bool :=
  text.all (fun c => c = '\t' || c = '\n' || (32 ≤ c.toNat && c.toNat ≠ 127))
    && (quotes.isThree || '\n' ∉ text)
    && (!quotes.hasEscapes || '\\' ∉ text)
    && longestRun quotes.mark 0 0 text ≤ quotes.allowance

/-- The quotes of a text: the first that suit it, or else double ones, three if it has line ends. -/
def ofText (text : List Char) : Quotes :=
  match [double, single, threeDouble, threeSingle].find? (suit · text) with
  | some quotes => quotes
  | none => if '\n' ∈ text then threeDouble else double

end Quotes

/-- Four hexadecimal digits of a code point. -/
def hexCode (c : Char) : List Char :=
  [c.toNat / 4096 % 16, c.toNat / 256 % 16, c.toNat / 16 % 16, c.toNat % 16].map fun digit =>
    digit.digitChar.toUpper

/-- A character other than a quote as it stands between double quotes; line feeds stay when the quotes
are three. -/
def escapeIn (threefold : Bool) (c : Char) : List Char :=
  if c = '\\' then ['\\', '\\']
  else if c = '\n' then if threefold then ['\n'] else ['\\', 'n']
  else if c = '\r' then ['\\', 'r']
  else if c = '\t' then ['\\', 't']
  else if c.toNat = 8 then ['\\', 'b']
  else if c.toNat = 12 then ['\\', 'f']
  else if c.toNat < 32 ∨ c.toNat = 127 then '\\' :: 'u' :: hexCode c
  else [c]

/-- A text as it stands between double quotes. `run` counts the quotes just before it that have no
escape; one that would make a run too long has one. -/
def escapeFrom (quotes : Quotes) : (run : Nat) → List Char → List Char
  | _, [] => []
  | run, c :: rest =>
    if c = '"' then
      if run < quotes.allowance then c :: escapeFrom quotes (run + 1) rest
      else '\\' :: c :: escapeFrom quotes 0 rest
    else escapeIn quotes.isThree c ++ escapeFrom quotes 0 rest

/-- A text in quotes. Behind three quotes it starts on a line of its own if it has several. -/
def quote (text : List Char) : List Char :=
  let quotes := Quotes.ofText text
  let start := if quotes.isThree && '\n' ∈ text then ['\n'] else []
  let inner := if quotes.hasEscapes then escapeFrom quotes 0 text else text
  quotes.text ++ start ++ inner ++ quotes.text

/-! ## Sections -/

inductive Written
  | text (value : String)
  | texts (values : List String)
  deriving DecidableEq, Repr, Inhabited

def Written.render : Written → List Char
  | text value => quote value.toList
  | texts [] => ['[', ']']
  | texts [value] => '[' :: quote value.toList ++ [']']
  | texts values =>
    '[' :: '\n' :: (values.flatMap fun value => "    ".toList ++ quote value.toList ++ [',', '\n'])
      ++ [']']

/-- Where the settings of a section belong: to the file, to a table, or to a new item of a list of
tables. -/
inductive Title
  | none
  | table (name : String)
  | item (name : String)
  deriving DecidableEq, Repr, Inhabited

/-- Settings under a title. -/
structure Section where
  title : Title
  settings : List (String × Written)
  deriving DecidableEq, Repr, Inhabited

def Title.render : Title → List Char
  | none => []
  | table name => '[' :: name.toList ++ [']', '\n']
  | item name => '[' :: '[' :: name.toList ++ [']', ']', '\n']

/-- The lines of a section; the names of its settings need no quotes. -/
def Section.render (s : Section) : List Char :=
  s.title.render ++ s.settings.flatMap fun (name, value) =>
    name.toList ++ ' ' :: '=' :: ' ' :: value.render ++ ['\n']

/-- The text of a file: its sections with a blank line between them. -/
def render (sections : List Section) : String :=
  String.ofList (['\n'].intercalate (sections.map Section.render))

end ApiProfile.Toml
