/-!
# Tokens of a marked-up document

A document is cut into tokens: runs of text, tags, character data sections and asides (comments,
instructions, declarations and document types). A token is known by how it starts, and ends at the
first place where a small state machine, run over its characters, stops. `tokens` cuts a whole
document; a start without an end breaks it off there. Each token comes with the text that follows
it, which says where it ends.
-/

namespace ApiProfile.Markup

/-- A piece of a document. The content of a tag is what stands between its brackets, without the
slash that marks it as closing or empty. -/
inductive Token
  | text (raw : List Char)
  | cdata (content : List Char)
  | aside
  | openTag (content : List Char)
  | emptyTag (content : List Char)
  | closeTag (content : List Char)
  deriving DecidableEq, Repr

/-- The blanks of markup. -/
def isSpace (c : Char) : Bool :=
  c = ' ' || c = '\t' || c = '\r' || c = '\n'

/-! ## Ends of tokens -/

/-- Runs a machine over the text. It stops at the character that has no next state; the characters
before that one and those after it are the result. `read` holds what was read, newest first. -/
def scan {σ : Type} (step : σ → Char → Option σ) :
    σ → (read : List Char) → List Char → Option (List Char × List Char)
  | _, _, [] => none
  | state, read, c :: rest =>
    match step state c with
    | none => some (read.reverse, rest)
    | some next => scan step next (c :: read) rest

theorem length_lt_of_scan {σ : Type} {step : σ → Char → Option σ} {state : σ}
    {acc cs read rest : List Char} (h : scan step state acc cs = some (read, rest)) :
    rest.length < cs.length := by
  induction cs generalizing state acc with
  | nil => simp [scan] at h
  | cons c cs ih =>
    simp only [scan] at h
    split at h
    · simp only [Option.some.injEq, Prod.mk.injEq] at h
      simp [h.2]
    · exact Nat.lt_succ_of_lt (ih h)

/-- A tag ends at the first `>` outside quotes; the state is the open quote. -/
def tagStep : Option Char → Char → Option (Option Char)
  | none, c => if c = '>' then none else if c = '\'' ∨ c = '"' then some (some c) else some none
  | some quote, c => if c = quote then some none else some (some quote)

/-- A character data section ends at the first `>` after two `]`; the state counts them. -/
def cdataStep (closing : Nat) (c : Char) : Option Nat :=
  if c = '>' ∧ 2 ≤ closing then none else if c = ']' then some (closing + 1) else some 0

/-- A comment ends at a `>` after two hyphens, once five characters have been read; the state counts
hyphens and characters. -/
def commentStep (state : Nat × Nat) (c : Char) : Option (Nat × Nat) :=
  if c = '>' ∧ 2 ≤ state.1 ∧ 5 ≤ state.2 then none
  else if c = '-' then some (state.1 + 1, state.2 + 1)
  else some (0, state.2 + 1)

/-- An instruction ends at the first `>` after a `?`; the state tells whether one stood before. -/
def instructionStep (mark : Bool) (c : Char) : Option Bool :=
  if c = '>' ∧ mark then none else some (c = '?')

/-- A document type ends at the `>` that matches its own bracket; the state counts the others. -/
def doctypeStep (depth : Nat) (c : Char) : Option Nat :=
  if c = '<' then some (depth + 1)
  else if c = '>' then (if depth = 0 then none else some (depth - 1))
  else some depth

/-! ## The next token -/

/-- What a document goes on with: nothing, a token, or a start that breaks it. A break is placed by
the text behind it. -/
inductive Next
  | finished
  | broken (rest : List Char)
  | token (token : Token) (rest : List Char)
  deriving DecidableEq, Repr

/-- Makes a token of what was read up to its end; a start without end breaks the document at the end
of the text, and a wrong content right behind the token. -/
def Next.ofScan (content? : List Char → Option Token) : Option (List Char × List Char) → Next
  | none => .broken []
  | some (read, rest) =>
    match content? read with
    | some found => .token found rest
    | none => .broken rest

/-- A character data section, read from the `!` on. -/
def cdata? (read : List Char) : Option Token :=
  if "![CDATA[".toList.isPrefixOf read then some (.cdata ((read.drop 8).dropLast.dropLast)) else none

/-- A comment, read from the `!` on. -/
def comment? (read : List Char) : Option Token :=
  if "!--".toList.isPrefixOf read then some .aside else none

/-- A document type, read from the `!` on: the keyword in any case, and something behind it. -/
def doctype? (read : List Char) : Option Token :=
  if (read.take 8).map Char.toUpper = "!DOCTYPE".toList ∧ (read.drop 8).any (!isSpace ·)
  then some .aside else none

/-- An instruction or declaration, read from the first `?` on: the last `?` is another one. -/
def instruction? (read : List Char) : Option Token :=
  if 2 ≤ read.length then some .aside else none

/-- The name in a closing tag ends before the blanks at its end; blanks alone stay. -/
def closingName (content : List Char) : List Char :=
  match content.reverse.dropWhile isSpace with
  | [] => content
  | kept => kept.reverse

/-- A tag, read from behind its `<`. -/
def tag? : List Char → Option Token
  | '/' :: name => some (.closeTag (closingName name))
  | content =>
    if content.getLast? = some '/' then some (.emptyTag content.dropLast) else some (.openTag content)

/-- What the text behind a `<` goes on with. -/
def nextMarkup (cs : List Char) : Next :=
  match cs with
  | [] => .broken []
  | '!' :: '[' :: _ => .ofScan cdata? (scan cdataStep 0 [] cs)
  | '!' :: '-' :: _ => .ofScan comment? (scan commentStep (0, 0) [] cs)
  | '!' :: 'D' :: _ | '!' :: 'd' :: _ => .ofScan doctype? (scan doctypeStep 0 [] cs)
  | '!' :: _ => .broken cs
  | '?' :: _ => .ofScan instruction? (scan instructionStep false [] cs)
  | _ => .ofScan tag? (scan tagStep none [] cs)

/-- What a text goes on with: text runs to the next `<`. -/
def next : List Char → Next
  | [] => .finished
  | c :: cs =>
    if c = '<' then nextMarkup cs
    else .token (.text (c :: cs.takeWhile (· ≠ '<'))) (cs.dropWhile (· ≠ '<'))

theorem length_lt_of_ofScan {σ : Type} {step : σ → Char → Option σ} {state : σ}
    {content? : List Char → Option Token} {cs rest : List Char} {token : Token}
    (h : Next.ofScan content? (scan step state [] cs) = .token token rest) :
    rest.length < cs.length := by
  cases hs : scan step state [] cs with
  | none => simp [hs, Next.ofScan] at h
  | some found =>
    obtain ⟨read, after⟩ := found
    simp only [hs, Next.ofScan] at h
    split at h
    · obtain ⟨-, rfl⟩ := Next.token.injEq .. ▸ h
      exact length_lt_of_scan hs
    · cases h

theorem length_lt_of_next {cs rest : List Char} {token : Token}
    (h : next cs = .token token rest) : rest.length < cs.length := by
  cases cs with
  | nil => simp [next] at h
  | cons c cs =>
    simp only [next] at h
    split at h
    · refine Nat.lt_succ_of_lt ?_
      simp only [nextMarkup] at h
      split at h
      all_goals first | exact length_lt_of_ofScan h | cases h
    · obtain ⟨-, rfl⟩ := Next.token.injEq .. ▸ h
      exact Nat.lt_succ_of_le (List.dropWhile_sublist _).length_le

/-! ## All tokens -/

/-- The tokens of a text, each with the text that follows it, and where the text broke off. -/
structure Tokens where
  list : List (Token × List Char)
  broken : Option (List Char)
  deriving DecidableEq, Repr

/-- Adds the tokens of a text to those read before, which come newest first. -/
def tokensAfter (read : List (Token × List Char)) (cs : List Char) : Tokens :=
  match h : next cs with
  | .finished => ⟨read.reverse, none⟩
  | .broken rest => ⟨read.reverse, some rest⟩
  | .token token rest =>
    have : rest.length < cs.length := length_lt_of_next h
    tokensAfter ((token, rest) :: read) rest
  termination_by cs.length

def tokens (cs : List Char) : Tokens :=
  tokensAfter [] cs

end ApiProfile.Markup
