import ApiProfile.Markup.Document
/-!
# Building step by step

Reading a document cuts it into tokens first and takes them in one by one afterwards. `parseFrom` does both
from any state of the builder on, so that one token after another can be taken off the text.
-/

namespace ApiProfile.Markup

/-! ## Tokens -/

theorem tokensAfter_finished {cs : List Char} (h : next cs = .finished) (read : List (Token × List Char)) :
    tokensAfter read cs = ⟨read.reverse, none⟩ := by
  rw [tokensAfter]
  split <;> rename_i heq <;> rw [h] at heq <;> first | rfl | cases heq

theorem tokensAfter_broken {cs rest : List Char} (h : next cs = .broken rest) (read : List (Token × List Char)) :
    tokensAfter read cs = ⟨read.reverse, some rest⟩ := by
  rw [tokensAfter]
  split <;> rename_i heq <;> rw [h] at heq <;> cases heq
  rfl

theorem tokensAfter_token {cs rest : List Char} {token : Token} (h : next cs = .token token rest)
    (read : List (Token × List Char)) : tokensAfter read cs = tokensAfter ((token, rest) :: read) rest := by
  rw [tokensAfter]
  split <;> rename_i heq <;> rw [h] at heq <;> cases heq
  rfl

/-- What was read before stands before what is read. -/
theorem tokensAfter_eq (read : List (Token × List Char)) (cs : List Char) :
    tokensAfter read cs = ⟨read.reverse ++ (tokens cs).list, (tokens cs).broken⟩ := by
  -- each token leaves a shorter text
  induction hn : cs.length using Nat.strongRecOn generalizing read cs with
  | ind n ih =>
    unfold tokens
    cases h : next cs with
    | finished => rw [tokensAfter_finished h, tokensAfter_finished h, List.reverse_nil, List.append_nil]
    | broken rest => rw [tokensAfter_broken h, tokensAfter_broken h, List.reverse_nil, List.append_nil]
    | token token rest =>
      have hlt : rest.length < n := hn ▸ length_lt_of_next h
      rw [tokensAfter_token h, tokensAfter_token h, ih _ hlt _ rest rfl, ih _ hlt _ rest rfl]
      simp

theorem tokens_of_token {cs rest : List Char} {token : Token} (h : next cs = .token token rest) :
    tokens cs = ⟨(token, rest) :: (tokens rest).list, (tokens rest).broken⟩ := by
  unfold tokens
  rw [tokensAfter_token h, tokensAfter_eq]
  rfl

/-! ## The builder -/

/-- Reads a text from a state of the builder on. -/
def parseFrom (b : Builder) (cs : List Char) : Except (Failure × List Char) Element :=
  match b.run (tokens cs).list with
  | .error fault => .error fault
  | .ok b =>
    match (tokens cs).broken with
    | some rest => .error (.badMarkup, rest)
    | none =>
      match b.finish with
      | .ok e => .ok e
      | .error fault => .error (fault, [])

theorem Element.ofTokens_eq (cs : List Char) : ofTokens (tokens cs) = parseFrom .start cs := rfl

theorem parseFrom_token {b b' : Builder} {cs rest : List Char} {token : Token} (h : next cs = .token token rest)
    (hstep : b.step token = .ok b') : parseFrom b cs = parseFrom b' rest := by
  unfold parseFrom
  rw [tokens_of_token h]
  dsimp only
  rw [Builder.run, hstep]

theorem parseFrom_refused {b : Builder} {cs rest : List Char} {token : Token} {fault : Failure}
    (h : next cs = .token token rest) (hstep : b.step token = .error fault) : parseFrom b cs = .error (fault, rest) := by
  unfold parseFrom
  rw [tokens_of_token h]
  dsimp only
  rw [Builder.run, hstep]

theorem parseFrom_broken {cs rest : List Char} (h : next cs = .broken rest) (b : Builder) :
    parseFrom b cs = .error (.badMarkup, rest) := by
  unfold parseFrom tokens
  rw [tokensAfter_broken h]
  rfl

theorem parseFrom_finished {cs : List Char} (h : next cs = .finished) (b : Builder) :
    parseFrom b cs = b.finish.mapError fun fault => (fault, []) := by
  unfold parseFrom tokens
  rw [tokensAfter_finished h]
  dsimp only [List.reverse_nil, Builder.run]
  cases b.finish <;> rfl

theorem parseFrom_end (e : Element) : parseFrom ⟨[], some e⟩ [] = .ok e := by
  rw [parseFrom_finished rfl]
  rfl

/-- The characters of a text that is written in four lines. -/
theorem toList_fourLines (a b c d : List Char) :
    (String.ofList a ++ String.ofList b ++ String.ofList c ++ String.ofList d).toList = a ++ b ++ c ++ d := by
  simp only [String.toList_append, String.toList_ofList]

/-- A document is read by its characters alone. -/
theorem Element.ofDocument_of_toList {document : String} {text : List Char}
    (h : document.toList = text) :
    ofDocument document =
      match ofTokens (tokens (Text.dropByteOrderMark text)) with
      | .ok e => .ok e
      | .error (fault, rest) => .error (.atLine (Text.lineAt text
          (Text.byteLength (Text.dropByteOrderMark text) - Text.byteLength rest)) fault) := by
  subst h
  rfl

end ApiProfile.Markup
