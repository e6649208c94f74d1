import ApiProfile.Proofs.Markup.Nesting
import ApiProfile.Proofs.Markup.RoundTrip
import Mathlib.Data.List.TakeWhile
/-!
# The lines of faults

A fault in a document comes with the text behind its place, and that is always an end of the document. So the bytes
that were read up to it are those of what stands in front, and its line is told by the line feeds there. A text that
stands before the first tag, blanks for instance, moves all places alike: it says nothing, whatever the document goes on
with.
-/

namespace ApiProfile.Text

/-! ## Bytes and lines -/

theorem byteLength_append (front rest : List Char) :
    byteLength (front ++ rest) = byteLength front + byteLength rest := by
  induction front with
  | nil => exact (Nat.zero_add _).symm
  | cons c front ih => rw [List.cons_append, byteLength, byteLength, ih, Nat.add_assoc]

theorem prefix_startingWithin (count : Nat) (text : List Char) : startingWithin count text <+: text := by
  induction text generalizing count with
  | nil => exact List.prefix_rfl
  | cons c rest ih =>
    rw [startingWithin]
    split
    · exact List.nil_prefix
    · exact List.cons_prefix_cons.2 ⟨rfl, ih _⟩

/-- No character has no bytes, so those within the bytes of a text are the ones of the text. -/
theorem startingWithin_byteLength (front rest : List Char) :
    startingWithin (byteLength front) (front ++ rest) = front := by
  induction front with
  | nil => cases rest <;> rfl
  | cons c front ih =>
    have hpos := c.utf8Size_pos
    rw [byteLength, List.cons_append, startingWithin, if_neg (by omega), Nat.add_sub_cancel_left, ih]

theorem lineAt_le (text : List Char) (count : Nat) : lineAt text count ≤ 1 + text.count '\n' :=
  Nat.add_le_add_left ((prefix_startingWithin count text).sublist.count_le '\n') 1

theorem lineAt_append (front rest : List Char) :
    lineAt (front ++ rest) (byteLength (front ++ rest) - byteLength rest) = 1 + front.count '\n' := by
  unfold lineAt
  rw [byteLength_append, Nat.add_sub_cancel, startingWithin_byteLength]

end ApiProfile.Text

namespace ApiProfile.Markup

/-! ## Ends of a document -/

/-- What stands behind a token or a break. -/
def Next.rest? : Next → Option (List Char)
  | .finished => none
  | .broken rest => some rest
  | .token _ rest => some rest

section Machines

variable {σ : Type} {step : σ → Char → Option σ} {state : σ}

theorem suffix_of_scan {acc cs read rest : List Char} (h : scan step state acc cs = some (read, rest)) :
    rest <:+ cs := by
  induction cs generalizing state acc with
  | nil => cases h
  | cons c cs ih =>
    rw [scan] at h
    split at h
    · cases h
      exact List.suffix_cons c _
    · exact (ih h).trans (List.suffix_cons c cs)

theorem suffix_of_ofScan {content? : List Char → Option Token} {cs rest : List Char}
    (h : (Next.ofScan content? (scan step state [] cs)).rest? = some rest) : rest <:+ cs := by
  unfold Next.ofScan at h
  split at h
  · cases h
    exact List.nil_suffix
  · rename_i hscan
    split at h <;> cases h <;> exact suffix_of_scan hscan

end Machines

theorem suffix_of_nextMarkup {cs rest : List Char} (h : (nextMarkup cs).rest? = some rest) : rest <:+ cs := by
  unfold nextMarkup at h
  split at h
  case h_1 =>
    cases h
    exact List.nil_suffix
  case h_6 =>
    cases h
    exact List.suffix_rfl
  all_goals exact suffix_of_ofScan h

theorem suffix_of_next {cs rest : List Char} (h : (next cs).rest? = some rest) : rest <:+ cs := by
  cases cs with
  | nil => cases h
  | cons c cs =>
    rw [next] at h
    split at h
    · exact (suffix_of_nextMarkup h).trans (List.suffix_cons c cs)
    · cases h
      exact (List.dropWhile_suffix _).trans (List.suffix_cons c cs)

/-- What stands behind the place of a fault is an end of the text. -/
theorem suffix_of_parseFrom {b : Builder} {cs rest : List Char} {fault : Failure}
    (h : parseFrom b cs = .error (fault, rest)) : rest <:+ cs := by
  -- each token leaves a shorter text
  induction hn : cs.length using Nat.strongRecOn generalizing b cs with
  | ind n ih =>
    cases hnext : next cs with
    | finished =>
      rw [parseFrom_finished hnext] at h
      cases hfinish : b.finish with
      | ok e =>
        rw [hfinish] at h
        cases h
      | error fault =>
        rw [hfinish] at h
        cases h
        exact List.nil_suffix
    | broken after =>
      rw [parseFrom_broken hnext] at h
      cases h
      exact suffix_of_next (congrArg Next.rest? hnext)
    | token token after =>
      have hafter : after <:+ cs := suffix_of_next (congrArg Next.rest? hnext)
      cases hstep : b.step token with
      | error fault =>
        rw [parseFrom_refused hnext hstep] at h
        cases h
        exact hafter
      | ok b' =>
        rw [parseFrom_token hnext hstep] at h
        exact (ih after.length (hn ▸ length_lt_of_next hnext) h rfl).trans hafter

/-! ## Text before the first tag -/

theorem exists_text_before_tag (cs : List Char) :
    ∃ text rest, text ++ rest = cs ∧ (∀ c ∈ text, c ≠ '<') ∧ ∀ c ∈ rest.head?, c = '<' := by
  refine ⟨cs.takeWhile (· ≠ '<'), cs.dropWhile (· ≠ '<'), List.takeWhile_append_dropWhile, fun c hc => ?_,
    fun c hc => ?_⟩
  · simpa using List.mem_takeWhile_imp hc
  · have hstop := List.head?_dropWhile_not (· ≠ '<') cs
    rw [Option.mem_def.1 hc] at hstop
    simpa using hstop

/-- Text in front of a document says nothing, also if the document starts with text that it runs into. -/
theorem parseFrom_append {raw : List Char} (hraw : ∀ c ∈ raw, c ≠ '<') (root : Option Element) (cs : List Char) :
    parseFrom ⟨[], root⟩ (raw ++ cs) = parseFrom ⟨[], root⟩ cs := by
  obtain ⟨text, rest, hsplit, htext, hrest⟩ := exists_text_before_tag cs
  calc parseFrom ⟨[], root⟩ (raw ++ cs)
      = parseFrom ⟨[], root⟩ ((raw ++ text) ++ rest) := by rw [List.append_assoc, hsplit]
    _ = parseFrom ⟨[], root⟩ rest := parseFrom_outside (List.forall_mem_append.2 ⟨hraw, htext⟩) hrest root
    _ = parseFrom ⟨[], root⟩ (text ++ rest) := (parseFrom_outside htext hrest root).symm
    _ = parseFrom ⟨[], root⟩ cs := by rw [hsplit]

theorem ne_open_of_isBlank {c : Char} (h : Text.isBlank c) : c ≠ '<' := by
  rintro rfl
  exact absurd h (by decide)

/-! ## Documents -/

namespace Element

variable {document : String} {text : List Char}

theorem ofDocument_of_ok (htext : document.toList = text) (hmark : text.head? ≠ some '\uFEFF') {e : Element}
    (h : parseFrom .start text = .ok e) : ofDocument document = .ok e := by
  rw [ofDocument_of_toList htext, Text.dropByteOrderMark_of_head? hmark, ofTokens_eq, h]

/-- A fault is placed on the line on which the text in front of its place ends. -/
theorem ofDocument_of_error {front rest : List Char} (htext : document.toList = front ++ rest)
    (hmark : (front ++ rest).head? ≠ some '\uFEFF') {fault : Failure}
    (h : parseFrom .start (front ++ rest) = .error (fault, rest)) :
    ofDocument document = .error (.atLine (1 + front.count '\n') fault) := by
  rw [ofDocument_of_toList htext, Text.dropByteOrderMark_of_head? hmark, ofTokens_eq, h]
  dsimp only
  rw [Text.lineAt_append]

theorem exists_count_of_error {fault : Failure} (h : ofDocument document = .error fault) :
    ∃ count cause, fault = .atLine (Text.lineAt document.toList count) cause := by
  unfold ofDocument at h
  dsimp only at h
  split at h <;> cases h
  exact ⟨_, _, rfl⟩

/-- What is wrong with a document that is refused is found by the reader, or in the attributes of a tag, or in the
outline. -/
theorem cause_of_error {line : Nat} {cause : Failure} (h : ofDocument document = .error (.atLine line cause)) :
    cause = .badAttribute ∨ cause = .badMarkup ∨ ∃ message, cause = .malformedDocument message := by
  rcases ofDocument_cases document with ⟨e, he, -, -⟩ | ⟨o, line', message, -, hfault, -⟩ |
    ⟨line', fault, hfault, -, hplain⟩
  · cases he.symm.trans h
  · cases hfault.symm.trans h
    exact .inr (.inr ⟨message, rfl⟩)
  · cases hfault.symm.trans h
    exact hplain.imp_right .inl

/-- A document is refused with one line, which is a line of the document. Blanks in front of a document leave its tree
and what is wrong with it as they are; a line is greater by as many as they have line feeds. -/
theorem ofDocument_lines (document : String) :
    (∀ fault, ofDocument document = .error fault →
      ∃ line cause, fault = .atLine line cause ∧ 1 ≤ line ∧ line ≤ 1 + document.toList.count '\n' ∧
        (cause = .badAttribute ∨ cause = .badMarkup ∨ ∃ message, cause = .malformedDocument message)) ∧
    ∀ blanks : String, (∀ c ∈ blanks.toList, Text.isBlank c) → document.toList.head? ≠ some '\uFEFF' →
      (∀ e, ofDocument document = .ok e → ofDocument (blanks ++ document) = .ok e) ∧
      ∀ line cause, ofDocument document = .error (.atLine line cause) →
        ofDocument (blanks ++ document) = .error (.atLine (line + blanks.toList.count '\n') cause) := by
  refine ⟨fun fault h => ?_, fun blanks hblanks hmark => ?_⟩
  · obtain ⟨count, cause, rfl⟩ := exists_count_of_error h
    exact ⟨_, cause, rfl, Nat.le_add_right 1 _, Text.lineAt_le _ count, cause_of_error h⟩
  · have htext : (blanks ++ document).toList = blanks.toList ++ document.toList := String.toList_append
    have hparse : parseFrom .start (blanks.toList ++ document.toList) = parseFrom .start document.toList :=
      parseFrom_append (fun c hc => ne_open_of_isBlank (hblanks c hc)) none document.toList
    have hmark' : (blanks.toList ++ document.toList).head? ≠ some '\uFEFF' := by
      intro hhead
      rw [List.head?_append, Option.or_eq_some_iff] at hhead
      rcases hhead with hblank | ⟨-, hdocument⟩
      · exact absurd (hblanks '\uFEFF' (List.mem_of_head? hblank)) (by decide)
      · exact hmark hdocument
    cases hresult : parseFrom .start document.toList with
    | ok found =>
      have hread := ofDocument_of_ok rfl hmark hresult
      have hread' := ofDocument_of_ok htext hmark' (hparse.trans hresult)
      rw [hread, hread']
      exact ⟨fun e he => he, nofun⟩
    | error fault =>
      obtain ⟨fault, rest⟩ := fault
      obtain ⟨front, hfront⟩ := suffix_of_parseFrom hresult
      rw [← hfront] at hmark hmark' hparse hresult htext
      rw [← List.append_assoc] at hmark' hparse htext
      have hread := ofDocument_of_error hfront.symm hmark hresult
      have hread' := ofDocument_of_error htext hmark' (hparse.trans hresult)
      rw [hread, hread', List.count_append]
      refine ⟨nofun, fun line cause h => ?_⟩
      cases h
      rw [Nat.add_assoc, Nat.add_comm (List.count '\n' front)]

/-- A closing tag on the second line that no opening tag goes with, behind text that blanks run into. -/
theorem ofDocument_lines_misplaced :
    ofDocument "x<a>\n</b>" = .error (.atLine 2 .badMarkup) ∧
      ofDocument ("\n \n" ++ "x<a>\n</b>") = .error (.atLine 4 .badMarkup) := by
  have hplain : ofDocument "x<a>\n</b>" = .error (.atLine 2 .badMarkup) := by
    have hresult : parseFrom .start ("x<a>\n</b>".toList ++ []) = .error (.badMarkup, []) := by decide +kernel
    exact ofDocument_of_error (List.append_nil _).symm (by decide) hresult
  exact ⟨hplain, ((ofDocument_lines "x<a>\n</b>").2 "\n \n" (by decide) (by decide)).2 2 .badMarkup hplain⟩

end Element

end ApiProfile.Markup
