import ApiProfile.Toml.Quoted
import ApiProfile.Toml.Writer
import Mathlib.Data.List.TakeWhile
/-!
# Quoted text is read back

A text is written between quotes of one of four kinds. Between double quotes characters may stand behind a backslash,
between single ones each stands for itself, and between three quotes runs of up to two quotes may stand. Whatever the
text and its quotes are, the reader gives it back, and what follows (`quoted?_quote`).
-/

namespace ApiProfile.Toml

/-! ## Characters between double quotes -/

/-- How a character is written: as it is, as a line feed between three quotes, or behind a backslash. -/
inductive StandsFor (threefold : Bool) (c : Char) : List Char → Prop
  | itself (hplain : isPlain c) (hmark : c ≠ '\\') : StandsFor threefold c [c]
  | lineFeed (hthree : threefold = true) (hc : c = '\n') : StandsFor threefold c ['\n']
  | escape {mark : Char} {code : List Char} (hmark : ∀ rest, continuation? (mark :: (code ++ rest)) = none)
      (h : ∀ rest, escape? (mark :: (code ++ rest)) = some (c, rest)) : StandsFor threefold c ('\\' :: mark :: code)

theorem codePoint?_hexCode : ∀ n < 128, codePoint? (hexCode (Char.ofNat n)) = some (Char.ofNat n) := by
  decide +kernel

theorem standsFor_escapeIn (threefold : Bool) (c : Char) : StandsFor threefold c (escapeIn threefold c) := by
  have hcode : ∀ n, c.toNat = n → Char.ofNat n = c := fun n hn => by rw [← hn, Char.ofNat_toNat]
  unfold escapeIn
  split
  · rename_i h
    exact .escape (fun _ => rfl) fun rest => by rw [h]; rfl
  · rename_i hbackslash
    split
    · rename_i h
      split
      · exact .lineFeed ‹_› h
      · exact .escape (fun _ => rfl) fun rest => by rw [h]; rfl
    split
    · rename_i h
      exact .escape (fun _ => rfl) fun rest => by rw [h]; rfl
    split
    · rename_i h
      exact .escape (fun _ => rfl) fun rest => by rw [h]; rfl
    split
    · rename_i h
      exact .escape (fun _ => rfl) fun rest => by rw [← hcode 8 h]; rfl
    split
    · rename_i h
      exact .escape (fun _ => rfl) fun rest => by rw [← hcode 12 h]; rfl
    split
    · rename_i h
      have hchar := codePoint?_hexCode c.toNat (by omega)
      rw [hcode c.toNat rfl] at hchar
      exact .escape (fun _ => rfl) fun rest => congrArg (Option.map fun char => (char, rest)) hchar
    · rename_i h
      refine .itself ?_ hbackslash
      unfold isPlain
      simp only [Bool.or_eq_true, Bool.and_eq_true, decide_eq_true_eq]
      omega

/-! ## One line -/

theorem basicBody_itself {c : Char} (hquote : c ≠ '"') (hmark : c ≠ '\\') (hplain : isPlain c) (cs : List Char) :
    basicBody (c :: cs) = (basicBody cs).map fun (body, after) => (c :: body, after) := by
  rw [basicBody, if_neg hquote, if_neg hmark, if_pos hplain]

theorem basicBody_escape {cs rest : List Char} {c : Char} (h : escape? cs = some (c, rest)) :
    basicBody ('\\' :: cs) = (basicBody rest).map fun (body, after) => (c :: body, after) := by
  rw [basicBody, if_neg (by decide), if_pos rfl]
  split
  · rename_i char rest' heq
    cases h.symm.trans heq
    rfl
  · rename_i heq
    cases h.symm.trans heq

theorem basicBody_escapeFrom (text rest : List Char) :
    basicBody (escapeFrom .double 0 text ++ '"' :: rest) = some (text, rest) := by
  induction text with
  | nil => rw [escapeFrom, List.nil_append, basicBody, if_pos rfl]
  | cons c text ih =>
    rw [escapeFrom]
    split
    · rename_i hquote
      rw [if_neg (by decide), hquote, List.cons_append, List.cons_append, basicBody_escape rfl, ih]
      rfl
    · rename_i hquote
      have hshown := standsFor_escapeIn Quotes.double.isThree c
      generalize escapeIn Quotes.double.isThree c = shown at hshown
      rw [List.append_assoc]
      cases hshown with
      | itself hplain hmark => rw [List.singleton_append, basicBody_itself hquote hmark hplain, ih]; rfl
      | lineFeed hthree => cases hthree
      | escape _ h => rw [List.cons_append, List.cons_append, basicBody_escape (h _), ih]; rfl

theorem literalBody_append {text : List Char} (hplain : ∀ c ∈ text, isPlain c) (hquote : '\'' ∉ text)
    (rest : List Char) : literalBody (text ++ '\'' :: rest) = some (text, rest) := by
  induction text with
  | nil => rfl
  | cons c text ih =>
    rw [List.cons_append, literalBody, if_neg fun h => hquote (by rw [h]; exact .head text),
      if_pos (hplain c (.head text)), ih (fun d hd => hplain d (.tail c hd)) fun h => hquote (.tail c h)]
    rfl

/-! ## Closing quotes -/

section Closing

variable {mark : Char}

theorem closing?_of_short {cs : List Char} (h : (cs.takeWhile (· = mark)).length < 3) : closing? mark cs = none := by
  unfold closing?
  rw [if_pos h]

theorem closing?_cons {c : Char} (hc : c ≠ mark) (cs : List Char) : closing? mark (c :: cs) = none := by
  apply closing?_of_short
  rw [List.takeWhile_cons_of_neg (by simpa using hc)]
  decide

/-- Up to two quotes before the closing ones belong to the text. -/
theorem closing?_replicate {count : Nat} (hcount : count ≤ 2) {rest : List Char} (hrest : rest.head? ≠ some mark) :
    closing? mark (List.replicate count mark ++ mark :: mark :: mark :: rest) =
      some (List.replicate count mark, rest) := by
  have hruns : List.replicate count mark ++ mark :: mark :: mark :: rest =
      List.replicate (count + 3) mark ++ rest := by
    rw [← List.replicate_append_replicate, List.append_assoc]
    rfl
  have hstop : rest.takeWhile (· = mark) = [] := by
    cases rest with
    | nil => rfl
    | cons c rest => rw [List.takeWhile_cons_of_neg (by simpa using hrest)]
  unfold closing?
  rw [hruns, List.takeWhile_append_of_pos (by simp), hstop, List.append_nil, List.length_replicate]
  dsimp only
  rw [if_neg (by omega), show min (count + 3 - 3) 2 = count by omega, List.drop_left' (by simp)]

end Closing

/-! ## Several lines -/

theorem lineEnd?_cons {c : Char} (hfeed : c ≠ '\n') (hreturn : c ≠ '\r') (cs : List Char) :
    lineEnd? (c :: cs) = none := by
  unfold lineEnd?
  split
  · rename_i heq
    cases heq
    exact absurd rfl hfeed
  · rename_i heq
    cases heq
    exact absurd rfl hreturn
  · rfl

theorem lineEnd?_of_isPlain {c : Char} (h : isPlain c) (cs : List Char) : lineEnd? (c :: cs) = none := by
  apply lineEnd?_cons <;> rintro rfl <;> exact absurd h (by decide)

theorem basicLines_closing {cs : List Char} {found : List Char × List Char} (h : closing? '"' cs = some found) :
    basicLines cs = some found := by
  rw [basicLines.eq_def, h]

theorem basicLines_itself {c : Char} {cs : List Char} (hclosing : closing? '"' (c :: cs) = none) (hmark : c ≠ '\\')
    (hplain : isPlain c) : basicLines (c :: cs) = (basicLines cs).map fun (body, after) => (c :: body, after) := by
  rw [basicLines, hclosing]
  dsimp only
  rw [if_neg hmark]
  split
  · rename_i heq
    cases (lineEnd?_of_isPlain hplain cs).symm.trans heq
  · rw [if_pos hplain]

theorem basicLines_lineFeed (cs : List Char) :
    basicLines ('\n' :: cs) = (basicLines cs).map fun (body, after) => ('\n' :: body, after) := by
  rw [basicLines, closing?_cons (by decide)]
  dsimp only
  rw [if_neg (by decide)]
  split
  · rename_i heq
    cases heq
    rfl
  · rename_i heq
    cases heq

theorem basicLines_escape {cs rest : List Char} {c : Char} (hmark : continuation? cs = none)
    (h : escape? cs = some (c, rest)) :
    basicLines ('\\' :: cs) = (basicLines rest).map fun (body, after) => (c :: body, after) := by
  rw [basicLines, closing?_cons (by decide)]
  dsimp only
  rw [if_pos rfl]
  split
  · rename_i heq
    cases hmark.symm.trans heq
  · split
    · rename_i heq
      cases h.symm.trans heq
      rfl
    · rename_i heq
      cases h.symm.trans heq

/-- Before three closing quotes, either a text of at most two quotes is left, or a quote too few for the end. -/
theorem run_escapeFrom (text tail : List Char) {run : Nat} (hrun : run ≤ 2) :
    (∃ count, run + count ≤ 2 ∧ text = List.replicate count '"' ∧
      escapeFrom .threeDouble run text = List.replicate count '"') ∨
    ((escapeFrom .threeDouble run text ++ tail).takeWhile (· = '"')).length + run < 3 := by
  induction text generalizing run with
  | nil => exact .inl ⟨0, hrun, rfl, rfl⟩
  | cons c text ih =>
    rw [escapeFrom]
    split
    · rename_i hquote
      split
      · rename_i hfew
        have hfew : run < 2 := hfew
        subst hquote
        rcases ih (show run + 1 ≤ 2 by omega) with ⟨count, hcount, htext, hshown⟩ | hshort
        · refine .inl ⟨count + 1, by omega, ?_, ?_⟩
          · rw [htext, List.replicate_succ]
          · rw [hshown, List.replicate_succ]
        · right
          rw [List.cons_append, List.takeWhile_cons_of_pos (by simp), List.length_cons]
          omega
      · right
        rw [List.cons_append, List.takeWhile_cons_of_neg (by simp), List.length_nil]
        omega
    · rename_i hquote
      right
      have hshown := standsFor_escapeIn Quotes.threeDouble.isThree c
      generalize escapeIn Quotes.threeDouble.isThree c = shown at hshown
      rw [List.append_assoc]
      cases hshown <;> rw [List.cons_append, List.takeWhile_cons_of_neg (by simp [hquote]), List.length_nil] <;> omega

theorem basicLines_escapeFrom {rest : List Char} (hrest : rest.head? ≠ some '"') (text : List Char) {run : Nat}
    (hrun : run ≤ 2) :
    basicLines (escapeFrom .threeDouble run text ++ '"' :: '"' :: '"' :: rest) = some (text, rest) := by
  induction text generalizing run with
  | nil => exact basicLines_closing (closing?_replicate (Nat.zero_le 2) hrest)
  | cons c text ih =>
    rcases run_escapeFrom (c :: text) ('"' :: '"' :: '"' :: rest) hrun with ⟨count, hcount, htext, hshown⟩ | hshort
    · rw [hshown, htext]
      exact basicLines_closing (closing?_replicate (by omega) hrest)
    · have hopen := closing?_of_short (Nat.lt_of_le_of_lt (Nat.le_add_right _ run) hshort)
      rw [escapeFrom] at hopen ⊢
      split
      · rename_i hquote
        subst hquote
        rw [if_pos rfl] at hopen
        split
        · rename_i hfew
          rw [if_pos hfew, List.cons_append] at hopen
          rw [List.cons_append, basicLines_itself hopen (by decide) (by decide), ih hfew]
          rfl
        · rw [List.cons_append, List.cons_append, basicLines_escape rfl rfl, ih (by decide)]
          rfl
      · rename_i hquote
        have hshown := standsFor_escapeIn Quotes.threeDouble.isThree c
        generalize escapeIn Quotes.threeDouble.isThree c = shown at hshown
        rw [List.append_assoc]
        cases hshown with
        | itself hplain hmark =>
          rw [List.singleton_append, basicLines_itself (closing?_cons hquote _) hmark hplain, ih (by decide)]
          rfl
        | lineFeed _ hc =>
          rw [List.singleton_append, basicLines_lineFeed, ih (by decide), hc]
          rfl
        | escape hmark h =>
          rw [List.cons_append, List.cons_append, basicLines_escape (hmark _) (h _), ih (by decide)]
          rfl

theorem le_longestRun (mark : Char) (run longest : Nat) (text : List Char) :
    run ≤ longestRun mark run longest text ∧ longest ≤ longestRun mark run longest text := by
  induction text generalizing run longest with
  | nil => exact ⟨Nat.le_max_left _ _, Nat.le_max_right _ _⟩
  | cons c text ih =>
    rw [longestRun]
    split
    · have hrest := ih (run + 1) longest
      omega
    · have hrest := ih 0 (max run longest)
      omega

/-- Before three closing quotes, either a text of at most two quotes is left, or a quote too few for the end. -/
theorem run_literal (mark : Char) (text tail : List Char) {run longest : Nat}
    (h : longestRun mark run longest text ≤ 2) :
    (∃ count, run + count ≤ 2 ∧ text = List.replicate count mark) ∨
    ((text ++ tail).takeWhile (· = mark)).length + run < 3 := by
  have hrun : run ≤ 2 := (le_longestRun mark run longest text).1.trans h
  induction text generalizing run longest with
  | nil => exact .inl ⟨0, hrun, rfl⟩
  | cons c text ih =>
    rw [longestRun] at h
    split at h
    · rename_i hquote
      rcases ih h ((le_longestRun mark (run + 1) longest text).1.trans h) with ⟨count, hcount, htext⟩ | hshort
      · exact .inl ⟨count + 1, by omega, by rw [htext, hquote, List.replicate_succ]⟩
      · right
        rw [List.cons_append, List.takeWhile_cons_of_pos (by simpa using hquote), List.length_cons]
        omega
    · rename_i hquote
      right
      rw [List.cons_append, List.takeWhile_cons_of_neg (by simpa using hquote), List.length_nil]
      omega

theorem literalLines_closing {cs : List Char} {found : List Char × List Char} (h : closing? '\'' cs = some found) :
    literalLines cs = some found := by
  rw [literalLines.eq_def, h]

theorem literalLines_itself {c : Char} {cs : List Char} (hclosing : closing? '\'' (c :: cs) = none)
    (hplain : isPlain c) : literalLines (c :: cs) = (literalLines cs).map fun (body, after) => (c :: body, after) := by
  rw [literalLines, hclosing]
  dsimp only
  split
  · rename_i heq
    cases (lineEnd?_of_isPlain hplain cs).symm.trans heq
  · rw [if_pos hplain]

theorem literalLines_lineFeed (cs : List Char) :
    literalLines ('\n' :: cs) = (literalLines cs).map fun (body, after) => ('\n' :: body, after) := by
  rw [literalLines, closing?_cons (by decide)]
  dsimp only
  split
  · rename_i heq
    cases heq
    rfl
  · rename_i heq
    cases heq

theorem literalLines_append {rest : List Char} (hrest : rest.head? ≠ some '\'') {text : List Char} {run longest : Nat}
    (hplain : ∀ c ∈ text, isPlain c ∨ c = '\n') (hruns : longestRun '\'' run longest text ≤ 2) :
    literalLines (text ++ '\'' :: '\'' :: '\'' :: rest) = some (text, rest) := by
  induction text generalizing run longest with
  | nil => exact literalLines_closing (closing?_replicate (Nat.zero_le 2) hrest)
  | cons c text ih =>
    rcases run_literal '\'' (c :: text) ('\'' :: '\'' :: '\'' :: rest) hruns with ⟨count, hcount, htext⟩ | hshort
    · rw [htext]
      exact literalLines_closing (closing?_replicate (by omega) hrest)
    · have hopen := closing?_of_short (Nat.lt_of_le_of_lt (Nat.le_add_right _ run) hshort)
      have hnext : literalLines (text ++ '\'' :: '\'' :: '\'' :: rest) = some (text, rest) := by
        rw [longestRun] at hruns
        split at hruns <;> exact ih (fun d hd => hplain d (.tail c hd)) hruns
      rw [List.cons_append] at hopen ⊢
      rcases hplain c (.head text) with hc | rfl
      · rw [literalLines_itself hopen hc, hnext]
        rfl
      · rw [literalLines_lineFeed, hnext]
        rfl

/-! ## All quotes -/

theorem dropLineEnd_of_head {cs : List Char} (h : ∀ c ∈ cs.head?, c ≠ '\n' ∧ c ≠ '\r') : dropLineEnd cs = cs := by
  unfold dropLineEnd
  cases cs with
  | nil => rfl
  | cons c cs =>
    obtain ⟨hfeed, hreturn⟩ := h c rfl
    rw [lineEnd?_cons hfeed hreturn]
    rfl

theorem suit_ofText {text : List Char} (h : (Quotes.ofText text).hasEscapes = false) :
    (Quotes.ofText text).suit text := by
  unfold Quotes.ofText at h ⊢
  split at h
  · rename_i quotes hfound
    exact List.find?_some (p := fun quotes => Quotes.suit quotes text) hfound
  · split at h <;> cases h

theorem isPlain_of_suit {quotes : Quotes} {text : List Char} (h : quotes.suit text) {c : Char} (hc : c ∈ text) :
    isPlain c ∨ c = '\n' := by
  unfold Quotes.suit at h
  simp only [Bool.and_eq_true, List.all_eq_true] at h
  have hchar := h.1.1.1 c hc
  simp only [Bool.or_eq_true, Bool.and_eq_true, decide_eq_true_eq] at hchar
  unfold isPlain
  simp only [Bool.or_eq_true, Bool.and_eq_true, decide_eq_true_eq]
  rcases hchar with (htab | hfeed) | hprinted
  · exact .inl (.inl htab)
  · exact .inr hfeed
  · exact .inl (.inr hprinted)

theorem longestRun_of_suit {quotes : Quotes} {text : List Char} (h : quotes.suit text) :
    longestRun quotes.mark 0 0 text ≤ quotes.allowance := by
  unfold Quotes.suit at h
  rw [Bool.and_eq_true] at h
  exact of_decide_eq_true h.2

theorem not_mem_of_longestRun {mark : Char} {text : List Char} {run longest : Nat}
    (h : longestRun mark run longest text = 0) : mark ∉ text := by
  induction text generalizing run longest with
  | nil => exact List.not_mem_nil
  | cons c text ih =>
    rw [longestRun] at h
    split at h
    · have hle := (le_longestRun mark (run + 1) longest text).1
      omega
    · rename_i hne
      intro hmem
      rcases List.mem_cons.1 hmem with heq | hmem
      · exact hne heq.symm
      · exact ih h hmem

theorem quoted?_basic {cs : List Char} (h : ∀ more, cs ≠ '"' :: '"' :: more) : quoted? ('"' :: cs) = basicBody cs := by
  unfold quoted?
  split
  · rename_i more heq
    cases heq
    exact absurd rfl (h _)
  · rename_i heq
    cases heq
  · rfl

theorem quoted?_literal {cs : List Char} (h : ∀ more, cs ≠ '\'' :: '\'' :: more) :
    quoted? ('\'' :: cs) = literalBody cs := by
  unfold quoted?
  split
  · rename_i heq
    cases heq
  · rename_i more heq
    cases heq
    exact absurd rfl (h _)
  · rfl

/-- A text of one line does not start with a line end between three double quotes. -/
theorem head_escapeFrom {text : List Char} (hline : '\n' ∉ text) (tail : List Char) :
    ∀ c ∈ (escapeFrom .threeDouble 0 text ++ '"' :: tail).head?, c ≠ '\n' ∧ c ≠ '\r' := by
  cases text with
  | nil =>
    rintro c ⟨⟩
    decide
  | cons d text =>
    rw [escapeFrom]
    split
    · rename_i hquote
      subst hquote
      rintro c ⟨⟩
      decide
    · have hshown := standsFor_escapeIn Quotes.threeDouble.isThree d
      generalize escapeIn Quotes.threeDouble.isThree d = shown at hshown
      cases hshown with
      | itself hplain _ =>
        rintro c ⟨⟩
        constructor <;> rintro rfl <;> exact absurd hplain (by decide)
      | lineFeed _ hc => exact absurd (hc ▸ .head text) hline
      | escape _ _ =>
        rintro c ⟨⟩
        decide

/-- A text in quotes is read back, with what follows it, if that does not start with a quote. -/
theorem quoted?_quote {rest : List Char} (hdouble : rest.head? ≠ some '"') (hsingle : rest.head? ≠ some '\'')
    (text : List Char) : quoted? (quote text ++ rest) = some (text, rest) := by
  have hsuit : (Quotes.ofText text).hasEscapes = false → (Quotes.ofText text).suit text := suit_ofText
  unfold quote
  generalize Quotes.ofText text = quotes at hsuit
  cases quotes with
  | double =>
    have hbody := basicBody_escapeFrom text rest
    rw [show _ ++ rest = '"' :: (escapeFrom .double 0 text ++ '"' :: rest) by
      simp [Quotes.text, Quotes.isThree, Quotes.mark, Quotes.hasEscapes], quoted?_basic fun more heq => ?_, hbody]
    -- two quotes at once would end the text, and stand before a third one
    rw [heq, basicBody, if_pos rfl] at hbody
    cases hbody
    exact hdouble rfl
  | single =>
    have hgood := hsuit rfl
    have hquote : '\'' ∉ text := not_mem_of_longestRun (Nat.le_zero.1 (longestRun_of_suit hgood))
    have hline : '\n' ∉ text := by
      unfold Quotes.suit at hgood
      simp [Quotes.isThree] at hgood
      exact hgood.1.1.2
    have hbody := literalBody_append (fun c hc => (isPlain_of_suit hgood hc).resolve_right
      fun heq => hline (heq ▸ hc)) hquote rest
    rw [show _ ++ rest = '\'' :: (text ++ '\'' :: rest) by
      simp [Quotes.text, Quotes.isThree, Quotes.mark, Quotes.hasEscapes], quoted?_literal fun more heq => ?_, hbody]
    rw [heq, literalBody, if_pos rfl] at hbody
    cases hbody
    exact hsingle rfl
  | threeDouble =>
    have hlines := basicLines_escapeFrom hdouble text (Nat.zero_le 2)
    by_cases hline : '\n' ∈ text
    · rw [show _ ++ rest = '"' :: '"' :: '"' :: '\n' :: (escapeFrom .threeDouble 0 text ++ '"' :: '"' :: '"' :: rest) by
        simp [Quotes.text, Quotes.isThree, Quotes.mark, Quotes.hasEscapes, hline, List.replicate]]
      exact hlines
    · rw [show _ ++ rest = '"' :: '"' :: '"' :: (escapeFrom .threeDouble 0 text ++ '"' :: '"' :: '"' :: rest) by
        simp [Quotes.text, Quotes.isThree, Quotes.mark, Quotes.hasEscapes, hline, List.replicate]]
      rw [quoted?, dropLineEnd_of_head (head_escapeFrom hline _), hlines]
  | threeSingle =>
    have hgood := hsuit rfl
    have hlines := literalLines_append hsingle (fun c hc => isPlain_of_suit hgood hc) (longestRun_of_suit hgood)
    by_cases hline : '\n' ∈ text
    · rw [show _ ++ rest = '\'' :: '\'' :: '\'' :: '\n' :: (text ++ '\'' :: '\'' :: '\'' :: rest) by
        simp [Quotes.text, Quotes.isThree, Quotes.mark, Quotes.hasEscapes, hline, List.replicate]]
      exact hlines
    · rw [show _ ++ rest = '\'' :: '\'' :: '\'' :: (text ++ '\'' :: '\'' :: '\'' :: rest) by
        simp [Quotes.text, Quotes.isThree, Quotes.mark, Quotes.hasEscapes, hline, List.replicate]]
      rw [quoted?, dropLineEnd_of_head, hlines]
      cases text with
      | nil =>
        rintro c ⟨⟩
        decide
      | cons d text =>
        rintro c ⟨⟩
        have hplain := (isPlain_of_suit hgood (.head text)).resolve_right fun heq => hline (heq ▸ .head text)
        constructor <;> rintro rfl <;> exact absurd hplain (by decide)

end ApiProfile.Toml
