import ApiProfile.Text.Basic
import Mathlib.Data.List.Basic
/-!
# Numbers between separators

A whole number in decimal is a run of digits, with neither sign nor blank nor separator in it. So a list of numbers can
be cut apart again at the dots between them.
-/

namespace ApiProfile.Text

/-! ## Numbers in decimal -/

theorem isDigit_of_mem_repr {n : Nat} {c : Char} (h : c ∈ n.repr.toList) : c.isDigit := by
  rw [Nat.toList_repr] at h
  exact Nat.isDigit_of_mem_toDigits (by decide) (by decide) h

theorem isBlank_of_isDigit {c : Char} (h : c.isDigit) : isBlank c = false := by
  have hrange : 48 ≤ c.toNat ∧ c.toNat ≤ 57 := by
    simpa [Char.isDigit, UInt32.le_iff_toNat_le] using h
  unfold isBlank
  simp
  omega

/-! ## Pieces between separators -/

theorem splitBy_eq_splitOnP (separates : Char → Bool) (text : List Char) :
    splitBy separates text = text.splitOnP separates := by
  induction text with
  | nil => rfl
  | cons c text ih =>
    rw [splitBy, List.splitOnP_cons_eq_if_modifyHead, ← ih]
    cases hpieces : splitBy separates text with
    | nil => exact absurd hpieces (splitBy_ne_nil separates text)
    | cons piece pieces => cases separates c <;> rfl

theorem mem_of_mem_intercalate {c : Char} {gap : List Char} {pieces : List (List Char)}
    (h : c ∈ gap.intercalate pieces) : (∃ piece ∈ pieces, c ∈ piece) ∨ c ∈ gap := by
  induction pieces with
  | nil => cases h
  | cons piece pieces ih =>
    cases pieces with
    | nil => exact .inl ⟨piece, .head _, by simpa using h⟩
    | cons next pieces =>
      rw [List.intercalate_cons_cons, List.append_assoc, List.mem_append, List.mem_append] at h
      rcases h with hfirst | hgap | hrest
      · exact .inl ⟨piece, .head _, hfirst⟩
      · exact .inr hgap
      · exact (ih hrest).imp_left fun ⟨found, hfound, hc⟩ => ⟨found, .tail piece hfound, hc⟩

/-- Pieces that were joined are cut apart again. -/
theorem splitBy_intercalate {c : Char} {pieces : List (List Char)} (hne : pieces ≠ [])
    (hpieces : ∀ piece ∈ pieces, c ∉ piece) : splitBy (· == c) ([c].intercalate pieces) = pieces := by
  rw [splitBy_eq_splitOnP, ← List.splitOn_eq_splitOnP]
  exact List.splitOn_intercalate c hpieces hne

/-- Pieces that are joined start as the first of them does. -/
theorem head?_intercalate {gap piece : List Char} (h : piece ≠ []) (pieces : List (List Char)) :
    (gap.intercalate (piece :: pieces)).head? = piece.head? := by
  cases pieces with
  | nil => rw [List.intercalate_singleton]
  | cons next pieces => rw [List.intercalate_cons_cons, List.append_assoc, List.head?_append_of_ne_nil _ h]

/-- They end as the last of them does. -/
theorem getLast?_intercalate (gap : List Char) {pieces : List (List Char)} (hne : pieces ≠ [])
    (h : ∀ piece ∈ pieces, piece ≠ []) : (gap.intercalate pieces).getLast? = (pieces.getLast hne).getLast? := by
  induction pieces with
  | nil => contradiction
  | cons piece pieces ih =>
    cases pieces with
    | nil => rw [List.intercalate_singleton, List.getLast_singleton]
    | cons next pieces =>
      have hrest : gap.intercalate (next :: pieces) ≠ [] := by
        have hnext : next ≠ [] := h next (.tail _ (.head _))
        intro hempty
        have hhead : (gap.intercalate (next :: pieces)).head? = next.head? := head?_intercalate hnext pieces
        rw [hempty] at hhead
        exact hnext (List.head?_eq_none_iff.1 hhead.symm)
      rw [List.intercalate_cons_cons, List.getLast?_append_of_ne_nil _ hrest, List.getLast_cons (List.cons_ne_nil _ _),
        ih (List.cons_ne_nil _ _) fun p hp => h p (.tail piece hp)]

/-! ## Trimming -/

/-- A text that neither starts nor ends with a blank. -/
theorem trim_of_ends {text : List Char} (hfirst : ∀ c ∈ text.head?, isBlank c = false)
    (hlast : ∀ c ∈ text.getLast?, isBlank c = false) : trim text = text := by
  have hdrop : ∀ l : List Char, (∀ c ∈ l.head?, isBlank c = false) → l.dropWhile isBlank = l := by
    intro l hl
    cases l with
    | nil => rfl
    | cons c l => rw [List.dropWhile_cons_of_neg (by simp [hl c rfl])]
  unfold trim trimEnd trimStart
  rw [hdrop text hfirst, hdrop _ (by rwa [List.head?_reverse]), List.reverse_reverse]

theorem trim_of_none {text : List Char} (h : ∀ c ∈ text, isBlank c = false) : trim text = text :=
  trim_of_ends (fun c hc => h c (List.mem_of_head? hc)) fun c hc => h c (List.mem_of_getLast? hc)

end ApiProfile.Text
