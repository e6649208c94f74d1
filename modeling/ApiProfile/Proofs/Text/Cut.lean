import ApiProfile.Text.Basic
import Mathlib.Data.List.Infix
/-!
# The last occurrence of a text

A text is cut at its last occurrence: nothing behind the cut holds the text again, also not together with the
end of the occurrence itself. A character that the text does not have is on one side of an occurrence.
-/

namespace ApiProfile.Text

variable {needle : List Char}

theorem cutLast_eq_none_iff {text : List Char} : cutLast needle text = none ↔ ¬needle <:+: text := by
  induction text with
  | nil => simp [cutLast]
  | cons c rest ih =>
    rw [cutLast, List.infix_cons_iff, not_or, ← ih, ← List.isPrefixOf_iff_prefix]
    cases cutLast needle rest with
    | none => simp
    | some cut => simp

/-- An occurrence further behind is found first. -/
theorem cutLast_append {text before after : List Char} (h : cutLast needle text = some (before, after))
    (front : List Char) : cutLast needle (front ++ text) = some (front ++ before, after) := by
  induction front with
  | nil => exact h
  | cons c front ih => rw [List.cons_append, cutLast, ih, List.cons_append]

/-- A text that goes on with a character that `needle` does not have goes on without `needle`, unless it holds
all of `needle`. -/
theorem not_infix_tail_append {after : List Char} (hneedle : needle ≠ []) (hhead : ∀ c ∈ after.head?, c ∉ needle)
    (hafter : ¬needle <:+: after) : ¬needle <:+: needle.tail ++ after := by
  have hlength : needle.tail.length < needle.length := by
    have hpos := List.length_pos_of_ne_nil hneedle
    rw [List.length_tail]
    omega
  rw [List.infix_append_iff]
  rintro (htail | hinside | ⟨end₁, start, heq, hend, hstart⟩)
  · exact absurd htail.length_le (by omega)
  · exact hafter hinside
  · cases start with
    | nil =>
      rw [List.append_nil] at heq
      rw [← heq] at hend
      exact absurd hend.length_le (by omega)
    | cons c start =>
      obtain ⟨rest, hrest⟩ := hstart
      refine hhead c (by rw [← hrest]; rfl) ?_
      rw [heq]
      exact List.mem_append_right _ (.head _)

theorem cutLast_of_not_infix {before after : List Char} (hneedle : needle ≠ [])
    (hhead : ∀ c ∈ after.head?, c ∉ needle) (hafter : ¬needle <:+: after) :
    cutLast needle (before ++ (needle ++ after)) = some (before, after) := by
  have hlast : cutLast needle (needle ++ after) = some ([], after) := by
    have hnone := cutLast_eq_none_iff.2 (not_infix_tail_append hneedle hhead hafter)
    cases needle with
    | nil => exact absurd rfl hneedle
    | cons c rest =>
      rw [List.tail_cons] at hnone
      rw [List.cons_append, cutLast, hnone]
      simp
  have happend := cutLast_append hlast before
  rwa [List.append_nil] at happend

/-! ## Pieces of a text -/

/-- A character that a piece of a text does not have stands before it or behind it. -/
theorem before_or_behind {piece before after front back : List Char} {c : Char} (hc : c ∉ piece)
    (h : front ++ c :: back = before ++ (piece ++ after)) :
    (∃ more, before = front ++ c :: more ∧ back = more ++ (piece ++ after)) ∨
      ∃ more, after = more ++ c :: back ∧ front = before ++ (piece ++ more) := by
  rcases List.append_eq_append_iff.1 h with ⟨gap, hbefore, hrest⟩ | ⟨gap, hfront, hrest⟩
  · cases gap with
    | nil =>
      cases piece with
      | nil => exact .inr ⟨[], hrest.symm, by simpa using hbefore.symm⟩
      | cons d piece =>
        obtain ⟨rfl, -⟩ := List.cons.inj hrest
        exact absurd (.head piece) hc
    | cons d gap =>
      obtain ⟨rfl, hback⟩ := List.cons.inj hrest
      exact .inl ⟨gap, hbefore, hback⟩
  · rcases List.append_eq_append_iff.1 hrest with ⟨more, hgap, hafter⟩ | ⟨rest, hpiece, hback⟩
    · exact .inr ⟨more, hafter, by rw [hfront, hgap]⟩
    · cases rest with
      | nil => exact .inr ⟨[], hback.symm, by rw [hfront, hpiece, List.append_nil, List.append_nil]⟩
      | cons d rest =>
        obtain ⟨rfl, -⟩ := List.cons.inj hback
        exact absurd (hpiece ▸ List.mem_append_right _ (.head rest)) hc

end ApiProfile.Text
