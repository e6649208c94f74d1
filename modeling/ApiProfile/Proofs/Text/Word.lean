import ApiProfile.Text.Basic
import ApiProfile.Text.Word
/-!
# Characters of words

A word holds neither blanks nor punctuation, so what has a blank or a bracket in it is no part of a word. A text has
a word as a whole where neither neighbour goes on with it.
-/

namespace ApiProfile.Text

/-- The code points of blanks, in ranges. -/
def blankRanges : List (Nat × Nat) :=
  [(9, 13), (0x20, 0x20), (0x85, 0x85), (0xA0, 0xA0), (0x1680, 0x1680), (0x2000, 0x200A), (0x2028, 0x2029),
    (0x202F, 0x202F), (0x205F, 0x205F), (0x3000, 0x3000)]

theorem exists_blankRange {c : Char} (h : isBlank c) :
    ∃ blanks ∈ blankRanges, blanks.1 ≤ c.toNat ∧ c.toNat ≤ blanks.2 := by
  simp only [isBlank, Bool.or_eq_true, Bool.and_eq_true, decide_eq_true_eq] at h
  simp only [blankRanges, List.mem_cons, List.not_mem_nil, or_false, exists_eq_or_imp, exists_eq_left]
  omega

theorem not_isWordChar_of_isBlank {c : Char} (h : isBlank c) : isWordChar c = false := by
  have happart : ∀ blanks ∈ blankRanges, ∀ range ∈ wordRanges, blanks.2 < range.1 ∨ range.2 < blanks.1 := by
    decide +kernel
  obtain ⟨blanks, hblanks, hfirst, hlast⟩ := exists_blankRange h
  unfold isWordChar
  rw [List.any_eq_false]
  intro range hrange hin
  have hbounds : range.1 ≤ c.toNat ∧ c.toNat ≤ range.2 := by simpa using hin
  have houtside := happart blanks hblanks range hrange
  omega

/-- The marks of pointers and arrays are in no word. -/
theorem not_isWordChar_of_mem_marks {c : Char} (h : c ∈ ['*', '[', ']']) : isWordChar c = false := by
  have hmarks : ∀ c ∈ ['*', '[', ']'], isWordChar c = false := by decide +kernel
  exact hmarks c h

theorem isBlank_of_isWordChar {c : Char} (h : isWordChar c) : isBlank c = false := by
  cases hblank : isBlank c with
  | false => rfl
  | true =>
    rw [not_isWordChar_of_isBlank hblank] at h
    cases h

theorem isWordChar_of_range {c : Char} {first last : Nat} (hrange : (first, last) ∈ wordRanges)
    (hfirst : first ≤ c.toNat) (hlast : c.toNat ≤ last) : isWordChar c :=
  List.any_eq_true.2 ⟨_, hrange, by simp [hfirst, hlast]⟩

theorem isWordChar_of_isAlphanum {c : Char} (h : c.isAlphanum) : isWordChar c := by
  have hrange : (65 ≤ c.toNat ∧ c.toNat ≤ 90 ∨ 97 ≤ c.toNat ∧ c.toNat ≤ 122) ∨ 48 ≤ c.toNat ∧ c.toNat ≤ 57 := by
    change (decide (c.val ≥ 65 ∧ c.val ≤ 90) || (c.val ≥ 97 && c.val ≤ 122) || (c.val ≥ 48 && c.val ≤ 57)) = true at h
    simpa [UInt32.le_iff_toNat_le] using h
  rcases hrange with (⟨hfirst, hlast⟩ | ⟨hfirst, hlast⟩) | ⟨hfirst, hlast⟩
  · exact isWordChar_of_range (by decide) hfirst hlast
  · exact isWordChar_of_range (by decide) hfirst hlast
  · exact isWordChar_of_range (by decide) hfirst hlast

/-! ## Whole words -/

theorem endsWord_iff {neighbour : Option Char} : endsWord neighbour ↔ ∀ c ∈ neighbour, isWordChar c = false := by
  cases neighbour <;> simp [endsWord]

theorem hasWordAfter_iff {word : List Char} (hne : word ≠ []) {before : Option Char} {text : List Char} :
    hasWordAfter word before text ↔ ∃ front back, text = front ++ (word ++ back) ∧
      endsWord (front.getLast?.or before) ∧ endsWord back.head? := by
  induction text generalizing before with
  | nil =>
    refine ⟨nofun, fun ⟨front, back, h, _⟩ => ?_⟩
    simp [hne] at h
  | cons c rest ih =>
    rw [hasWordAfter, Bool.or_eq_true, Bool.and_eq_true, Bool.and_eq_true, List.isPrefixOf_iff_prefix, ih]
    constructor
    · rintro (⟨⟨⟨back, hback⟩, hbefore⟩, hafter⟩ | ⟨front, back, rfl, hbefore, hafter⟩)
      · rw [← hback, List.drop_left] at hafter
        exact ⟨[], back, hback.symm, hbefore, hafter⟩
      · refine ⟨c :: front, back, rfl, ?_, hafter⟩
        rw [List.getLast?_cons]
        cases hlast : front.getLast? <;> rwa [hlast] at hbefore
    · rintro ⟨front, back, heq, hbefore, hafter⟩
      cases front with
      | nil =>
        rw [List.nil_append] at heq
        refine .inl ⟨⟨⟨back, heq.symm⟩, hbefore⟩, ?_⟩
        rwa [heq, List.drop_left]
      | cons d front =>
        obtain ⟨rfl, rfl⟩ := List.cons.inj heq
        refine .inr ⟨front, back, rfl, ?_, hafter⟩
        rw [List.getLast?_cons] at hbefore
        cases hlast : front.getLast? <;> rwa [hlast] at hbefore

theorem hasWord_iff {word text : List Char} (hne : word ≠ []) :
    hasWord word text ↔ ∃ front back, text = front ++ (word ++ back) ∧
      (∀ c ∈ front.getLast?, isWordChar c = false) ∧ ∀ c ∈ back.head?, isWordChar c = false := by
  unfold hasWord
  rw [hasWordAfter_iff hne]
  simp only [Option.or_none, endsWord_iff]

end ApiProfile.Text
