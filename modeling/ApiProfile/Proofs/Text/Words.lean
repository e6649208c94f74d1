import ApiProfile.Proofs.Text.Numeral
import Mathlib.Data.List.TakeWhile
/-!
# Blanks and the words between them

Trimming takes blanks off both ends and nothing else, so neither the words of a text nor its other characters
depend on it. A separator anywhere in a text ends the words before it and starts those behind it.
-/

namespace ApiProfile.Text

/-! ## Trimming -/

/-- What is trimmed off a text at either end are blanks. -/
theorem exists_of_trim (text : List Char) :
    ∃ lead trail, (∀ c ∈ lead, isBlank c) ∧ (∀ c ∈ trail, isBlank c) ∧ text = lead ++ trim text ++ trail := by
  refine ⟨text.takeWhile isBlank, ((trimStart text).reverse.takeWhile isBlank).reverse, fun c hc => ?_, fun c hc => ?_, ?_⟩
  · exact List.mem_takeWhile_imp hc
  · exact List.mem_takeWhile_imp (List.mem_reverse.1 hc)
  · have hend : trim text ++ ((trimStart text).reverse.takeWhile isBlank).reverse = trimStart text := by
      unfold trim trimEnd
      rw [← List.reverse_append, List.takeWhile_append_dropWhile, List.reverse_reverse]
    rw [List.append_assoc, hend]
    exact List.takeWhile_append_dropWhile.symm

theorem mem_of_mem_trim {text : List Char} {c : Char} (h : c ∈ trim text) : c ∈ text := by
  obtain ⟨lead, trail, -, -, heq⟩ := exists_of_trim text
  rw [heq]
  exact List.mem_append_left _ (List.mem_append_right _ h)

theorem trimStart_append_cons {c : Char} (hc : isBlank c = false) (xs ys : List Char) :
    trimStart (xs ++ c :: ys) = trimStart xs ++ c :: ys := by
  unfold trimStart
  rw [List.dropWhile_append]
  split
  · rename_i hempty
    rw [List.isEmpty_iff.1 hempty, List.dropWhile_cons_of_neg (by simp [hc]), List.nil_append]
  · rfl

theorem trimEnd_append_cons {c : Char} (hc : isBlank c = false) (xs ys : List Char) :
    trimEnd (xs ++ c :: ys) = xs ++ c :: trimEnd ys := by
  have hreverse : (xs ++ c :: ys).reverse = ys.reverse ++ c :: xs.reverse := by simp
  have hstart := trimStart_append_cons hc ys.reverse xs.reverse
  unfold trimStart at hstart
  unfold trimEnd
  rw [hreverse, hstart]
  simp

/-- A character that is no blank stays, and only what stands before and behind it is trimmed. -/
theorem trim_append_cons {c : Char} (hc : isBlank c = false) (xs ys : List Char) :
    trim (xs ++ c :: ys) = trimStart xs ++ c :: trimEnd ys := by
  unfold trim
  rw [trimStart_append_cons hc, trimEnd_append_cons hc]

theorem trimStart_of_blank {text : List Char} (h : ∀ c ∈ text, isBlank c) : trimStart text = [] :=
  List.dropWhile_eq_nil_iff.2 h

theorem trimEnd_of_blank {text : List Char} (h : ∀ c ∈ text, isBlank c) : trimEnd text = [] := by
  unfold trimEnd
  rw [List.dropWhile_eq_nil_iff.2 fun c hc => h c (List.mem_reverse.1 hc), List.reverse_nil]

theorem trim_eq_nil_iff {text : List Char} : trim text = [] ↔ ∀ c ∈ text, isBlank c := by
  constructor
  · intro h
    obtain ⟨lead, trail, hlead, htrail, heq⟩ := exists_of_trim text
    rw [h, List.append_nil] at heq
    rw [heq]
    exact fun c hc => (List.mem_append.1 hc).elim (hlead c) (htrail c)
  · intro h
    unfold trim
    rw [trimStart_of_blank h]
    rfl

/-! ## Words -/

variable {separates : Char → Bool}

theorem wordsBy_append_cons {c : Char} (hc : separates c) (xs ys : List Char) :
    wordsBy separates (xs ++ c :: ys) = wordsBy separates xs ++ wordsBy separates ys := by
  unfold wordsBy
  rw [splitBy_eq_splitOnP, splitBy_eq_splitOnP, splitBy_eq_splitOnP, List.splitOnP_append_cons xs ys hc,
    List.filter_append]

theorem wordsBy_append_separators {gap : List Char} (hgap : ∀ c ∈ gap, separates c) (xs : List Char) :
    wordsBy separates (xs ++ gap) = wordsBy separates xs := by
  induction gap generalizing xs with
  | nil => rw [List.append_nil]
  | cons c gap ih =>
    have hrest : wordsBy separates gap = [] := by
      have hempty := ih (fun d hd => hgap d (.tail c hd)) []
      rwa [List.nil_append] at hempty
    rw [wordsBy_append_cons (hgap c (.head gap)), hrest, List.append_nil]

theorem wordsBy_separators_append {gap : List Char} (hgap : ∀ c ∈ gap, separates c) (xs : List Char) :
    wordsBy separates (gap ++ xs) = wordsBy separates xs := by
  induction gap with
  | nil => rfl
  | cons c gap ih =>
    have hfirst := wordsBy_append_cons (hgap c (.head gap)) [] (gap ++ xs)
    rw [List.nil_append] at hfirst
    rw [List.cons_append, hfirst, ih fun d hd => hgap d (.tail c hd)]
    rfl

/-! ## Which texts are words -/

theorem head?_append_of {P : Char → Prop} {xs ys : List Char} (hxs : ∀ c ∈ xs.head?, P c) (hys : ∀ c ∈ ys.head?, P c) :
    ∀ c ∈ (xs ++ ys).head?, P c := by
  intro c hc
  rw [List.head?_append, Option.mem_def, Option.or_eq_some_iff] at hc
  rcases hc with hc | ⟨-, hc⟩
  · exact hxs c hc
  · exact hys c hc

theorem getLast?_append_of {P : Char → Prop} {xs ys : List Char} (hxs : ∀ c ∈ xs.getLast?, P c)
    (hys : ∀ c ∈ ys.getLast?, P c) : ∀ c ∈ (xs ++ ys).getLast?, P c := by
  intro c hc
  rw [List.getLast?_append, Option.mem_def, Option.or_eq_some_iff] at hc
  rcases hc with hc | ⟨-, hc⟩
  · exact hys c hc
  · exact hxs c hc

theorem wordsBy_of_plain {word : List Char} (hne : word ≠ []) (hplain : ∀ c ∈ word, separates c = false) :
    wordsBy separates word = [word] := by
  unfold wordsBy
  rw [splitBy_eq_splitOnP, List.splitOnP_eq_singleton hplain]
  simp [hne]

theorem wordsBy_separator_cons {c : Char} (hc : separates c) (text : List Char) :
    wordsBy separates (c :: text) = wordsBy separates text := by
  have hgap : ∀ d ∈ [c], separates d := by simpa using hc
  exact wordsBy_separators_append hgap text

/-- A word ends where a separator or nothing follows it. -/
theorem wordsBy_word_append {word rest : List Char} (hne : word ≠ []) (hplain : ∀ c ∈ word, separates c = false)
    (hrest : ∀ c ∈ rest.head?, separates c) :
    wordsBy separates (word ++ rest) = word :: wordsBy separates rest := by
  cases rest with
  | nil => rw [List.append_nil, wordsBy_of_plain hne hplain]; rfl
  | cons c rest =>
    have hc : separates c := hrest c rfl
    rw [wordsBy_append_cons hc, wordsBy_of_plain hne hplain, wordsBy_separator_cons hc, List.singleton_append]

/-- Words that are joined by a separator are cut apart again. -/
theorem wordsBy_intercalate {c : Char} (hc : separates c) {words : List (List Char)}
    (h : ∀ word ∈ words, word ≠ [] ∧ ∀ d ∈ word, separates d = false) :
    wordsBy separates ([c].intercalate words) = words := by
  induction words with
  | nil => rfl
  | cons word words ih =>
    obtain ⟨hne, hplain⟩ := h word (.head words)
    cases words with
    | nil => rw [List.intercalate_singleton, wordsBy_of_plain hne hplain]
    | cons next words =>
      have hgap : ∀ d ∈ (c :: [c].intercalate (next :: words)).head?, separates d := by simpa using hc
      rw [List.intercalate_cons_cons, List.append_assoc, List.singleton_append, wordsBy_word_append hne hplain hgap,
        wordsBy_separator_cons hc, ih fun w hw => h w (.tail word hw)]

/-- A word between two parts of a text: it has no separator, and cannot be made longer without one. -/
structure IsWordBetween (separates : Char → Bool) (before word after : List Char) : Prop where
  ne_nil : word ≠ []
  plain : ∀ c ∈ word, separates c = false
  before : ∀ c ∈ before.getLast?, separates c
  after : ∀ c ∈ after.head?, separates c

theorem mem_wordsBy {before word after : List Char} (h : IsWordBetween separates before word after) :
    word ∈ wordsBy separates (before ++ (word ++ after)) := by
  have hword : word ∈ wordsBy separates (word ++ after) := by
    rw [wordsBy_word_append h.ne_nil h.plain h.after]
    exact .head _
  cases hlast : before.getLast? with
  | none => rwa [List.getLast?_eq_none_iff.1 hlast, List.nil_append]
  | some c =>
    obtain ⟨front, rfl⟩ := List.getLast?_eq_some_iff.1 hlast
    rw [List.append_assoc, List.singleton_append, wordsBy_append_cons (h.before c hlast)]
    exact List.mem_append_right _ hword

theorem isWordBetween_of_plain {word text : List Char} (hplain : ∀ c ∈ text, separates c = false)
    (h : word ∈ wordsBy separates text) : word = text ∧ IsWordBetween separates [] word [] := by
  by_cases hne : text = []
  · subst hne
    cases h
  · rw [wordsBy_of_plain hne hplain] at h
    obtain rfl := List.mem_singleton.1 h
    exact ⟨rfl, hne, hplain, nofun, nofun⟩

theorem exists_of_mem_wordsBy {word text : List Char} (h : word ∈ wordsBy separates text) :
    ∃ before after, text = before ++ (word ++ after) ∧ IsWordBetween separates before word after := by
  cases hfind : text.find? separates with
  | none =>
    have hplain : ∀ c ∈ text, separates c = false := fun c hc => by simpa using List.find?_eq_none.1 hfind c hc
    obtain ⟨rfl, hword⟩ := isWordBetween_of_plain hplain h
    exact ⟨[], [], by simp, hword⟩
  | some c =>
    obtain ⟨hc, first, rest, rfl, hfirst⟩ := List.find?_eq_some_iff_append.1 hfind
    rw [wordsBy_append_cons hc] at h
    rcases List.mem_append.1 h with h | h
    · obtain ⟨rfl, hword⟩ := isWordBetween_of_plain (fun d hd => by simpa using hfirst d hd) h
      exact ⟨[], c :: rest, rfl, { hword with after := fun d hd => by cases hd; exact hc }⟩
    · obtain ⟨before, after, rfl, hword⟩ := exists_of_mem_wordsBy h
      have hfront : ∀ d ∈ (first ++ [c]).getLast?, separates d := by simpa using hc
      exact ⟨first ++ [c] ++ before, after, by simp, { hword with before := getLast?_append_of hfront hword.before }⟩
termination_by text.length

end ApiProfile.Text
