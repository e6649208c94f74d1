import ApiProfile.Proofs.CType
import ApiProfile.Proofs.Text.Cut
import ApiProfile.Proofs.Text.Word
import ApiProfile.Signature
/-!
# What makes a parameter flow out

A type is searched for `const` twice: reading it drops the words `const` before the array annotation, which are set
off by blanks and stars; and its parameter flows out if the whole text has `const` between characters that are
no word characters. Whatever drops a `const` makes the parameter flow out, and in texts of plain characters nothing
else does (`Flow.output_of_const`).
-/

namespace ApiProfile

namespace CType

/-- The part of a type's text that its words are read from. -/
def body (text : String) : List Char :=
  (splitArray (Text.trim text.toList)).1

/-- Reading the type drops a `const`: not all of its words name its base. -/
def DropsConst (text : String) : Prop :=
  baseWords (body text) ≠ Text.wordsBy separatesWords (body text)

theorem dropsConst_iff {text : String} :
    DropsConst text ↔ "const".toList ∈ Text.wordsBy separatesWords (body text) := by
  unfold DropsConst baseWords
  rw [ne_eq, List.filter_eq_self]
  simp

/-- What separates words is no part of a word. -/
theorem not_isWordChar_of_separatesWords {c : Char} (h : separatesWords c) : Text.isWordChar c = false := by
  rcases Bool.or_eq_true_iff.1 h with hblank | hstar
  · exact Text.not_isWordChar_of_isBlank hblank
  · rw [of_decide_eq_true hstar]
    exact Text.not_isWordChar_of_mem_marks (by decide)

/-- Before the words of a type there are only blanks, and behind them a blank or an annotation. -/
theorem exists_around_body (text : String) :
    ∃ lead back, text.toList = lead ++ (body text ++ back) ∧ (∀ c ∈ lead, Text.isBlank c) ∧
      ∀ c ∈ back.head?, Text.isWordChar c = false := by
  obtain ⟨lead, trail, hlead, htrail, heq⟩ := Text.exists_of_trim text.toList
  have htrailing : ∀ c ∈ trail.head?, Text.isWordChar c = false := fun c hc =>
    Text.not_isWordChar_of_isBlank (htrail c (List.mem_of_mem_head? hc))
  unfold body splitArray
  split
  · rename_i harray
    have hannotation : ∀ c ∈ ((Text.trim text.toList).dropWhile (· ≠ '[')).head?, Text.isWordChar c = false := by
      intro c hc
      have hbracket := List.head?_dropWhile_not (· ≠ '[') (Text.trim text.toList)
      rw [Option.mem_def.1 hc] at hbracket
      rw [show c = '[' by simpa using hbracket]
      exact Text.not_isWordChar_of_mem_marks (by decide)
    refine ⟨lead, (Text.trim text.toList).dropWhile (· ≠ '[') ++ trail, ?_, hlead,
      Text.head?_append_of hannotation htrailing⟩
    rw [← List.append_assoc, ← List.append_assoc, List.append_assoc lead, List.takeWhile_append_dropWhile, ← heq]
  · exact ⟨lead, trail, by rw [← List.append_assoc, ← heq], hlead, htrailing⟩

end CType

open CType (body DropsConst separatesWords)

namespace Flow

theorem ofText_eq_output_iff {text : String} : ofText text = .output ↔ Text.hasWord "const".toList text.toList := by
  unfold ofText
  split
  · rename_i h
    exact ⟨fun _ => h, fun _ => rfl⟩
  · rename_i h
    exact ⟨nofun, fun hword => absurd hword h⟩

/-- A word of a type is a whole word of its text. -/
theorem output_of_dropsConst {text : String} (h : DropsConst text) : ofText text = .output := by
  obtain ⟨before, after, hbody, hword⟩ := Text.exists_of_mem_wordsBy (CType.dropsConst_iff.1 h)
  obtain ⟨lead, back, htext, hlead, hback⟩ := CType.exists_around_body text
  rw [ofText_eq_output_iff, Text.hasWord_iff (by decide)]
  refine ⟨lead ++ before, after ++ back, ?_, Text.getLast?_append_of (fun c hc => ?_) fun c hc => ?_,
    Text.head?_append_of (fun c hc => ?_) hback⟩
  · rw [htext, hbody]
    simp only [List.append_assoc]
  · exact Text.not_isWordChar_of_isBlank (hlead c (List.mem_of_getLast? hc))
  · exact CType.not_isWordChar_of_separatesWords (hword.before c hc)
  · exact CType.not_isWordChar_of_separatesWords (hword.after c hc)

/-! ## Plain types -/

/-- A letter, digit or underscore of ASCII, a blank or a star. -/
def isPlainChar (c : Char) : Bool :=
  c.isAlphanum || c = '_' || Text.isBlank c || c = '*'

/-- A type of plain characters, with or without a number in brackets at its end. -/
inductive IsPlain (text : String) : Prop
  | single (h : ∀ c ∈ text.toList, isPlainChar c)
  | array {front digits : List Char} (hfront : ∀ c ∈ front, isPlainChar c) (hdigits : ∀ d ∈ digits, d.isDigit)
      (htext : text.toList = front ++ '[' :: (digits ++ [']']))

theorem separatesWords_of_isPlainChar {c : Char} (h : isPlainChar c) (hc : Text.isWordChar c = false) :
    separatesWords c := by
  simp only [isPlainChar, Bool.or_eq_true, decide_eq_true_eq] at h
  rcases h with ((halphanum | hunderscore) | hblank) | hstar
  · rw [Text.isWordChar_of_isAlphanum halphanum] at hc
    cases hc
  · rw [hunderscore] at hc
    exact absurd hc (by decide +kernel)
  · simp [CType.separatesWords, hblank]
  · simp [CType.separatesWords, hstar]

/-- Between plain characters a whole word is a word of the type. -/
theorem mem_wordsBy_of_plain {text before after : List Char} (hplain : ∀ c ∈ text, isPlainChar c)
    (htext : text = before ++ ("const".toList ++ after)) (hbefore : ∀ c ∈ before.getLast?, Text.isWordChar c = false)
    (hafter : ∀ c ∈ after.head?, Text.isWordChar c = false) :
    "const".toList ∈ Text.wordsBy separatesWords text := by
  subst htext
  refine Text.mem_wordsBy ⟨by decide, by decide, fun c hc => ?_, fun c hc => ?_⟩
  · exact separatesWords_of_isPlainChar (hplain c (by simp [List.mem_of_getLast? hc])) (hbefore c hc)
  · exact separatesWords_of_isPlainChar (hplain c (by simp [List.mem_of_mem_head? hc])) (hafter c hc)

theorem bracket_not_mem {front : List Char} (h : ∀ c ∈ front, isPlainChar c) : '[' ∉ front := fun hmem =>
  absurd (h '[' hmem) (by decide)

theorem dropsConst_of_output {text : String} (hplain : IsPlain text) (h : ofText text = .output) : DropsConst text := by
  obtain ⟨before, after, htext, hbefore, hafter⟩ := (Text.hasWord_iff (by decide)).1 (ofText_eq_output_iff.1 h)
  rw [CType.dropsConst_iff]
  unfold CType.body
  cases hplain with
  | single hchars =>
    rw [CType.splitArray_of_no_bracket (bracket_not_mem hchars), (CType.alike_trim _).words]
    exact mem_wordsBy_of_plain hchars htext hbefore hafter
  | @array front digits hfront hdigits harray =>
    have hsplit : CType.splitArray (Text.trim (front ++ '[' :: (digits ++ [']']))) = (Text.trimStart front, true) :=
      CType.splitArray_of_array (bracket_not_mem hfront) nofun
    rw [harray, hsplit, (CType.alike_trimStart _).words]
    rw [htext] at harray
    -- the `const` that was found stands before the opening bracket or behind it
    rcases Text.before_or_behind (by decide) harray.symm with ⟨more, -, hinside⟩ | ⟨more, hbehind, hfound⟩
    · have hmem : 'c' ∈ digits ++ [']'] := by rw [hinside]; simp
      rcases List.mem_append.1 hmem with hdigit | hclose
      · exact absurd (hdigits 'c' hdigit) (by decide)
      · exact absurd (List.mem_singleton.1 hclose) (by decide)
    · refine mem_wordsBy_of_plain hfront hfound hbefore fun c hc => hafter c ?_
      rw [hbehind, List.head?_append, Option.mem_def.1 hc]
      rfl

/-- A parameter flows out if reading its type drops a `const`; and a type of plain characters makes it flow out in
no other case. -/
theorem output_of_const (text : String) :
    (DropsConst text → ofText text = .output) ∧
      (IsPlain text → (ofText text = .output ↔ DropsConst text)) :=
  ⟨output_of_dropsConst, fun hplain => ⟨dropsConst_of_output hplain, output_of_dropsConst⟩⟩

theorem output_of_const_strings :
    DropsConst "GLchar *const*[2]" ∧ IsPlain "GLchar *const*[2]" ∧ ofText "GLchar *const*[2]" = .output := by
  have hdrops : DropsConst "GLchar *const*[2]" := by
    unfold DropsConst
    decide +kernel
  have hplain : IsPlain "GLchar *const*[2]" :=
    @IsPlain.array _ "GLchar *const*".toList ['2'] (by decide) (by decide) (by decide +kernel)
  have hout := (output_of_const _).1 hdrops
  exact ⟨((output_of_const _).2 hplain).1 hout, hplain, hout⟩

example : ofText "my_const const_t *" = .input := by decide +kernel

end Flow
end ApiProfile
