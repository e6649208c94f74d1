import ApiProfile.Proofs.Registry.Parameter
/-!
# Types in any spelling

A type is written as words, stars and `const` in any order, with blanks between them as one likes as long as words
do not run together, and maybe with an array annotation behind. We show that none of this matters: the words, the number
of stars and whether there is an annotation are all that is read (`parse_spelled`).
-/

namespace ApiProfile.CType

open Registry (Suffix)

/-! ## Spellings -/

/-- A word that may be part of a base name. -/
structure Word where
  letters : List Char
  ne_nil : letters ≠ []
  ne_const : letters ≠ "const".toList
  plain : ∀ c ∈ letters, Text.isBlank c = false ∧ c ≠ '*' ∧ c ≠ '['
  deriving DecidableEq

inductive Token
  | star
  | const
  | word (w : Word)
  deriving DecidableEq

def Token.chars : Token → List Char
  | star => ['*']
  | const => "const".toList
  | word w => w.letters

/-- The words among tokens. -/
def wordsOf (tokens : List Token) : List (List Char) :=
  tokens.filterMap fun
    | .word w => some w.letters
    | _ => none

/-- A token, and the blanks before it. -/
structure SpacedToken where
  gap : List Char
  token : Token
  blank : ∀ c ∈ gap, Text.isBlank c

def spell (layout : List SpacedToken) : List Char :=
  layout.flatMap fun s => s.gap ++ s.token.chars

/-- Tokens that do not run together: one of them is a star, or there are blanks between them. -/
def Apart (s next : SpacedToken) : Prop :=
  s.token = .star ∨ next.token = .star ∨ next.gap ≠ []

/-- The texts of a sequence of tokens, with or without an array annotation behind them. -/
inductive Spells (tokens : List Token) (isArray : Bool) (text : String) : Prop
  | intro {layout : List SpacedToken} {back : List Char} (htokens : layout.map (·.token) = tokens)
      (hapart : layout.IsChain Apart) (hback : Suffix isArray back) (htext : text.toList = spell layout ++ back)

/-! ## What is read of a spelling -/

theorem spell_cons (s : SpacedToken) (layout : List SpacedToken) :
    spell (s :: layout) = s.gap ++ (s.token.chars ++ spell layout) := by
  unfold spell
  rw [List.flatMap_cons, List.append_assoc]

/-- A word or `const`: not empty, and without blanks, stars and brackets. -/
theorem Token.chars_plain {token : Token} (h : token ≠ .star) :
    token.chars ≠ [] ∧ ∀ c ∈ token.chars, separatesWords c = false ∧ c ≠ '[' := by
  cases token with
  | star => exact absurd rfl h
  | const => exact ⟨by decide, by decide⟩
  | word w =>
    refine ⟨w.ne_nil, fun c hc => ?_⟩
    obtain ⟨hblank, hstar, hbracket⟩ := w.plain c hc
    exact ⟨by simp [separatesWords, hblank, hstar], hbracket⟩

theorem bracket_not_mem_spell (layout : List SpacedToken) : '[' ∉ spell layout := by
  intro h
  obtain ⟨s, -, hmem⟩ := List.mem_flatMap.1 h
  rcases List.mem_append.1 hmem with hgap | htoken
  · exact absurd (s.blank '[' hgap) (by decide)
  · by_cases hstar : s.token = .star
    · rw [hstar] at htoken
      exact absurd htoken (by decide)
    · exact ((Token.chars_plain hstar).2 '[' htoken).2 rfl

theorem bracket_not_mem_spell_append {gap : List Char} (hgap : ∀ c ∈ gap, Text.isBlank c) (layout : List SpacedToken) :
    '[' ∉ spell layout ++ gap := by
  intro h
  rcases List.mem_append.1 h with hmem | hmem
  · exact bracket_not_mem_spell layout hmem
  · exact absurd (hgap '[' hmem) (by decide)

theorem count_star_spell (layout : List SpacedToken) :
    (spell layout).count '*' = (layout.map (·.token)).count .star := by
  induction layout with
  | nil => rfl
  | cons s layout ih =>
    rw [spell_cons, List.count_append, List.count_append, count_star_of_blank s.blank, ih, List.map_cons,
      List.count_cons]
    by_cases hstar : s.token = .star
    · rw [hstar]
      simp [Token.chars, Nat.add_comm]
    · have hnone : '*' ∉ s.token.chars := fun hmem => by
        have hplain := ((Token.chars_plain hstar).2 '*' hmem).1
        exact absurd hplain (by decide)
      rw [List.count_eq_zero.2 hnone]
      simp [hstar]

/-- What follows a word or `const` sets it off. -/
theorem separates_head_spell {s : SpacedToken} {layout : List SpacedToken} (h : (s :: layout).IsChain Apart)
    (hs : s.token ≠ .star) : ∀ c ∈ (spell layout).head?, separatesWords c := by
  intro c hc
  cases layout with
  | nil => cases hc
  | cons next layout =>
    rw [spell_cons] at hc
    -- what comes first is a blank of the gap, or else the star that lets the gap be empty
    cases hgap : next.gap with
    | cons d gap =>
      rw [hgap] at hc
      cases hc
      exact separatesWords_of_isBlank (next.blank c (by simp [hgap]))
    | nil =>
      have hstar : next.token = .star := by
        rcases (List.isChain_cons_cons.1 h).1 with h | h | h
        · exact absurd h hs
        · exact h
        · exact absurd hgap h
      rw [hgap, hstar] at hc
      cases hc
      decide

/-- Words and `const` are cut apart again. -/
theorem wordsBy_spell {layout : List SpacedToken} (h : layout.IsChain Apart) :
    Text.wordsBy separatesWords (spell layout) =
      ((layout.map (·.token)).filter (· ≠ .star)).map Token.chars := by
  induction layout with
  | nil => rfl
  | cons s layout ih =>
    rw [spell_cons, Text.wordsBy_separators_append fun c hc => separatesWords_of_isBlank (s.blank c hc), List.map_cons]
    by_cases hstar : s.token = .star
    · rw [hstar, List.filter_cons_of_neg (by simp), ← ih h.of_cons]
      exact Text.wordsBy_separator_cons (by decide) _
    · obtain ⟨hne, hplain⟩ := Token.chars_plain hstar
      rw [Text.wordsBy_word_append hne (fun c hc => (hplain c hc).1) (separates_head_spell h hstar), ih h.of_cons,
        List.filter_cons_of_pos (by simpa using hstar), List.map_cons]

theorem baseWords_spell {layout : List SpacedToken} (h : layout.IsChain Apart) :
    baseWords (spell layout) = wordsOf (layout.map (·.token)) := by
  unfold baseWords wordsOf
  rw [wordsBy_spell h]
  induction layout.map (·.token) with
  | nil => rfl
  | cons token tokens ih =>
    cases token with
    | star => exact ih
    | const => exact ih
    | word w =>
      have hconst : decide ((Token.word w).chars ≠ "const".toList) = true := decide_eq_true w.ne_const
      rw [List.filter_cons_of_pos (by simp), List.map_cons, List.filter_cons, if_pos hconst, ih]
      rfl

theorem parse_of_spells {tokens : List Token} {isArray : Bool} {text : String} (h : Spells tokens isArray text) :
    parse text = ofWords text (wordsOf tokens) (tokens.count .star + if isArray then 1 else 0) := by
  obtain ⟨rfl, hapart, hback, htext⟩ := h
  rename_i layout back
  rw [← baseWords_spell hapart, ← count_star_spell]
  cases hback with
  | blank hgap =>
    exact parse_of_no_bracket (htext ▸ alike_append_blanks hgap _) (htext ▸ bracket_not_mem_spell_append hgap layout)
  | @array lead trail hlead htrail inner =>
    exact parse_of_array (spell layout ++ lead) inner trail (by rw [htext, List.append_assoc])
      (bracket_not_mem_spell_append hlead layout) htrail (alike_append_blanks hlead _)

theorem toOption_ofWords (text other : String) (words : List (List Char)) (depth : Nat) :
    (ofWords text words depth).toOption = (ofWords other words depth).toOption := by
  unfold ofWords
  split <;> rfl

/-- A type in any spelling is read as its words with single blanks between them, under one indirection for each
star and one more for an array annotation; without words it is refused. So whatever has the same words in the same
order, as many stars, and an annotation or none alike, is the same type. -/
theorem parse_spelled {tokens : List Token} {isArray : Bool} {text : String} (h : Spells tokens isArray text)
    (hstars : tokens.count .star + 1 < UInt32.size) :
    (parse text = .error (.emptyType text) ↔ wordsOf tokens = []) ∧
      (wordsOf tokens ≠ [] → ∃ type, parse text = .ok type ∧ type.base.toList = [' '].intercalate (wordsOf tokens) ∧
        type.depth.toNat = tokens.count .star + if isArray then 1 else 0) ∧
      ∀ others other, Spells others isArray other → wordsOf others = wordsOf tokens →
        others.count .star = tokens.count .star → (parse other).toOption = (parse text).toOption := by
  rw [parse_of_spells h]
  refine ⟨?_, fun hwords => ?_, fun others other hother hwords hcount => ?_⟩
  · unfold ofWords
    split
    · rename_i hwords
      exact ⟨fun _ => hwords, fun _ => rfl⟩
    · rename_i hwords
      exact ⟨nofun, fun hnone => absurd hnone hwords⟩
  · have hsmall : tokens.count .star + (if isArray then 1 else 0) < UInt32.size := by
      split <;> omega
    exact ⟨_, if_neg hwords, String.toList_ofList, UInt32.toNat_ofNat_of_lt hsmall⟩
  · rw [parse_of_spells hother, hwords, hcount]
    exact toOption_ofWords other text _ _

/-- The tokens of `const GL mat*const*`, with blanks before some of them. -/
def matrixLayout : List SpacedToken :=
  [⟨[' ', '\n'], .const, by decide⟩, ⟨['\t'], .word ⟨"GL".toList, by decide, by decide, by decide⟩, by decide⟩,
    ⟨[' ', ' '], .word ⟨"mat".toList, by decide, by decide, by decide⟩, by decide⟩, ⟨[], .star, by decide⟩,
    ⟨[], .const, by decide⟩, ⟨[], .star, by decide⟩]

theorem parse_spelled_matrix :
    Spells (matrixLayout.map (·.token)) true " \nconst\tGL  mat*const* [4][2] " ∧
      ∃ type, parse " \nconst\tGL  mat*const* [4][2] " = .ok type ∧
        type.base.toList = [' '].intercalate ["GL".toList, "mat".toList] ∧ type.depth.toNat = 3 := by
  have hback : Suffix true " [4][2] ".toList := @Suffix.array [' '] [' '] (by decide) (by decide) ['4', ']', '[', '2']
  have hspells : Spells (matrixLayout.map (·.token)) true " \nconst\tGL  mat*const* [4][2] " :=
    .intro rfl (by simp [matrixLayout, Apart]) hback (by decide +kernel)
  exact ⟨hspells, (parse_spelled hspells (by decide)).2.1 (by decide)⟩

end ApiProfile.CType
