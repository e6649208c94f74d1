import ApiProfile.Proofs.CType
/-!
# Types that are written and read again

What is read as a type has a base name of plain words with single blanks between them. Written with a star for each
indirection it is read as the same type again, with one exception: without any star, a base name that ends in a
closing bracket and has an opening one looks like a type with an array annotation. Such base names come from texts with
something behind the bracket, such as a `const`.
-/

namespace ApiProfile.CType

/-! ## Base names -/

/-- A word of a base name. -/
structure IsBaseWord (word : List Char) : Prop where
  ne_nil : word ≠ []
  ne_const : word ≠ "const".toList
  plain : ∀ c ∈ word, separatesWords c = false

/-- What base names are made of: words with single blanks between them. -/
structure Joins (words : List (List Char)) (base : String) : Prop where
  ne_nil : words ≠ []
  isBaseWord : ∀ word ∈ words, IsBaseWord word
  joined : base.toList = [' '].intercalate words

theorem isBaseWord_of_mem {body word : List Char} (h : word ∈ baseWords body) : IsBaseWord word := by
  obtain ⟨hword, hconst⟩ := List.mem_filter.1 h
  obtain ⟨before, after, -, hbetween⟩ := Text.exists_of_mem_wordsBy hword
  exact ⟨hbetween.ne_nil, of_decide_eq_true hconst, hbetween.plain⟩

theorem joins_of_parse {text : String} {type : CType} (h : parse text = .ok type) :
    ∃ words, Joins words type.base := by
  rw [parse_eq] at h
  unfold ofWords at h
  split at h
  · contradiction
  next hne =>
    rw [← Except.ok.inj h]
    exact ⟨_, hne, fun _ => isBaseWord_of_mem, String.toList_ofList⟩

variable {words : List (List Char)} {base : String} {c : Char}

theorem IsBaseWord.not_blank {word : List Char} (h : IsBaseWord word) (hc : c ∈ word) : Text.isBlank c = false := by
  have hplain := h.plain c hc
  unfold separatesWords at hplain
  exact (Bool.or_eq_false_iff.1 hplain).1

namespace Joins

variable (h : Joins words base)
include h

theorem star_not_mem : '*' ∉ base.toList := by
  rw [h.joined]
  intro hstar
  rcases Text.mem_of_mem_intercalate hstar with ⟨word, hword, hc⟩ | hgap
  · have hplain := (h.isBaseWord word hword).plain '*' hc
    exact absurd hplain (by decide)
  · exact absurd hgap (by decide)

theorem splitBy_eq : Text.splitBy (· == ' ') base.toList = words := by
  rw [h.joined]
  refine Text.splitBy_intercalate h.ne_nil fun word hword hblank => ?_
  have hplain := (h.isBaseWord word hword).not_blank hblank
  exact absurd hplain (by decide)

theorem wordsBy_eq : Text.wordsBy separatesWords base.toList = words := by
  rw [h.joined]
  have hgap : separatesWords ' ' := by decide
  exact Text.wordsBy_intercalate hgap fun word hword => ⟨(h.isBaseWord word hword).ne_nil, (h.isBaseWord word hword).plain⟩

theorem base_ne_empty : base ≠ "" := by
  rintro rfl
  exact h.ne_nil h.wordsBy_eq.symm

theorem head?_not_blank (hc : c ∈ base.toList.head?) : Text.isBlank c = false := by
  have hjoined := h.joined
  obtain ⟨word, more, rfl⟩ := List.exists_cons_of_ne_nil h.ne_nil
  have hword := h.isBaseWord word (.head more)
  rw [hjoined, Text.head?_intercalate hword.ne_nil] at hc
  exact hword.not_blank (List.mem_of_head? hc)

theorem getLast?_not_blank (hc : c ∈ base.toList.getLast?) : Text.isBlank c = false := by
  rw [h.joined, Text.getLast?_intercalate _ h.ne_nil fun word hword => (h.isBaseWord word hword).ne_nil] at hc
  exact (h.isBaseWord _ (List.getLast_mem h.ne_nil)).not_blank (List.mem_of_getLast? hc)

end Joins

/-! ## What is written -/

theorem toList_render (type : CType) : type.render.toList = type.base.toList ++ List.replicate type.depth.toNat '*' :=
  String.toList_ofList

/-- Only a type without indirections can look like one with an annotation. -/
theorem annotated_render_iff (type : CType) :
    '[' ∈ type.render.toList ∧ type.render.toList.getLast? = some ']' ↔
      type.depth = 0 ∧ '[' ∈ type.base.toList ∧ type.base.toList.getLast? = some ']' := by
  have hzero : type.depth = 0 ↔ type.depth.toNat = 0 := UInt32.toNat_inj.symm
  rw [toList_render, hzero]
  cases type.depth.toNat with
  | zero => simp
  | succ n =>
    -- what comes last is a star
    rw [List.replicate_succ', ← List.append_assoc, List.getLast?_concat]
    simp

variable {type : CType}

theorem trim_render (h : Joins words type.base) : Text.trim type.render.toList = type.render.toList := by
  have hstars : ∀ c ∈ List.replicate type.depth.toNat '*', Text.isBlank c = false :=
    List.forall_mem_replicate.2 (.inr (by decide))
  rw [toList_render]
  apply Text.trim_of_ends
  · exact Text.head?_append_of (fun c => h.head?_not_blank) fun c hc => hstars c (List.mem_of_head? hc)
  · exact Text.getLast?_append_of (fun c => h.getLast?_not_blank) fun c hc => hstars c (List.mem_of_getLast? hc)

theorem baseWords_render (h : Joins words type.base) : baseWords type.render.toList = words := by
  have hstars : ∀ c ∈ List.replicate type.depth.toNat '*', separatesWords c :=
    List.forall_mem_replicate.2 (.inr (by decide))
  unfold baseWords
  rw [toList_render, Text.wordsBy_append_separators hstars, h.wordsBy_eq]
  exact List.filter_eq_self.2 fun word hword => decide_eq_true (h.isBaseWord word hword).ne_const

theorem count_star_render (h : Joins words type.base) : type.render.toList.count '*' = type.depth.toNat := by
  rw [toList_render, List.count_append, List.count_eq_zero.2 h.star_not_mem, List.count_replicate_self, Nat.zero_add]

/-- What does not look annotated is read as it was written. -/
theorem parse_render_of_plain (h : Joins words type.base)
    (hplain : ¬('[' ∈ type.render.toList ∧ type.render.toList.getLast? = some ']')) :
    parse type.render = .ok type := by
  have hsplit : splitArray type.render.toList = (type.render.toList, false) := if_neg hplain
  have hbase : String.ofList ([' '].intercalate words) = type.base := by rw [← h.joined, String.ofList_toList]
  rw [parse_eq, trim_render h, hsplit]
  dsimp only
  unfold ofWords
  rw [baseWords_render h, if_neg h.ne_nil, count_star_render h, hbase]
  simp

/-- What looks annotated is read with an indirection of its own, if at all. -/
theorem parse_render_of_annotated (h : Joins words type.base)
    (hannotated : '[' ∈ type.render.toList ∧ type.render.toList.getLast? = some ']') :
    parse type.render ≠ .ok type := by
  have hdepth : type.depth = 0 := ((annotated_render_iff type).1 hannotated).1
  have hsplit : splitArray type.render.toList = (type.render.toList.takeWhile (· ≠ '['), true) := if_pos hannotated
  have hstars : (type.render.toList.takeWhile (· ≠ '[')).count '*' = 0 := by
    have hle := (List.takeWhile_sublist (· ≠ '[') (l := type.render.toList)).count_le '*'
    rw [count_star_render h, hdepth] at hle
    exact Nat.le_zero.1 hle
  rw [parse_eq, trim_render h, hsplit]
  dsimp only
  unfold ofWords
  rw [hstars]
  split
  · exact nofun
  · intro heq
    have hone : (1 : UInt32) = type.depth := congrArg CType.depth (Except.ok.inj heq)
    rw [hdepth] at hone
    exact absurd hone (by decide)

/-- A type that was read is read from its written form as the same type again, unless it is not indirected and its
base name has an opening bracket and ends in a closing one. The base name is not empty and has no star; its words, cut
apart at single blanks, are not empty, none is `const`, and no blank is left in them. -/
theorem parse_render_iff {text : String} {type : CType} (h : parse text = .ok type) :
    (parse type.render = .ok type ↔
      ¬(type.depth = 0 ∧ '[' ∈ type.base.toList ∧ type.base.toList.getLast? = some ']')) ∧
    type.base ≠ "" ∧ '*' ∉ type.base.toList ∧
    ∀ word ∈ Text.splitBy (· == ' ') type.base.toList,
      word ≠ [] ∧ word ≠ "const".toList ∧ ∀ c ∈ word, Text.isBlank c = false := by
  obtain ⟨words, hwords⟩ := joins_of_parse h
  rw [← annotated_render_iff]
  refine ⟨⟨fun hread hannotated => parse_render_of_annotated hwords hannotated hread, parse_render_of_plain hwords⟩,
    hwords.base_ne_empty, hwords.star_not_mem, fun word hword => ?_⟩
  rw [hwords.splitBy_eq] at hword
  have hbase := hwords.isBaseWord word hword
  exact ⟨hbase.ne_nil, hbase.ne_const, fun c => hbase.not_blank⟩

/-- A bracket before a `const` stays in the base name. Only under an indirection the type is read again. -/
theorem parse_render_iff_bracketed :
    parse "GLfloat m[2] const" = .ok ⟨"GLfloat m[2]", 0⟩ ∧
      parse (render ⟨"GLfloat m[2]", 0⟩) ≠ .ok ⟨"GLfloat m[2]", 0⟩ ∧
    parse "GLfloat m[2] *const" = .ok ⟨"GLfloat m[2]", 1⟩ ∧
      parse (render ⟨"GLfloat m[2]", 1⟩) = .ok ⟨"GLfloat m[2]", 1⟩ := by
  have hplain : parse "GLfloat m[2] const" = .ok ⟨"GLfloat m[2]", 0⟩ := by decide +kernel
  have hindirected : parse "GLfloat m[2] *const" = .ok ⟨"GLfloat m[2]", 1⟩ := by decide +kernel
  refine ⟨hplain, fun hread => ?_, hindirected, ?_⟩
  · exact (parse_render_iff hplain).1.1 hread (by decide +kernel)
  · exact (parse_render_iff hindirected).1.2 (by decide +kernel)

end ApiProfile.CType
