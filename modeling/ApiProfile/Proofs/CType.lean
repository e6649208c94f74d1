import ApiProfile.CType
import ApiProfile.Proofs.Text.Words
/-!
# How types are read

The words of a type and its stars are those of the part before the array annotation, whatever blanks stand around
it. A text without a bracket has no annotation, and one that ends in a closing bracket has one from its first
opening bracket on.
-/

namespace ApiProfile.CType

theorem separatesWords_of_isBlank {c : Char} (h : Text.isBlank c) : separatesWords c := by
  simp [separatesWords, h]

/-! ## Blanks do not count -/

theorem count_star_of_blank {gap : List Char} (h : ∀ c ∈ gap, Text.isBlank c) : gap.count '*' = 0 := by
  rw [List.count_eq_zero]
  intro hstar
  exact absurd (h '*' hstar) (by decide)

/-- Texts that are read as the same words under as many indirections. -/
structure Alike (text other : List Char) : Prop where
  words : Text.wordsBy separatesWords text = Text.wordsBy separatesWords other
  stars : text.count '*' = other.count '*'

theorem Alike.trans {a b c : List Char} (h : Alike a b) (h' : Alike b c) : Alike a c :=
  ⟨h.words.trans h'.words, h.stars.trans h'.stars⟩

theorem Alike.baseWords {text other : List Char} (h : Alike text other) : baseWords text = baseWords other := by
  unfold CType.baseWords
  rw [h.words]

theorem alike_append_blanks {gap : List Char} (h : ∀ c ∈ gap, Text.isBlank c) (text : List Char) :
    Alike (text ++ gap) text where
  words := Text.wordsBy_append_separators (fun c hc => separatesWords_of_isBlank (h c hc)) text
  stars := by rw [List.count_append, count_star_of_blank h, Nat.add_zero]

theorem alike_blanks_append {gap : List Char} (h : ∀ c ∈ gap, Text.isBlank c) (text : List Char) :
    Alike (gap ++ text) text where
  words := Text.wordsBy_separators_append (fun c hc => separatesWords_of_isBlank (h c hc)) text
  stars := by rw [List.count_append, count_star_of_blank h, Nat.zero_add]

theorem alike_trim (text : List Char) : Alike (Text.trim text) text := by
  obtain ⟨lead, trail, hlead, htrail, heq⟩ := Text.exists_of_trim text
  have h := (alike_append_blanks htrail _).trans (alike_blanks_append hlead (Text.trim text))
  rw [← heq] at h
  exact ⟨h.words.symm, h.stars.symm⟩

theorem alike_trimStart (text : List Char) : Alike (Text.trimStart text) text := by
  have hlead : ∀ c ∈ text.takeWhile Text.isBlank, Text.isBlank c := fun c hc => List.mem_takeWhile_imp hc
  have h := alike_blanks_append hlead (Text.trimStart text)
  rw [show text.takeWhile Text.isBlank ++ Text.trimStart text = text from List.takeWhile_append_dropWhile] at h
  exact ⟨h.words.symm, h.stars.symm⟩

/-! ## Texts with and without an annotation -/

/-- The type of words under a number of indirections; without words it is the fault of its text. -/
def ofWords (text : String) (words : List (List Char)) (depth : Nat) : Except Failure CType :=
  if words = [] then .error (.emptyType text)
  else .ok ⟨String.ofList ([' '].intercalate words), UInt32.ofNat depth⟩

theorem parse_eq (text : String) :
    parse text = ofWords text (baseWords (splitArray (Text.trim text.toList)).1)
      ((splitArray (Text.trim text.toList)).1.count '*' + if (splitArray (Text.trim text.toList)).2 then 1 else 0) := by
  unfold parse ofWords
  generalize splitArray (Text.trim text.toList) = pieces
  obtain ⟨body, isArray⟩ := pieces
  dsimp only
  cases baseWords body with
  | nil => rfl
  | cons word words => cases isArray <;> simp [UInt32.ofNat_add]

theorem splitArray_of_no_bracket {text : List Char} (h : '[' ∉ text) :
    splitArray (Text.trim text) = (Text.trim text, false) :=
  if_neg fun hmem => h (Text.mem_of_mem_trim hmem.1)

theorem splitArray_of_array {front inner trail : List Char} (hfront : '[' ∉ front)
    (htrail : ∀ c ∈ trail, Text.isBlank c) :
    splitArray (Text.trim (front ++ '[' :: (inner ++ ']' :: trail))) = (Text.trimStart front, true) := by
  have htrim : Text.trim (front ++ '[' :: (inner ++ ']' :: trail)) =
      Text.trimStart front ++ '[' :: (inner ++ [']']) := by
    rw [Text.trim_append_cons (by decide), Text.trimEnd_append_cons (by decide), Text.trimEnd_of_blank htrail]
  have hlast : (Text.trimStart front ++ '[' :: (inner ++ [']'])).getLast? = some ']' := by
    rw [← List.cons_append, ← List.append_assoc, List.getLast?_concat]
  have hstart : ∀ c ∈ Text.trimStart front, decide (c ≠ '[') = true := fun c hc =>
    decide_eq_true fun heq => hfront (heq ▸ (List.dropWhile_sublist _).subset hc)
  rw [htrim]
  unfold splitArray
  rw [if_pos ⟨by simp, hlast⟩, List.takeWhile_append_of_pos hstart]
  simp

theorem parse_of_no_bracket {text : String} {body : List Char} (hbody : Alike text.toList body)
    (hbracket : '[' ∉ text.toList) : parse text = ofWords text (baseWords body) (body.count '*') := by
  have hall := (alike_trim text.toList).trans hbody
  rw [parse_eq, splitArray_of_no_bracket hbracket, hall.baseWords, hall.stars]
  rfl

theorem parse_of_array {text : String} (front inner trail : List Char) {body : List Char}
    (htext : text.toList = front ++ '[' :: (inner ++ ']' :: trail)) (hfront : '[' ∉ front)
    (htrail : ∀ c ∈ trail, Text.isBlank c) (hbody : Alike front body) :
    parse text = ofWords text (baseWords body) (body.count '*' + 1) := by
  have hall := (alike_trimStart front).trans hbody
  rw [parse_eq, htext, splitArray_of_array hfront htrail, hall.baseWords, hall.stars]
  rfl

end ApiProfile.CType
