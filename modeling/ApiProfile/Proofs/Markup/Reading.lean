import ApiProfile.Markup.Document
import ApiProfile.Proofs.Markup.Scanning
import ApiProfile.Proofs.Text.Denoting
/-!
# Reading characters and tags back

What is written for a character is read as that character, and what is written in a tag as the name and the
attributes of it. Since a reference holds neither brackets nor quotes, what is written for a value does not end it.
-/

namespace ApiProfile.Markup

/-! ## Blanks and names -/

theorem IsGap.isSpace {gap : List Char} (h : IsGap gap) : ∀ c ∈ gap, isSpace c = true := by
  intro c hc
  have hmem := h c hc
  simp only [List.mem_cons, List.not_mem_nil, or_false] at hmem
  rcases hmem with rfl | rfl | rfl | rfl <;> rfl

theorem IsGap.plain {gap : List Char} (h : IsGap gap) : ∀ c ∈ gap, c ∉ ['<', '>', '/', '=', '&', '\'', '"'] := by
  intro c hc
  have hmem := h c hc
  simp only [List.mem_cons, List.not_mem_nil, or_false] at hmem
  rcases hmem with rfl | rfl | rfl | rfl <;> decide

theorem isGap_of_isSpace {gap : List Char} (h : ∀ c ∈ gap, isSpace c = true) : IsGap gap := by
  intro c hc
  have hspace := h c hc
  simp only [isSpace, Bool.or_eq_true, decide_eq_true_eq] at hspace
  rcases hspace with ((rfl | rfl) | rfl) | rfl <;> decide

theorem IsName.plain {name : List Char} (h : IsName name) :
    ∀ c ∈ name, isSpace c = false ∧ c ∉ ['<', '>', '/', '=', '&', '\'', '"'] := by
  intro c hc
  have hnot := h.apart c hc
  simp only [List.mem_cons, List.not_mem_nil, or_false, not_or] at hnot
  unfold Markup.isSpace
  simp [hnot]

/-! ## References -/

theorem plain_of_digit {c : Char} (h : ∃ d < 16, c = Nat.digitChar d ∨ c = (Nat.digitChar d).toUpper) :
    (c ∉ ['&', ';'] ∧ c ∉ ['<', '\'', '"']) ∧ c ≠ 'x' := by
  obtain ⟨d, hd, hc⟩ := h
  have hall : ∀ d < 16, ∀ c ∈ [Nat.digitChar d, (Nat.digitChar d).toUpper],
      (c ∉ ['&', ';'] ∧ c ∉ ['<', '\'', '"']) ∧ c ≠ 'x' := by decide
  exact hall d hd c (by simpa using hc)

/-- What names a character does not end the reference, and has no brackets and quotes in it. -/
theorem Refers.plain {c : Char} {name : List Char} (h : Refers c name) :
    ∀ d ∈ name, d ∉ ['&', ';'] ∧ d ∉ ['<', '\'', '"'] := by
  cases h with
  | decimal hc h =>
    intro d hd
    rcases List.mem_cons.1 hd with rfl | hd
    · decide
    · exact (plain_of_digit (h.digits (by decide) d hd)).1
  | hexadecimal hc h =>
    intro d hd
    rcases List.mem_cons.1 hd with rfl | hd
    · decide
    · rcases List.mem_cons.1 hd with rfl | hd
      · decide
      · exact (plain_of_digit (h.digits (by decide) d hd)).1
  | _ => decide

theorem charOf?_toNat {c : Char} (hc : c ≠ '\x00') : charOf? c.toNat = some c := by
  have hvalid : c.toNat ≠ 0 ∧ c.toNat.isValidChar := by
    refine ⟨fun h => hc ?_, c.valid⟩
    exact Char.ext (UInt32.toNat_inj.1 h)
  unfold charOf?
  rw [dif_pos hvalid]
  rfl

/-- A reference that starts with `#` is none of the named ones. -/
theorem referenced?_number (name : List Char) :
    referenced? ('#' :: name) =
      match name with
      | 'x' :: digits => (Text.digits? 16 digits).bind charOf?
      | digits => (Text.digits? 10 digits).bind charOf? := by
  have hnamed : ∀ {named : List Char}, named.head? ≠ some '#' → '#' :: name ≠ named := by
    rintro named h rfl
    exact h rfl
  unfold referenced?
  rw [if_neg (hnamed (by decide)), if_neg (hnamed (by decide)), if_neg (hnamed (by decide)),
    if_neg (hnamed (by decide)), if_neg (hnamed (by decide))]
  split
  · rename_i heq
    cases heq
    rfl
  · rename_i hx heq
    cases heq
    split
    · rename_i digits
      exact absurd rfl (hx digits)
    · rfl
  · rename_i hnone
    exact absurd rfl (hnone name)

theorem referenced?_of_refers {c : Char} {name : List Char} (h : Refers c name) : referenced? name = some c := by
  cases h with
  | @decimal _ digits hc h =>
    rw [referenced?_number]
    split
    -- no digit is the mark of hexadecimal numbers
    · rename_i rest
      exact absurd rfl (plain_of_digit (h.digits (by decide) 'x' (.head rest))).2
    · rw [(Text.digits?_eq_some_iff (.inl rfl)).2 h]
      exact charOf?_toNat hc
  | hexadecimal hc h =>
    rw [referenced?_number]
    split
    · rename_i heq
      cases heq
      rw [(Text.digits?_eq_some_iff (.inr rfl)).2 h]
      exact charOf?_toNat hc
    · rename_i hx
      exact absurd rfl (hx _)
  | _ => decide

theorem unescapeFrom_reference {name : List Char} (hname : ∀ d ∈ name, d ∉ ['&', ';']) (read rest : List Char) :
    unescapeFrom (some read) (name ++ ';' :: rest) = unescapeFrom (some (name.reverse ++ read)) (';' :: rest) := by
  induction name generalizing read with
  | nil => rfl
  | cons d name ih =>
    have hd := hname d (.head name)
    simp only [List.mem_cons, List.not_mem_nil, or_false, not_or] at hd
    rw [List.cons_append, unescapeFrom, if_neg hd.1, if_neg hd.2, ih fun e he => hname e (.tail d he),
      List.reverse_cons, List.append_assoc]
    rfl

/-- What is written for a text is read as it. -/
theorem unescape_of_escapes {plain : Char → Prop} {content raw : List Char} (h : Escapes plain content raw) :
    unescape raw = some content := by
  unfold unescape
  induction h with
  | nil => rfl
  | literal _ hc _ ih => rw [unescapeFrom, if_neg hc, ih]; rfl
  | @reference c name content raw hname _ ih =>
    rw [List.cons_append, unescapeFrom, if_pos rfl, unescapeFrom_reference fun d hd => (hname.plain d hd).1,
      unescapeFrom,
      if_neg (by decide), if_pos rfl, List.append_nil, List.reverse_reverse, referenced?_of_refers hname]
    dsimp only
    rw [ih]
    rfl

/-- Only characters that may stand as they are do so where others could end a value or a text. -/
theorem Escapes.plain_of_mem {plain : Char → Prop} {content raw : List Char} (h : Escapes plain content raw)
    {d : Char} (hd : d ∈ raw) : plain d ∨ d ∉ ['<', '\'', '"'] := by
  induction h with
  | nil => cases hd
  | literal hplain _ _ ih =>
    rcases List.mem_cons.1 hd with rfl | hd
    · exact .inl hplain
    · exact ih hd
  | reference hname _ ih =>
    rcases List.mem_append.1 hd with hd | hd
    · rcases List.mem_cons.1 hd with rfl | hd
      · exact .inr (by decide)
      · exact .inr (hname.plain d hd).2
    · rcases List.mem_cons.1 hd with rfl | hd
      · exact .inr (by decide)
      · exact ih hd

/-- What is written for a value does not end it. -/
theorem Escapes.ne_quote {content raw : List Char} {quote : Char} (h : Escapes (· ≠ quote) content raw)
    (hquote : quote = '\'' ∨ quote = '"') : ∀ d ∈ raw, d ≠ quote := by
  intro d hd heq
  rcases h.plain_of_mem hd with hne | hnot
  · exact hne heq
  · rcases hquote with rfl | rfl <;> rw [heq] at hnot <;> exact hnot (by decide)

/-- What is written for a text starts no markup. -/
theorem Escapes.ne_open {content raw : List Char} (h : Escapes (· ≠ '<') content raw) : ∀ d ∈ raw, d ≠ '<' := by
  intro d hd
  rcases h.plain_of_mem hd with hne | hnot
  · exact hne
  · rintro rfl
    exact hnot (by decide)

theorem Escapes.append {plain : Char → Prop} {content raw content' raw' : List Char} (h : Escapes plain content raw)
    (h' : Escapes plain content' raw') : Escapes plain (content ++ content') (raw ++ raw') := by
  induction h with
  | nil => exact h'
  | literal hplain hc _ ih => exact .literal hplain hc ih
  | @reference c name content raw hname _ ih =>
    rw [List.append_assoc, List.cons_append]
    exact .reference hname ih

/-! ## Attributes -/

theorem takeWhile_append_cons {α : Type} {p : α → Bool} {l : List α} (h : ∀ a ∈ l, p a = true) {a : α}
    (ha : p a = false) (rest : List α) : (l ++ a :: rest).takeWhile p = l := by
  rw [List.takeWhile_append_of_pos h, List.takeWhile_cons_of_neg (by rw [ha]; exact Bool.false_ne_true),
    List.append_nil]

theorem dropWhile_append_cons {α : Type} {p : α → Bool} {l : List α} (h : ∀ a ∈ l, p a = true) {a : α}
    (ha : p a = false) (rest : List α) : (l ++ a :: rest).dropWhile p = a :: rest := by
  rw [List.dropWhile_append_of_pos h, List.dropWhile_cons_of_neg (by rw [ha]; exact Bool.false_ne_true)]

theorem dropWhile_blanks {gap : List Char} (hgap : ∀ c ∈ gap, isSpace c = true) : gap.dropWhile isSpace = [] := by
  rw [← List.append_nil gap, List.dropWhile_append_of_pos hgap]
  rfl

theorem quoted?_written {quote : Char} (hquote : quote = '\'' ∨ quote = '"') {after raw : List Char}
    (hafter : ∀ c ∈ after, isSpace c = true) (hraw : ∀ c ∈ raw, c ≠ quote) (rest : List Char) :
    quoted? (after ++ quote :: (raw ++ quote :: rest)) = some (raw, rest) := by
  have hspace : isSpace quote = false := by rcases hquote with rfl | rfl <;> decide
  have hinside : ∀ c ∈ raw, decide (c ≠ quote) = true := fun c hc => decide_eq_true (hraw c hc)
  have hend : decide (quote ≠ quote) = false := decide_eq_false (not_not_intro rfl)
  unfold quoted?
  rw [dropWhile_append_cons hafter hspace]
  dsimp only
  rw [if_pos hquote, dropWhile_append_cons (p := fun c => decide (c ≠ quote)) hinside hend,
    takeWhile_append_cons (p := fun c => decide (c ≠ quote)) hinside hend]

/-- A key runs up to the blanks before its `=`, or to the `=`. -/
theorem rawAttribute?_written {seen : List String} {key before after raw : List Char} {c quote : Char}
    (hkey : ∀ d ∈ key, isSpace d = false ∧ d ≠ '=') (hnew : String.ofList (c :: key) ∉ seen)
    (hbefore : ∀ d ∈ before, isSpace d = true) (hafter : ∀ d ∈ after, isSpace d = true)
    (hquote : quote = '\'' ∨ quote = '"') (hraw : ∀ d ∈ raw, d ≠ quote) (rest : List Char) :
    rawAttribute? seen c (key ++ (before ++ '=' :: (after ++ quote :: (raw ++ quote :: rest)))) =
      some ⟨c :: key, raw, rest⟩ := by
  have hinside : ∀ d ∈ key, (!(decide (d = '=') || isSpace d)) = true := by
    intro d hd
    rw [(hkey d hd).1, decide_eq_false (hkey d hd).2]
    rfl
  -- what ends the key is a blank or the `=` itself
  obtain ⟨d, more, heq, hd⟩ : ∃ d more, before ++ '=' :: (after ++ quote :: (raw ++ quote :: rest)) = d :: more ∧
      (!(decide (d = '=') || isSpace d)) = false := by
    cases before with
    | nil => exact ⟨_, _, rfl, by decide⟩
    | cons d before => exact ⟨d, _, rfl, by rw [hbefore d (.head before), Bool.or_true]; rfl⟩
  have htake := takeWhile_append_cons (p := fun d => !(decide (d = '=') || isSpace d)) hinside hd more
  have hdrop := dropWhile_append_cons (p := fun d => !(decide (d = '=') || isSpace d)) hinside hd more
  rw [← heq] at htake hdrop
  unfold rawAttribute?
  dsimp only
  rw [hdrop, htake, dropWhile_append_cons hbefore (by decide)]
  split
  · rename_i hafterEquals
    cases hafterEquals
    rw [if_neg hnew, quoted?_written hquote hafter hraw]
    rfl
  · rename_i hnone
    exact absurd rfl (hnone _)

theorem attributesAfter_nil {seen : List String} {cs : List Char} (h : cs.dropWhile isSpace = []) :
    attributesAfter seen cs = .ok [] := by
  rw [attributesAfter]
  split
  · rfl
  · rename_i c rest hcs
    rw [h] at hcs
    cases hcs

theorem attributesAfter_cons {seen : List String} {cs rest : List Char} {c : Char}
    (h : cs.dropWhile isSpace = c :: rest) {found : RawAttribute} (hfound : rawAttribute? seen c rest = some found)
    {value : List Char} (hvalue : unescape found.value = some value) {more : List (String × String)}
    (hmore : attributesAfter (String.ofList found.key :: seen) found.rest = .ok more) :
    attributesAfter seen cs = .ok ((String.ofList found.key, String.ofList value) :: more) := by
  rw [attributesAfter]
  split
  · rename_i hcs
    rw [h] at hcs
    cases hcs
  · rename_i hcs
    rw [h] at hcs
    cases hcs
    split
    · rename_i hnone
      rw [hfound] at hnone
      cases hnone
    · rename_i raw hraw
      rw [hfound] at hraw
      cases hraw
      rw [hvalue]
      dsimp only
      rw [hmore]

/-- Attributes are read as they were written, up to blanks at the end. -/
theorem attributesAfter_written {attributes : List (String × String)} {raw gap : List Char}
    (h : WritesAttributes attributes raw) (hgap : IsGap gap) {seen : List String}
    (hkeys : (attributes.map Prod.fst).Nodup) (hnew : ∀ key ∈ attributes.map Prod.fst, key ∉ seen) :
    attributesAfter seen (raw ++ gap) = .ok attributes := by
  induction h generalizing seen with
  | nil => exact attributesAfter_nil (dropWhile_blanks hgap.isSpace)
  | @cons key value more blanks before after raw rest quote _ hblanks hbefore hafter hkey hquote hvalue _ ih =>
    obtain ⟨c, name, hname⟩ := List.exists_cons_of_ne_nil hkey.ne_nil
    have hplain := hkey.plain
    rw [hname] at hplain
    have hplainKey : ∀ d ∈ name, isSpace d = false ∧ d ≠ '=' := fun d hd =>
      ⟨(hplain d (.tail c hd)).1, fun heq => (hplain d (.tail c hd)).2 (by rw [heq]; decide)⟩
    have hraw : ∀ d ∈ raw, d ≠ quote := hvalue.ne_quote hquote
    have hofList : String.ofList (c :: name) = key := by rw [← hname, String.ofList_toList]
    have hdrop : (blanks ++ (c :: name) ++ before ++ '=' :: after ++ quote :: raw ++ quote :: rest ++ gap).dropWhile
        isSpace = c :: (name ++ (before ++ '=' :: (after ++ quote :: (raw ++ quote :: (rest ++ gap))))) := by
      simp only [List.append_assoc, List.cons_append]
      exact dropWhile_append_cons hblanks.isSpace (hplain c (.head name)).1 _
    rw [hname, attributesAfter_cons hdrop
      (rawAttribute?_written hplainKey (by rw [hofList]; exact hnew key (.head _)) hbefore.isSpace
        hafter.isSpace hquote hraw _)
      (unescape_of_escapes hvalue) (ih (List.nodup_cons.1 hkeys).2 ?_), hofList, String.ofList_toList]
    -- the attributes behind this one have neither its key nor one that was seen before it
    intro other hother
    rw [List.mem_cons, not_or, hofList]
    exact ⟨fun heq => (List.nodup_cons.1 hkeys).1 (heq ▸ hother), hnew other (.tail _ hother)⟩

/-- What is written in a tag behind its name starts with a blank. -/
theorem WritesAttributes.isSpace_head {attributes : List (String × String)} {raw gap : List Char}
    (h : WritesAttributes attributes raw) (hgap : IsGap gap) :
    ∀ c ∈ (raw ++ gap).head?, isSpace c = true := by
  intro c hc
  cases h with
  | nil => exact hgap.isSpace c (List.mem_of_mem_head? hc)
  | @cons key value more blanks before after raw rest quote hne hblanks =>
    obtain ⟨d, blanks, rfl⟩ := List.exists_cons_of_ne_nil hne
    cases hc
    exact hblanks.isSpace c (.head _)

theorem splitName_written {name rest : List Char} (hname : IsName name)
    (hrest : ∀ c ∈ rest.head?, isSpace c = true) : splitName (name ++ rest) = (name, rest) := by
  have hinside : ∀ c ∈ name, (!isSpace c) = true := by
    intro c hc
    rw [(hname.plain c hc).1]
    rfl
  unfold splitName
  cases rest with
  | nil =>
    rw [List.append_nil, ← List.append_nil name, List.takeWhile_append_of_pos hinside,
      List.dropWhile_append_of_pos hinside]
    rfl
  | cons c rest =>
    have hc : (!isSpace c) = false := by
      rw [hrest c rfl]
      rfl
    rw [takeWhile_append_cons hinside hc, dropWhile_append_cons hinside hc]

/-- An element is opened with the name and the attributes in its tag. -/
theorem opened_written {name : String} {attributes : List (String × String)} {tag : List Char}
    (h : WritesTag name attributes tag) : Builder.opened tag = .ok ⟨name, attributes, []⟩ := by
  obtain ⟨hname, hkeys, hraw, hgap⟩ := h
  unfold Builder.opened Markup.attributes
  rw [List.append_assoc, splitName_written hname (hraw.isSpace_head hgap)]
  dsimp only
  rw [attributesAfter_written hraw hgap hkeys fun _ _ => List.not_mem_nil, String.ofList_toList]

end ApiProfile.Markup
