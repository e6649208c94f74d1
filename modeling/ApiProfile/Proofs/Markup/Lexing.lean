import ApiProfile.Proofs.Markup.Reading
/-!
# The next token of what was written

Each piece of a document, whatever comes behind it, is one token: `next` ends a piece where it was written to
end. A run of text ends where the next piece starts, so it is read together with the runs around it.
-/

namespace ApiProfile.Markup

section Machines

variable {σ : Type} {step : σ → Char → Option σ} {s s' : σ}

theorem foldlM_append_of {read : List Char} (h : read.foldlM step s = some s') (rest : List Char) :
    (read ++ rest).foldlM step s = rest.foldlM step s' := by
  rw [List.foldlM_append, h]
  rfl

/-- A token is made of what a machine reads before it stops. -/
theorem ofScan_of_foldlM {content? : List Char → Option Token} {cs : List Char} {c : Char} {token : Token}
    (h : cs.foldlM step s = some s') (hstop : step s' c = none) (hcontent : content? cs = some token)
    (rest : List Char) : Next.ofScan content? (scan step s [] (cs ++ c :: rest)) = .token token rest := by
  rw [scan_of_foldlM h hstop, List.reverse_nil, List.nil_append]
  unfold Next.ofScan
  dsimp only
  rw [hcontent]

end Machines

/-! ## Asides and sections -/

theorem next_comment {body : List Char} (h : ¬ "-->".toList <:+: body) (rest : List Char) :
    next ("<!--".toList ++ body ++ "-->".toList ++ rest) = .token .aside rest := by
  obtain ⟨k, hk⟩ := foldlM_commentStep h
  -- the two hyphens of the start count as read ones
  have hread : ("!--".toList ++ (body ++ "--".toList)).foldlM commentStep (0, 0) =
      some (k + 2, body.length + 3 + 2) := by
    rw [foldlM_append_of rfl, foldlM_append_of hk]
    rfl
  have hstop : commentStep (k + 2, body.length + 3 + 2) '>' = none :=
    if_pos ⟨rfl, Nat.le_add_left 2 k, Nat.le_add_left 5 body.length⟩
  have hwritten : "<!--".toList ++ body ++ "-->".toList ++ rest =
      '<' :: ("!--".toList ++ (body ++ "--".toList) ++ '>' :: rest) := by simp
  rw [hwritten]
  exact ofScan_of_foldlM hread hstop rfl rest

theorem next_instruction {body : List Char} (h : ¬ "?>".toList <:+: '?' :: body) (rest : List Char) :
    next ("<?".toList ++ body ++ "?>".toList ++ rest) = .token .aside rest := by
  obtain ⟨mark, hmark⟩ := foldlM_instructionStep h
  have hread : ('?' :: body ++ ['?']).foldlM instructionStep false = some true := by
    rw [foldlM_append_of hmark]
    cases mark <;> rfl
  have hwritten : "<?".toList ++ body ++ "?>".toList ++ rest = '<' :: ('?' :: body ++ ['?'] ++ '>' :: rest) := by simp
  have hlength : 2 ≤ ('?' :: body ++ ['?']).length := by simp
  rw [hwritten]
  exact ofScan_of_foldlM hread rfl (if_pos hlength) rest

theorem next_doctype {body : List Char} (h : Bracketed body) (hbody : ¬ IsGap body)
    (rest : List Char) : next ("<!DOCTYPE".toList ++ body ++ ['>'] ++ rest) = .token .aside rest := by
  have hread : ("!DOCTYPE".toList ++ body).foldlM doctypeStep 0 = some 0 := by
    rw [foldlM_append_of rfl]
    exact foldlM_doctypeStep h 0
  have hwritten : "<!DOCTYPE".toList ++ body ++ ['>'] ++ rest =
      '<' :: ("!DOCTYPE".toList ++ body ++ '>' :: rest) := by simp
  have hany : body.any (!isSpace ·) = true := by
    by_contra hnone
    rw [Bool.not_eq_true, List.any_eq_false] at hnone
    exact hbody (isGap_of_isSpace fun c hc => by simpa using hnone c hc)
  rw [hwritten]
  exact ofScan_of_foldlM hread rfl (if_pos ⟨rfl, hany⟩) rest

theorem next_aside {piece : List Char} (h : IsAside piece) (rest : List Char) :
    next (piece ++ rest) = .token .aside rest := by
  cases h with
  | comment h => exact next_comment h rest
  | instruction h => exact next_instruction h rest
  | doctype h hbody => exact next_doctype h hbody rest

theorem next_cdata {content : List Char} (h : ¬ "]]>".toList <:+: content) (rest : List Char) :
    next ("<![CDATA[".toList ++ content ++ "]]>".toList ++ rest) = .token (.cdata content) rest := by
  obtain ⟨k, hk⟩ := foldlM_cdataStep h
  have hread : ("![CDATA[".toList ++ (content ++ "]]".toList)).foldlM cdataStep 0 = some (k + 2) := by
    rw [foldlM_append_of rfl, foldlM_append_of hk]
    rfl
  have hstop : cdataStep (k + 2) '>' = none := if_pos ⟨rfl, Nat.le_add_left 2 k⟩
  have hwritten : "<![CDATA[".toList ++ content ++ "]]>".toList ++ rest =
      '<' :: ("![CDATA[".toList ++ (content ++ "]]".toList) ++ '>' :: rest) := by simp
  have hcontent : cdata? ("![CDATA[".toList ++ (content ++ "]]".toList)) = some (.cdata content) := by
    have hinside : (content ++ "]]".toList).dropLast.dropLast = content := by
      rw [show content ++ "]]".toList = content ++ [']'] ++ [']'] by simp, List.dropLast_concat,
        List.dropLast_concat]
    have hstart : "![CDATA[".toList.isPrefixOf ("![CDATA[".toList ++ (content ++ "]]".toList)) = true := rfl
    have hdrop : ("![CDATA[".toList ++ (content ++ "]]".toList)).drop 8 = content ++ "]]".toList := rfl
    unfold cdata?
    rw [if_pos hstart, hdrop, hinside]
  rw [hwritten]
  exact ofScan_of_foldlM hread hstop hcontent rest

/-! ## Tags -/

theorem not_mem_of_name {c : Char} (h : c ∉ ['<', '>', '/', '=', '&', '\'', '"']) : c ∉ ['>', '\'', '"'] := by
  intro hc
  simp only [List.mem_cons, List.not_mem_nil, or_false] at hc
  rcases hc with rfl | rfl | rfl <;> exact h (by decide)

/-- Brackets in a tag stand in quotes. -/
theorem foldlM_tagStep_attributes {attributes : List (String × String)} {raw : List Char}
    (h : WritesAttributes attributes raw) : raw.foldlM tagStep none = some none := by
  induction h with
  | nil => rfl
  | @cons key value more blanks before after raw rest quote _ hblanks hbefore hafter hkey hquote hvalue _ ih =>
    -- up to its first quote the attribute holds nothing that the machine minds
    have hstart : ∀ c ∈ blanks ++ key.toList ++ before ++ '=' :: after, c ∉ ['>', '\'', '"'] := by
      intro c hc
      simp only [List.mem_append, List.mem_cons] at hc
      rcases hc with ((hc | hc) | hc) | rfl | hc
      · exact not_mem_of_name (hblanks.plain c hc)
      · exact not_mem_of_name (hkey.plain c hc).2
      · exact not_mem_of_name (hbefore.plain c hc)
      · decide
      · exact not_mem_of_name (hafter.plain c hc)
    have hraw : ∀ c ∈ raw, c ≠ quote := hvalue.ne_quote hquote
    have hopen : tagStep none quote = some (some quote) := by rcases hquote with rfl | rfl <;> rfl
    have hclose : tagStep (some quote) quote = some none := if_pos rfl
    rw [List.append_assoc, foldlM_append_of (foldlM_tagStep_plain hstart), List.cons_append, List.foldlM_cons, hopen]
    dsimp only [bind, Option.bind]
    rw [foldlM_append_of (foldlM_tagStep_value hraw), List.foldlM_cons, hclose]
    exact ih

theorem foldlM_tagStep_tag {name : String} {attributes : List (String × String)} {tag : List Char}
    (h : WritesTag name attributes tag) : tag.foldlM tagStep none = some none := by
  obtain ⟨hname, -, hraw, hgap⟩ := h
  rw [List.append_assoc, foldlM_append_of (foldlM_tagStep_plain fun c hc => not_mem_of_name (hname.plain c hc).2),
    foldlM_append_of (foldlM_tagStep_attributes hraw)]
  exact foldlM_tagStep_plain fun c hc => not_mem_of_name (hgap.plain c hc)

theorem next_open (cs : List Char) : next ('<' :: cs) = nextMarkup cs := rfl

/-- What does not start with a mark of its own is a tag. -/
theorem nextMarkup_of_head {c : Char} {cs : List Char} (h : c ≠ '!' ∧ c ≠ '?') :
    nextMarkup (c :: cs) = .ofScan tag? (scan tagStep none [] (c :: cs)) := by
  unfold nextMarkup
  split
  · rename_i hnil
    cases hnil
  -- five kinds of markup start with one mark, and one kind with the other
  · rename_i heq
    exact absurd (List.cons.inj heq).1 h.1
  · rename_i heq
    exact absurd (List.cons.inj heq).1 h.1
  · rename_i heq
    exact absurd (List.cons.inj heq).1 h.1
  · rename_i heq
    exact absurd (List.cons.inj heq).1 h.1
  · rename_i heq
    exact absurd (List.cons.inj heq).1 h.1
  · rename_i heq
    exact absurd (List.cons.inj heq).1 h.2
  · rfl

theorem tag?_of_head {c : Char} {cs : List Char} (h : c ≠ '/') :
    tag? (c :: cs) =
      if (c :: cs).getLast? = some '/' then some (.emptyTag (c :: cs).dropLast) else some (.openTag (c :: cs)) := by
  unfold tag?
  split
  · rename_i heq
    exact absurd (List.cons.inj heq).1 h
  · rfl

/-- A name does not start like other markup. -/
theorem WritesTag.exists_head {name : String} {attributes : List (String × String)} {tag : List Char}
    (h : WritesTag name attributes tag) : ∃ c cs, tag = c :: cs ∧ c ≠ '!' ∧ c ≠ '?' ∧ c ≠ '/' := by
  cases h with
  | @intro raw gap hname _ _ _ =>
  obtain ⟨c, cs, hcs⟩ := List.exists_cons_of_ne_nil hname.ne_nil
  have hhead := hname.head
  have hplain := hname.plain
  rw [hcs] at hhead hplain ⊢
  refine ⟨c, cs ++ raw ++ gap, rfl, fun heq => hhead.1 (congrArg some heq), fun heq => hhead.2 (congrArg some heq), ?_⟩
  rintro rfl
  exact (hplain '/' (.head cs)).2 (by decide)

theorem getLast?_append_ne {α : Type} {a : α} {xs ys : List α} (hxs : xs.getLast? ≠ some a)
    (hys : ys.getLast? ≠ some a) : (xs ++ ys).getLast? ≠ some a := by
  rw [List.getLast?_append]
  cases h : ys.getLast? with
  | none => exact hxs
  | some b => rwa [h] at hys

theorem getLast?_ne_of_forall {α : Type} {a : α} {xs : List α} (h : ∀ b ∈ xs, b ≠ a) : xs.getLast? ≠ some a :=
  fun heq => h a (List.mem_of_getLast? heq) rfl

theorem WritesAttributes.getLast?_ne {attributes : List (String × String)} {raw : List Char}
    (h : WritesAttributes attributes raw) : raw.getLast? ≠ some '/' := by
  induction h with
  | nil => nofun
  | @cons key value more blanks before after raw rest quote _ _ _ _ _ hquote _ _ ih =>
    rw [List.append_cons]
    refine getLast?_append_ne ?_ ih
    rw [List.getLast?_concat]
    rcases hquote with rfl | rfl <;> decide

/-- An opening tag does not look like an empty one. -/
theorem WritesTag.getLast?_ne {name : String} {attributes : List (String × String)} {tag : List Char}
    (h : WritesTag name attributes tag) : tag.getLast? ≠ some '/' := by
  obtain ⟨hname, -, hraw, hgap⟩ := h
  refine getLast?_append_ne (getLast?_append_ne (getLast?_ne_of_forall ?_) hraw.getLast?_ne)
    (getLast?_ne_of_forall ?_)
  · rintro c hc rfl
    exact (hname.plain '/' hc).2 (by decide)
  · rintro c hc rfl
    exact hgap.plain '/' hc (by decide)

theorem tagStep_close : tagStep none '>' = none := rfl

theorem next_openTag {name : String} {attributes : List (String × String)} {tag : List Char}
    (h : WritesTag name attributes tag) (rest : List Char) :
    next ('<' :: tag ++ '>' :: rest) = .token (.openTag tag) rest := by
  obtain ⟨c, cs, heq, hbang, hquestion, hslash⟩ := h.exists_head
  have hcontent : tag? tag = some (.openTag tag) := by
    have hlast := h.getLast?_ne
    rw [heq] at hlast ⊢
    rw [tag?_of_head hslash, if_neg hlast]
  have hscan := ofScan_of_foldlM (foldlM_tagStep_tag h) tagStep_close hcontent rest
  rw [heq, List.cons_append] at hscan
  rw [heq, List.cons_append, next_open, List.cons_append, nextMarkup_of_head ⟨hbang, hquestion⟩]
  exact hscan

theorem next_emptyTag {name : String} {attributes : List (String × String)} {tag : List Char}
    (h : WritesTag name attributes tag) (rest : List Char) :
    next ('<' :: tag ++ "/>".toList ++ rest) = .token (.emptyTag tag) rest := by
  obtain ⟨c, cs, heq, hbang, hquestion, hslash⟩ := h.exists_head
  have hread : (tag ++ ['/']).foldlM tagStep none = some none := by
    rw [foldlM_append_of (foldlM_tagStep_tag h)]
    rfl
  have hcontent : tag? (tag ++ ['/']) = some (.emptyTag tag) := by
    rw [heq, List.cons_append, tag?_of_head hslash, ← List.cons_append, List.getLast?_concat, if_pos rfl,
      List.dropLast_concat]
  have hwritten : '<' :: tag ++ "/>".toList ++ rest = '<' :: (tag ++ ['/'] ++ '>' :: rest) := by simp
  have hscan := ofScan_of_foldlM hread tagStep_close hcontent rest
  rw [hwritten, next_open]
  rw [heq, List.cons_append, List.cons_append] at hscan ⊢
  rw [nextMarkup_of_head ⟨hbang, hquestion⟩]
  exact hscan

theorem closingName_written {name gap : List Char} (hname : IsName name) (hgap : IsGap gap) :
    closingName (name ++ gap) = name := by
  -- blanks are dropped from the end, up to the last character of the name
  obtain ⟨c, cs, hcs⟩ := List.exists_cons_of_ne_nil (List.reverse_ne_nil_iff.2 hname.ne_nil)
  have hc : isSpace c = false := (hname.plain c (List.mem_reverse.1 (by rw [hcs]; exact .head cs))).1
  have hrest : (name ++ gap).reverse.dropWhile isSpace = name.reverse := by
    rw [List.reverse_append, hcs]
    exact dropWhile_append_cons (fun d hd => hgap.isSpace d (List.mem_reverse.1 hd)) hc cs
  unfold closingName
  rw [hrest]
  split
  · rename_i hnil
    rw [hcs] at hnil
    cases hnil
  · exact List.reverse_reverse name

theorem next_closeTag {name gap : List Char} (hname : IsName name) (hgap : IsGap gap)
    (rest : List Char) : next ("</".toList ++ name ++ gap ++ '>' :: rest) = .token (.closeTag name) rest := by
  have hread : ('/' :: (name ++ gap)).foldlM tagStep none = some none := by
    refine foldlM_tagStep_plain fun c hc => ?_
    rcases List.mem_cons.1 hc with rfl | hc
    · decide
    · rcases List.mem_append.1 hc with hc | hc
      · exact not_mem_of_name (hname.plain c hc).2
      · exact not_mem_of_name (hgap.plain c hc)
  have hcontent : tag? ('/' :: (name ++ gap)) = some (.closeTag name) :=
    congrArg (fun name => some (Token.closeTag name)) (closingName_written hname hgap)
  have hwritten : "</".toList ++ name ++ gap ++ '>' :: rest = '<' :: ('/' :: (name ++ gap) ++ '>' :: rest) := by simp
  rw [hwritten]
  exact ofScan_of_foldlM hread rfl hcontent rest

/-! ## Text -/

theorem next_text {raw rest : List Char} (hne : raw ≠ []) (hraw : ∀ c ∈ raw, c ≠ '<')
    (hrest : ∀ c ∈ rest.head?, c = '<') : next (raw ++ rest) = .token (.text raw) rest := by
  obtain ⟨c, cs, rfl⟩ := List.exists_cons_of_ne_nil hne
  have hinside : ∀ d ∈ cs, decide (d ≠ '<') = true := fun d hd => decide_eq_true (hraw d (.tail c hd))
  rw [List.cons_append, next, if_neg (hraw c (.head cs))]
  cases rest with
  | nil =>
    rw [List.append_nil, ← List.append_nil cs, List.takeWhile_append_of_pos hinside,
      List.dropWhile_append_of_pos hinside]
    simp
  | cons d rest =>
    have hd : decide (d ≠ '<') = false := decide_eq_false (not_not_intro (hrest d rfl))
    rw [takeWhile_append_cons (p := fun d => decide (d ≠ '<')) hinside hd,
      dropWhile_append_cons (p := fun d => decide (d ≠ '<')) hinside hd]

end ApiProfile.Markup
