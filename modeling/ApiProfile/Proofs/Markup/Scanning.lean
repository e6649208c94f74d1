import ApiProfile.Markup.Token
import ApiProfile.Proofs.Markup.Writing
/-!
# Ends of tokens

The machines that look for the end of a token stop where what was written ends, and not before. Whether a
machine stops inside is a matter of the last few characters that it has read, so each proof carries an
invariant over the part that was read (`foldlM_of_invariant`).
-/

namespace ApiProfile.Markup

section Machines

variable {σ : Type} {step : σ → Char → Option σ} {s s' : σ}

/-- A machine that reads a text and then stops finds the end of the text. -/
theorem scan_of_foldlM {cs : List Char} {c : Char} (h : cs.foldlM step s = some s') (hstop : step s' c = none)
    (read rest : List Char) : scan step s read (cs ++ c :: rest) = some (read.reverse ++ cs, rest) := by
  induction cs generalizing s read with
  | nil =>
    cases h
    rw [List.nil_append, List.append_nil, scan, hstop]
  | cons d cs ih =>
    rw [List.foldlM_cons] at h
    obtain ⟨next, hnext, h⟩ := Option.bind_eq_some_iff.1 h
    rw [List.cons_append, scan, hnext]
    dsimp only
    rw [ih h, List.reverse_cons, List.append_assoc]
    rfl

/-- A machine reads a text if it never stops while an invariant of what was read and of its state holds. -/
theorem foldlM_of_invariant {I : List Char → σ → Prop} {cs : List Char} (hstart : I [] s)
    (hstep : ∀ read c rest s, read ++ c :: rest = cs → I read s → ∃ s', step s c = some s' ∧ I (read ++ [c]) s') :
    ∃ s', cs.foldlM step s = some s' ∧ I cs s' := by
  have hrest : ∀ read rest s, read ++ rest = cs → I read s → ∃ s', rest.foldlM step s = some s' ∧ I cs s' := by
    intro read rest s hcs hread
    induction rest generalizing read s with
    | nil => exact ⟨s, rfl, by rwa [← hcs, List.append_nil]⟩
    | cons c rest ih =>
      obtain ⟨next, hnext, hinv⟩ := hstep read c rest s hcs hread
      obtain ⟨last, hlast, h⟩ := ih (read ++ [c]) next (by rw [← hcs, List.append_assoc]; rfl) hinv
      exact ⟨last, by rw [List.foldlM_cons, hnext]; exact hlast, h⟩
  exact hrest [] cs s rfl hstart

end Machines

/-! ## Comments, sections and instructions -/

/-- Two of a character that were read last, in front of a `>`, are an end that stands inside. -/
theorem infix_of_suffix {mark : Char} {read rest cs : List Char} (h : [mark, mark] <:+ read)
    (hcs : read ++ '>' :: rest = cs) : [mark, mark, '>'] <:+: cs := by
  obtain ⟨before, rfl⟩ := h
  exact ⟨before, rest, by rw [← hcs]; simp⟩

theorem suffix_of_replicate {mark : Char} {k : Nat} {read : List Char} (h : List.replicate k mark <:+ read)
    (hk : 2 ≤ k) : [mark, mark] <:+ read := by
  obtain ⟨n, rfl⟩ := Nat.exists_eq_add_of_le' hk
  rw [List.replicate_add] at h
  exact (List.suffix_append (List.replicate n mark) [mark, mark]).trans h

theorem suffix_concat {mark : Char} {k : Nat} {read : List Char} (h : List.replicate k mark <:+ read) :
    List.replicate (k + 1) mark <:+ read ++ [mark] := by
  obtain ⟨before, rfl⟩ := h
  exact ⟨before, by rw [List.append_assoc, List.replicate_succ']⟩

theorem foldlM_cdataStep {content : List Char} (h : ¬ "]]>".toList <:+: content) :
    ∃ k, content.foldlM cdataStep 0 = some k := by
  have hread : ∃ k, content.foldlM cdataStep 0 = some k ∧ List.replicate k ']' <:+ content := by
    refine foldlM_of_invariant (I := fun read k => List.replicate k ']' <:+ read) List.nil_suffix ?_
    intro read c rest k hcs hread
    unfold cdataStep
    split
    · rename_i hstop
      obtain ⟨rfl, hk⟩ := hstop
      exact absurd (infix_of_suffix (suffix_of_replicate hread hk) hcs) h
    · split
      · rename_i hc
        rw [hc]
        exact ⟨k + 1, rfl, suffix_concat hread⟩
      · exact ⟨0, rfl, List.nil_suffix⟩
  exact hread.imp fun k hk => hk.1

theorem foldlM_instructionStep {body : List Char} (h : ¬ "?>".toList <:+: '?' :: body) :
    ∃ mark, ('?' :: body).foldlM instructionStep false = some mark := by
  have hread : ∃ mark, ('?' :: body).foldlM instructionStep false = some mark ∧
      (mark = true → ['?'] <:+ '?' :: body) := by
    refine foldlM_of_invariant (I := fun read mark => mark = true → ['?'] <:+ read) nofun ?_
    intro read c rest mark hcs hread
    unfold instructionStep
    split
    · rename_i hstop
      obtain ⟨rfl, hmark⟩ := hstop
      obtain ⟨before, rfl⟩ := hread hmark
      exact absurd ⟨before, rest, by rw [← hcs]; simp⟩ h
    · refine ⟨_, rfl, fun hc => ?_⟩
      rw [of_decide_eq_true hc]
      exact List.suffix_append read ['?']
  exact hread.imp fun mark hmark => hmark.1

theorem foldlM_commentStep {body : List Char} (h : ¬ "-->".toList <:+: body) :
    ∃ k, body.foldlM commentStep (2, 3) = some (k, body.length + 3) := by
  have hread : ∃ s, body.foldlM commentStep (2, 3) = some s ∧
      (s.2 = body.length + 3 ∧ List.replicate s.1 '-' <:+ "--".toList ++ body) := by
    refine foldlM_of_invariant
      (I := fun read (s : Nat × Nat) => s.2 = read.length + 3 ∧ List.replicate s.1 '-' <:+ "--".toList ++ read)
      ⟨rfl, List.suffix_refl _⟩ ?_
    intro read c rest s hcs hread
    obtain ⟨hlength, hsuffix⟩ := hread
    have hnext : s.2 + 1 = (read ++ [c]).length + 3 := by
      rw [hlength, List.length_append, List.length_singleton, Nat.add_right_comm]
    unfold commentStep
    split
    · rename_i hstop
      obtain ⟨rfl, hk, hn⟩ := hstop
      -- five characters are too many for the hyphens of the start to count
      have hlong : 2 ≤ read.length := by omega
      have hhyphens : ['-', '-'] <:+ read :=
        List.suffix_of_suffix_length_le (suffix_of_replicate hsuffix hk) (List.suffix_append _ read) hlong
      exact absurd (infix_of_suffix hhyphens hcs) h
    · split
      · rename_i hc
        rw [hc]
        refine ⟨_, rfl, hc ▸ hnext, ?_⟩
        rw [← List.append_assoc]
        exact suffix_concat hsuffix
      · exact ⟨_, rfl, hnext, List.nil_suffix⟩
  obtain ⟨⟨k, n⟩, hk, rfl, -⟩ := hread
  exact ⟨k, hk⟩

theorem foldlM_doctypeStep {body : List Char} (h : Bracketed body) (depth : Nat) :
    body.foldlM doctypeStep depth = some depth := by
  induction h generalizing depth with
  | nil => rfl
  | plain hopen hclose _ ih =>
    rw [List.foldlM_cons, doctypeStep, if_neg hopen, if_neg hclose]
    exact ih depth
  | nested _ _ ihinner ih =>
    rw [List.cons_append, List.foldlM_cons, doctypeStep, if_pos rfl]
    dsimp only [bind, Option.bind]
    rw [List.foldlM_append, ihinner (depth + 1)]
    exact ih depth

/-! ## Tags -/

theorem foldlM_tagStep_plain {cs : List Char} (h : ∀ c ∈ cs, c ∉ ['>', '\'', '"']) :
    cs.foldlM tagStep none = some none := by
  induction cs with
  | nil => rfl
  | cons c cs ih =>
    have hc := h c (.head cs)
    simp only [List.mem_cons, List.not_mem_nil, or_false, not_or] at hc
    rw [List.foldlM_cons, tagStep, if_neg hc.1, if_neg (not_or.2 hc.2)]
    exact ih fun d hd => h d (.tail c hd)

theorem foldlM_tagStep_value {quote : Char} {cs : List Char} (h : ∀ c ∈ cs, c ≠ quote) :
    cs.foldlM tagStep (some quote) = some (some quote) := by
  induction cs with
  | nil => rfl
  | cons c cs ih =>
    rw [List.foldlM_cons, tagStep, if_neg (h c (.head cs))]
    exact ih fun d hd => h d (.tail c hd)

end ApiProfile.Markup
