import ApiProfile.Proofs.Markup.Writing
import ApiProfile.Proofs.Text.Numeral
import ApiProfile.Text.Basic
import Mathlib.Data.List.Induction
/-!
# What numerals denote

A numeral denotes a number by its digits, which may be of either case and have zeros in front. We show that the readers
of numbers take exactly those numerals that denote a number in range, and that this is the number they read.
-/

namespace ApiProfile.Text

open Markup (Denotes)

/-! ## Digits -/

theorem digit?_digitChar : ∀ d < 16, (d < 10 → digit? 10 d.digitChar = some d ∧
    digit? 10 d.digitChar.toUpper = some d) ∧ digit? 16 d.digitChar = some d ∧
    digit? 16 d.digitChar.toUpper = some d := by
  decide

theorem digit?_eq {base d : Nat} {c : Char} (hbase : base = 10 ∨ base = 16) (hd : d < base)
    (hc : c = d.digitChar ∨ c = d.digitChar.toUpper) : digit? base c = some d := by
  have hsmall : d < 16 := by omega
  obtain ⟨hten, hsixteen⟩ := digit?_digitChar d hsmall
  rcases hbase with rfl | rfl
  · rcases hc with rfl | rfl
    · exact (hten hd).1
    · exact (hten hd).2
  · rcases hc with rfl | rfl
    · exact hsixteen.1
    · exact hsixteen.2

theorem digitsFrom?_append (base start : Nat) (digits more : List Char) :
    digitsFrom? base start (digits ++ more) =
      (digitsFrom? base start digits).bind fun n => digitsFrom? base n more := by
  induction digits generalizing start with
  | nil => rfl
  | cons c digits ih =>
    rw [List.cons_append, digitsFrom?, digitsFrom?]
    split
    · exact ih _
    · rfl

/-- What holds of all characters with small code points can be seen one by one. -/
theorem of_forall_ascii {P : Char → Prop} (h : ∀ n < 128, P (Char.ofNat n)) : ∀ c : Char, c.toNat < 128 → P c := by
  intro c hc
  have hp := h c.toNat hc
  rwa [Char.ofNat_toNat] at hp

theorem toNat_lt_of_digit? {base d : Nat} {c : Char} (h : digit? base c = some d) : c.toNat < 128 := by
  by_contra hlarge
  have hnone : ¬c ≤ '9' ∧ ¬c ≤ 'f' ∧ ¬c ≤ 'F' := by
    simp only [Char.le_def, UInt32.le_iff_toNat_le]
    change ¬c.toNat ≤ 57 ∧ ¬c.toNat ≤ 102 ∧ ¬c.toNat ≤ 70
    omega
  simp [digit?, hnone] at h

/-- A digit is one of the characters for its value. -/
theorem digit?_eq_some_iff {base d : Nat} {c : Char} (hbase : base = 10 ∨ base = 16) :
    digit? base c = some d ↔ d < base ∧ (c = d.digitChar ∨ c = d.digitChar.toUpper) := by
  constructor
  · intro h
    have hascii : ∀ c : Char, c.toNat < 128 → ∀ base ∈ [10, 16], ∀ d ∈ digit? base c,
        d < base ∧ (c = d.digitChar ∨ c = d.digitChar.toUpper) :=
      of_forall_ascii (by decide)
    exact hascii c (toNat_lt_of_digit? h) base (by simpa using hbase) d h
  · rintro ⟨hd, hc⟩
    exact digit?_eq hbase hd hc

theorem denotes_of_digitsFrom? {base n : Nat} {digits : List Char} (hbase : base = 10 ∨ base = 16) (hne : digits ≠ [])
    (h : digitsFrom? base 0 digits = some n) : Denotes base digits n := by
  -- from the end, as each digit is read on from the number in front of it
  induction digits using List.reverseRecOn generalizing n with
  | nil => exact absurd rfl hne
  | append_singleton front c ih =>
    rw [digitsFrom?_append, Option.bind_eq_some_iff] at h
    obtain ⟨m, hfront, hlast⟩ := h
    rw [digitsFrom?] at hlast
    split at hlast
    · rename_i d hdigit
      cases hlast
      obtain ⟨hd, hc⟩ := (digit?_eq_some_iff hbase).1 hdigit
      by_cases hempty : front = []
      · subst hempty
        cases hfront
        simpa using Denotes.digit hd hc
      · exact .more (ih hempty hfront) hd hc
    · cases hlast

/-- Digits are read as the number that they denote. -/
theorem digits?_eq_some_iff {base n : Nat} {digits : List Char} (hbase : base = 10 ∨ base = 16) :
    digits? base digits = some n ↔ Denotes base digits n := by
  unfold digits?
  constructor
  · intro h
    split at h
    · cases h
    · rename_i hne
      exact denotes_of_digitsFrom? hbase hne h
  · intro h
    have hfrom : digitsFrom? base 0 digits = some n ∧ digits ≠ [] := by
      induction h with
      | digit hd hc =>
        refine ⟨?_, nofun⟩
        rw [digitsFrom?, digit?_eq hbase hd hc]
        dsimp only
        rw [Nat.mul_zero, Nat.zero_add]
        rfl
      | more _ hd hc ih =>
        refine ⟨?_, List.append_ne_nil_of_right_ne_nil _ nofun⟩
        rw [digitsFrom?_append, ih.1, Option.bind_some, digitsFrom?, digit?_eq hbase hd hc]
        rfl
    rw [if_neg hfrom.2, hfrom.1]

/-! ## Signs -/

/-- Digits denote a whole number, after a plus sign or none. -/
inductive DenotesWhole (base : Nat) : List Char → Nat → Prop
  | plain {digits : List Char} {n : Nat} (h : Denotes base digits n) : DenotesWhole base digits n
  | plus {digits : List Char} {n : Nat} (h : Denotes base digits n) : DenotesWhole base ('+' :: digits) n

/-- Decimal digits denote an integer, after a sign or none. -/
inductive DenotesInteger : List Char → Int → Prop
  | whole {text : List Char} {n : Nat} (h : DenotesWhole 10 text n) : DenotesInteger text n
  | minus {digits : List Char} {n : Nat} (h : Denotes 10 digits n) : DenotesInteger ('-' :: digits) (-n)

theorem DenotesWhole.digits {base n : Nat} {text : List Char} (hbase : base ≤ 16) (h : DenotesWhole base text n) :
    ∀ c ∈ text, c = '+' ∨ ∃ d < 16, c = Nat.digitChar d ∨ c = (Nat.digitChar d).toUpper := by
  intro c hc
  cases h with
  | plain h => exact .inr (h.digits hbase c hc)
  | plus h => exact (List.mem_cons.1 hc).imp_right (h.digits hbase c)

theorem unsigned?_eq_some_iff {base limit n : Nat} {text : List Char} (hbase : base = 10 ∨ base = 16) :
    unsigned? base limit text = some n ↔ DenotesWhole base text n ∧ n < limit := by
  have hplus : ∀ {digits m}, ¬Denotes base ('+' :: digits) m := by
    intro digits m h
    have hread := (digits?_eq_some_iff hbase).2 h
    rcases hbase with rfl | rfl <;> cases hread
  unfold unsigned?
  dsimp only
  rw [Option.filter_eq_some_iff, digits?_eq_some_iff hbase, decide_eq_true_eq]
  refine and_congr_left fun _ => ?_
  split
  · constructor
    · exact .plus
    · intro h
      cases h with
      | plain h => exact absurd h hplus
      | plus h => exact h
  · rename_i hsign
    constructor
    · exact .plain
    · intro h
      cases h with
      | plain h => exact h
      | plus h => exact absurd rfl (hsign _)

theorem DenotesWhole.unique {base m n : Nat} {text : List Char} (hbase : base = 10 ∨ base = 16)
    (hm : DenotesWhole base text m) (hn : DenotesWhole base text n) : m = n := by
  have hread := (@unsigned?_eq_some_iff base (m + n + 1) m text hbase).2 ⟨hm, by omega⟩
  rw [(unsigned?_eq_some_iff hbase).2 ⟨hn, by omega⟩] at hread
  exact (Option.some.inj hread).symm

theorem uint64?_eq_some_iff {base : Nat} {text : List Char} {n : UInt64} (hbase : base = 10 ∨ base = 16) :
    uint64? base text = some n ↔ DenotesWhole base text n.toNat := by
  unfold uint64?
  rw [Option.map_eq_some_iff]
  constructor
  · rintro ⟨m, hm, rfl⟩
    obtain ⟨hdenotes, hlt⟩ := (unsigned?_eq_some_iff hbase).1 hm
    rwa [UInt64.toNat_ofNat_of_lt' hlt]
  · intro h
    exact ⟨n.toNat, (unsigned?_eq_some_iff hbase).2 ⟨h, n.toNat_lt⟩, UInt64.ofNat_toNat⟩

theorem not_denotesWhole_minus {digits : List Char} {n : Nat} : ¬DenotesWhole 10 ('-' :: digits) n := by
  intro h
  cases h with
  | plain h =>
    have hread := (digits?_eq_some_iff (.inl rfl)).2 h
    cases hread

theorem DenotesInteger.unique {text : List Char} {y z : Int} (hy : DenotesInteger text y) (hz : DenotesInteger text z) :
    y = z := by
  cases hy with
  | whole hm =>
    cases hz with
    | whole hn => rw [hm.unique (.inl rfl) hn]
    | minus hn => exact absurd hm not_denotesWhole_minus
  | minus hm =>
    cases hz with
    | whole hn => exact absurd hn not_denotesWhole_minus
    | minus hn => rw [(DenotesWhole.plain hm).unique (.inl rfl) (.plain hn)]

theorem int64?_eq_some_iff {text : List Char} {v : Int64} : int64? text = some v ↔ DenotesInteger text v.toInt := by
  unfold int64?
  split
  · rename_i digits
    simp only [Option.map_eq_some_iff, Option.bind_eq_bind, Option.pure_def, Option.bind_eq_some_iff,
      Option.filter_eq_some_iff, digits?_eq_some_iff (.inl rfl), decide_eq_true_eq, Option.some.injEq]
    constructor
    · rintro ⟨_, ⟨n, ⟨hdenotes, hle⟩, rfl⟩, rfl⟩
      rw [Int64.toInt_ofInt_of_le (by omega) (by omega)]
      exact .minus hdenotes
    · intro h
      generalize hz : v.toInt = z at h
      cases h with
      | whole h => exact absurd h not_denotesWhole_minus
      | minus h =>
        have hlow := v.le_toInt
        exact ⟨_, ⟨_, ⟨h, by omega⟩, rfl⟩, by rw [← hz, Int64.ofInt_toInt]⟩
  · rename_i hsign
    simp only [Option.map_eq_some_iff, unsigned?_eq_some_iff (.inl rfl)]
    constructor
    · rintro ⟨n, ⟨hdenotes, hlt⟩, rfl⟩
      rw [Int64.toInt_ofNat_of_lt (by omega)]
      exact .whole hdenotes
    · intro h
      generalize hz : v.toInt = z at h
      cases h with
      | whole h =>
        have hhigh := v.toInt_lt
        exact ⟨_, ⟨h, by omega⟩, by rw [← Int64.ofInt_eq_ofNat, ← hz, Int64.ofInt_toInt]⟩
      | minus h => exact absurd rfl (hsign _)

/-! ## Written numbers -/

theorem eq_or_eq_toUpper_of_toLower {c d : Char} (h : c.toLower = d) : c = d ∨ c = d.toUpper := by
  subst h
  have hascii : ∀ c : Char, c.toNat < 128 → c = c.toLower ∨ c = c.toLower.toUpper := of_forall_ascii (by decide)
  by_cases hsmall : c.toNat < 128
  · exact hascii c hsmall
  · left
    unfold Char.toLower
    rw [dif_neg]
    rintro ⟨-, hlast⟩
    have hbound : c.toNat ≤ 90 := UInt32.le_iff_toNat_le.1 hlast
    omega

theorem denotes_toDigits {base n : Nat} {text : List Char} (hbase : 1 < base)
    (h : text.map Char.toLower = Nat.toDigits base n) : Denotes base text n := by
  induction n using Nat.strongRecOn generalizing text with
  | ind n ih =>
    rw [Nat.toDigits_eq_if hbase] at h
    split at h
    · rename_i hsmall
      obtain ⟨c, rfl, hc⟩ := List.map_eq_singleton_iff.1 h
      exact .digit hsmall (eq_or_eq_toUpper_of_toLower hc)
    · rename_i hlarge
      obtain ⟨front, last, rfl, hfront, hlast⟩ := List.map_eq_append_iff.1 h
      obtain ⟨c, rfl, hc⟩ := List.map_eq_singleton_iff.1 hlast
      have hmore := Denotes.more (ih (n / base) (Nat.div_lt_self (by omega) hbase) hfront)
        (Nat.mod_lt n (by omega)) (eq_or_eq_toUpper_of_toLower hc)
      rwa [Nat.div_add_mod] at hmore

theorem denotes_zero_cons {base n : Nat} {c : Char} {digits : List Char} (hbase : 0 < base) (hc : c.toLower = '0')
    (h : Denotes base digits n) : Denotes base (c :: digits) n := by
  have hzero : Denotes base [c] 0 := .digit hbase (eq_or_eq_toUpper_of_toLower hc)
  induction h with
  | digit hd hc => simpa using hzero.more hd hc
  | more _ hd hc ih => exact ih.more hd hc

/-- The digits of a number denote it, in either case and after any zeros. -/
theorem denotes_padded {base n count : Nat} {text : List Char} (hbase : 1 < base)
    (h : text.map Char.toLower = List.replicate count '0' ++ Nat.toDigits base n) : Denotes base text n := by
  induction count generalizing text with
  | zero => exact denotes_toDigits hbase h
  | succ count ih =>
    rw [List.replicate_succ, List.cons_append] at h
    obtain ⟨c, rest, rfl, hc, hrest⟩ := List.map_eq_cons_iff.1 h
    exact denotes_zero_cons (by omega) hc (ih hrest)

theorem toLower_of_isDigit {c : Char} (h : c.isDigit) : c.toLower = c := by
  have hlast : c.toNat ≤ 57 := by
    simp only [Char.isDigit, Bool.and_eq_true, decide_eq_true_eq] at h
    exact UInt32.le_iff_toNat_le.1 h.2
  unfold Char.toLower
  rw [dif_neg]
  rintro ⟨hfirst, -⟩
  have hbound : 65 ≤ c.toNat := UInt32.le_iff_toNat_le.1 hfirst
  omega

theorem denotes_repr (n : Nat) : Denotes 10 n.repr.toList n := by
  have hlower : n.repr.toList.map Char.toLower = n.repr.toList :=
    (List.map_congr_left fun c hc => toLower_of_isDigit (isDigit_of_mem_repr hc)).trans (List.map_id _)
  apply denotes_toDigits (by decide)
  rw [hlower, Nat.toList_repr]

theorem denotesInteger_repr (z : Int) : DenotesInteger z.repr.toList z := by
  cases z with
  | ofNat n => exact .whole (.plain (denotes_repr n))
  | negSucc n =>
    have htext : (Int.negSucc n).repr.toList = '-' :: (n + 1).repr.toList := by simp [Int.repr]
    rw [htext]
    exact .minus (denotes_repr (n + 1))

/-- A number in decimal is read back. -/
theorem uint64?_repr (n : UInt64) : uint64? 10 n.toNat.repr.toList = some n :=
  (uint64?_eq_some_iff (.inl rfl)).2 (.plain (denotes_repr n.toNat))

end ApiProfile.Text
