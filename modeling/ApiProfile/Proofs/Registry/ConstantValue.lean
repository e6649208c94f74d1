import ApiProfile.Proofs.Fallible
import ApiProfile.Proofs.Text.Denoting
import ApiProfile.Registry.Document
import Mathlib.Data.Int.ModEq
/-!
# Values of constants

The value of a constant is written in hexadecimal or in decimal. It may be any number that 64 bits hold, with a sign or
without one, and is the signed number with the same bits.
-/

namespace ApiProfile.Constant

open Text

/-! ## Numbers of 64 bits -/

theorem ofInt_eq_iff {z : Int} {v : Int64} : Int64.ofInt z = v ↔ v.toInt ≡ z [ZMOD 2 ^ 64] := by
  rw [Int64.ofInt_eq_iff_bmod_eq_toInt]
  constructor
  · intro h
    rw [← h]
    exact Int.bmod_emod
  · intro h
    calc
      z.bmod (2 ^ 64) = (z % 2 ^ 64).bmod (2 ^ 64) := (Int.emod_bmod z (2 ^ 64)).symm
      _ = (v.toInt % 2 ^ 64).bmod (2 ^ 64) := by rw [h]
      _ = v.toInt.bmod (2 ^ 64) := Int.emod_bmod v.toInt (2 ^ 64)
      _ = v.toInt := v.toInt_bmod

theorem toInt64_eq_ofInt (n : UInt64) : n.toInt64 = Int64.ofInt n.toNat := by
  rw [Int64.ofInt_eq_ofNat, ← UInt64.toInt64_ofNat', UInt64.ofNat_toNat]

theorem map_toInt64_eq_some_iff {base : Nat} {text : List Char} {v : Int64} (hbase : base = 10 ∨ base = 16) :
    (uint64? base text).map UInt64.toInt64 = some v ↔
      ∃ n : Nat, DenotesWhole base text n ∧ n < 2 ^ 64 ∧ v.toInt ≡ n [ZMOD 2 ^ 64] := by
  rw [Option.map_eq_some_iff]
  constructor
  · rintro ⟨n, hn, rfl⟩
    refine ⟨n.toNat, (uint64?_eq_some_iff hbase).1 hn, n.toNat_lt, ?_⟩
    rw [← ofInt_eq_iff, toInt64_eq_ofInt]
  · rintro ⟨n, hdenotes, hlt, hv⟩
    have hnat : (UInt64.ofNat n).toNat = n := UInt64.toNat_ofNat_of_lt' hlt
    refine ⟨UInt64.ofNat n, (uint64?_eq_some_iff hbase).2 (by rwa [hnat]), ?_⟩
    rw [toInt64_eq_ofInt, hnat]
    exact ofInt_eq_iff.2 hv

/-! ## Written values -/

/-- What may be written for a number as the value of a constant, blanks apart. -/
inductive Writes : List Char → Int → Prop
  | hexadecimal {digits : List Char} {n : Nat} (h : DenotesWhole 16 digits n) (hn : n < 2 ^ 64) :
    Writes ('0' :: 'x' :: digits) n
  | decimal {text : List Char} {z : Int} (h : DenotesInteger text z) (hlow : -2 ^ 63 ≤ z) (hhigh : z < 2 ^ 64) :
    Writes text z

/-- What is too large for a signed number of 64 bits may still be an unsigned one. -/
theorem decimal_eq_some_iff {text : List Char} {v : Int64} :
    (int64? text).or ((uint64? 10 text).map UInt64.toInt64) = some v ↔
      ∃ z, DenotesInteger text z ∧ -2 ^ 63 ≤ z ∧ z < 2 ^ 64 ∧ v.toInt ≡ z [ZMOD 2 ^ 64] := by
  rw [Option.or_eq_some_iff, map_toInt64_eq_some_iff (.inl rfl)]
  constructor
  · rintro (h | ⟨-, n, hdenotes, hlt, hv⟩)
    · have hhigh := v.toInt_lt
      exact ⟨v.toInt, int64?_eq_some_iff.1 h, v.le_toInt, by omega, rfl⟩
    · exact ⟨n, .whole hdenotes, by omega, by omega, hv⟩
  · rintro ⟨z, hdenotes, hlow, hhigh, hv⟩
    by_cases hsmall : z < 2 ^ 63
    · have hz : v.toInt = z := by
        rw [← ofInt_eq_iff.2 hv, Int64.toInt_ofInt_of_le hlow hsmall]
      exact .inl (int64?_eq_some_iff.2 (hz ▸ hdenotes))
    · refine .inr ⟨?_, ?_⟩
      · rw [Option.eq_none_iff_forall_ne_some]
        intro w hw
        have hbound := w.toInt_lt
        rw [(int64?_eq_some_iff.1 hw).unique hdenotes] at hbound
        exact hsmall hbound
      · cases hdenotes with
        | whole h => exact ⟨_, h, by omega, hv⟩
        | minus h => omega

theorem not_denotesInteger_hexadecimal {digits : List Char} {z : Int} : ¬DenotesInteger ('0' :: 'x' :: digits) z := by
  intro h
  cases h with
  | whole h =>
    cases h with
    | plain h =>
      have hread := (digits?_eq_some_iff (.inl rfl)).2 h
      cases hread

theorem parseValue_hexadecimal {name text : String} {v : Int64} {digits : List Char}
    (h : trim text.toList = '0' :: 'x' :: digits) :
    parseValue name text = .ok v ↔ (uint64? 16 digits).map UInt64.toInt64 = some v := by
  unfold parseValue
  rw [h]
  cases hvalue : (uint64? 16 digits).map UInt64.toInt64 <;> simp [hvalue]

theorem parseValue_decimal {name text : String} {v : Int64} (h : ∀ digits, trim text.toList ≠ '0' :: 'x' :: digits) :
    parseValue name text = .ok v ↔
      (int64? (trim text.toList)).or ((uint64? 10 (trim text.toList)).map UInt64.toInt64) = some v := by
  unfold parseValue
  dsimp only
  generalize trim text.toList = written at h ⊢
  cases (int64? written).or ((uint64? 10 written).map UInt64.toInt64) <;> simp

theorem parseValue_eq_ok_iff {name text : String} {v : Int64} :
    parseValue name text = .ok v ↔ ∃ z, Writes (trim text.toList) z ∧ v.toInt ≡ z [ZMOD 2 ^ 64] := by
  by_cases hhexadecimal : ∃ digits, trim text.toList = '0' :: 'x' :: digits
  · obtain ⟨digits, h⟩ := hhexadecimal
    rw [parseValue_hexadecimal h, map_toInt64_eq_some_iff (.inr rfl), h]
    constructor
    · rintro ⟨n, hdenotes, hlt, hv⟩
      exact ⟨n, .hexadecimal hdenotes hlt, hv⟩
    · rintro ⟨z, hwrites, hv⟩
      cases hwrites with
      | hexadecimal h hn => exact ⟨_, h, hn, hv⟩
      | decimal h => exact absurd h not_denotesInteger_hexadecimal
  · rw [not_exists] at hhexadecimal
    rw [parseValue_decimal hhexadecimal, decimal_eq_some_iff]
    generalize trim text.toList = written at hhexadecimal ⊢
    constructor
    · rintro ⟨z, hdenotes, hlow, hhigh, hv⟩
      exact ⟨z, .decimal hdenotes hlow hhigh, hv⟩
    · rintro ⟨z, hwrites, hv⟩
      cases hwrites with
      | hexadecimal h hn => exact absurd rfl (hhexadecimal _)
      | decimal h hlow hhigh => exact ⟨z, h, hlow, hhigh, hv⟩

theorem parseValue_eq_error {name text : String} (h : ∀ z, ¬Writes (trim text.toList) z) :
    parseValue name text = .error (.invalidConstantValue name text) := by
  cases hread : parseValue name text with
  | ok v =>
    obtain ⟨z, hwrites, -⟩ := parseValue_eq_ok_iff.1 hread
    exact absurd hwrites (h z)
  | error fault =>
    unfold parseValue at hread
    dsimp only at hread
    split at hread <;> cases hread
    rfl

/-! ## Numbers as they are written -/

theorem isBlank_of_digit {c : Char} (h : c = '+' ∨ ∃ d < 16, c = Nat.digitChar d ∨ c = (Nat.digitChar d).toUpper) :
    isBlank c = false := by
  have hdigits : ∀ d < 16, isBlank d.digitChar = false ∧ isBlank d.digitChar.toUpper = false := by decide
  rcases h with rfl | ⟨d, hd, rfl | rfl⟩
  · rfl
  · exact (hdigits d hd).1
  · exact (hdigits d hd).2

theorem Writes.trim_eq {text : List Char} {z : Int} (h : Writes text z) : trim text = text := by
  apply trim_of_none
  intro c hc
  cases h with
  | hexadecimal h =>
    rcases List.mem_cons.1 hc with rfl | hc
    · rfl
    · rcases List.mem_cons.1 hc with rfl | hc
      · rfl
      · exact isBlank_of_digit (h.digits (by decide) c hc)
  | decimal h =>
    cases h with
    | whole h => exact isBlank_of_digit (h.digits (by decide) c hc)
    | minus h =>
      rcases List.mem_cons.1 hc with rfl | hc
      · rfl
      · exact isBlank_of_digit (.inr (h.digits (by decide) c hc))

theorem parseValue_of_writes {name text : String} {z : Int} {v : Int64} (h : Writes text.toList z)
    (hv : v.toInt ≡ z [ZMOD 2 ^ 64]) : parseValue name text = .ok v :=
  parseValue_eq_ok_iff.2 ⟨z, by rwa [h.trim_eq], hv⟩

theorem Writes.unique {text : List Char} {y z : Int} (hy : Writes text y) (hz : Writes text z) : y = z := by
  cases hy with
  | hexadecimal hm =>
    cases hz with
    | hexadecimal hn => rw [hm.unique (.inr rfl) hn]
    | decimal hn => exact absurd hn not_denotesInteger_hexadecimal
  | decimal hm =>
    cases hz with
    | hexadecimal hn => exact absurd hm not_denotesInteger_hexadecimal
    | decimal hn => exact hm.unique hn

/-- A text is read as a value exactly if it is written for a number of 64 bits, and the value is congruent to that
number. So a value is read back from its own decimal form, and from the decimal and hexadecimal forms of the unsigned
number with its bits. -/
theorem parseValue_congruent (name : String) :
    (∀ text, (∃ v, parseValue name text = .ok v) ↔ ∃ z, Writes (trim text.toList) z) ∧
    (∀ text z v, Writes (trim text.toList) z → (parseValue name text = .ok v ↔ v.toInt ≡ z [ZMOD 2 ^ 64])) ∧
    (∀ text, (∀ z, ¬Writes (trim text.toList) z) → parseValue name text = .error (.invalidConstantValue name text)) ∧
    ∀ v : Int64,
      parseValue name (toString v.toInt) = .ok v ∧ parseValue name (toString (v.toInt % 2 ^ 64)) = .ok v ∧
      ∀ digits count,
        digits.map Char.toLower = List.replicate count '0' ++ Nat.toDigits 16 (v.toInt % 2 ^ 64).toNat →
          parseValue name (String.ofList ('0' :: 'x' :: digits)) = .ok v := by
  refine ⟨fun text => ⟨?_, ?_⟩, fun text z v h => ?_, fun text => parseValue_eq_error, fun v => ?_⟩
  · rintro ⟨v, hv⟩
    obtain ⟨z, hwrites, -⟩ := parseValue_eq_ok_iff.1 hv
    exact ⟨z, hwrites⟩
  · rintro ⟨z, hwrites⟩
    exact ⟨Int64.ofInt z, parseValue_eq_ok_iff.2 ⟨z, hwrites, ofInt_eq_iff.1 rfl⟩⟩
  · rw [parseValue_eq_ok_iff]
    constructor
    · rintro ⟨y, hwrites, hv⟩
      rwa [hwrites.unique h] at hv
    · exact fun hv => ⟨z, h, hv⟩
  · have hlow := v.le_toInt
    have hhigh := v.toInt_lt
    have hcongruent : v.toInt ≡ v.toInt % 2 ^ 64 [ZMOD 2 ^ 64] := (Int.mod_modEq _ _).symm
    refine ⟨?_, ?_, fun digits count hdigits => ?_⟩
    · exact parseValue_of_writes (.decimal (denotesInteger_repr v.toInt) hlow (by omega)) rfl
    · exact parseValue_of_writes (.decimal (denotesInteger_repr _) (by omega) (by omega)) hcongruent
    · have hwritten := Writes.hexadecimal (.plain (denotes_padded (by decide) hdigits)) (by omega)
      rw [Int.toNat_of_nonneg (by omega)] at hwritten
      exact parseValue_of_writes (by rwa [String.toList_ofList]) hcongruent

/-- All ones between blanks, the same with zeros in front, and a number one below the least signed one. -/
theorem parseValue_congruent_bounds :
    Writes (trim " 0xffffFFFFffffFFFF ".toList) (2 ^ 64 - 1) ∧ parseValue "A" " 0xffffFFFFffffFFFF " = .ok (-1) ∧
    "00FFffFFffFFffFFff".toList.map Char.toLower =
      List.replicate 2 '0' ++ Nat.toDigits 16 ((-1 : Int64).toInt % 2 ^ 64).toNat ∧
    parseValue "A" (String.ofList ('0' :: 'x' :: "00FFffFFffFFffFFff".toList)) = .ok (-1) ∧
    (∀ z, ¬Writes (trim "-9223372036854775809".toList) z) ∧
    parseValue "A" "-9223372036854775809" = .error (.invalidConstantValue "A" "-9223372036854775809") := by
  obtain ⟨haccepted, hvalue, hrefused, hwritten⟩ := parseValue_congruent "A"
  have hones : Writes (trim " 0xffffFFFFffffFFFF ".toList) (2 ^ 64 - 1) :=
    .hexadecimal (n := 2 ^ 64 - 1) (.plain ((digits?_eq_some_iff (.inr rfl)).1 (by decide +kernel))) (by decide)
  have hpadded : "00FFffFFffFFffFFff".toList.map Char.toLower =
      List.replicate 2 '0' ++ Nat.toDigits 16 ((-1 : Int64).toInt % 2 ^ 64).toNat := by
    decide +kernel
  have hlow : ∀ z, ¬Writes (trim "-9223372036854775809".toList) z := by
    intro z hz
    obtain ⟨v, hv⟩ := (haccepted _).2 ⟨z, hz⟩
    exact ne_ok_of_isOk (by decide +kernel) v hv
  exact ⟨hones, (hvalue _ _ _ hones).2 rfl, hpadded, (hwritten (-1)).2.2 _ _ hpadded, hlow, hrefused _ hlow⟩

end ApiProfile.Constant
