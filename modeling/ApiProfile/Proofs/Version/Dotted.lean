import ApiProfile.Json.Registry
import ApiProfile.Proofs.Version
import Mathlib.Algebra.GroupWithZero.Nat
/-!
# Which texts are versions

A version is written as one to three numbers with dots between them, maybe behind a letter `v`. However it was written,
it is written back as its numbers in plain decimal, as many as there were, and read again as the same version. Versions
rank as their numbers do, filled up with zeros.
-/

namespace ApiProfile.Version

open Text

/-- The numbers of a version. -/
def parts (v : Version) : List Nat :=
  v.numbers.map (·.toNat)

/-- What may be written for one to three numbers, blanks apart. -/
inductive Spells : List Char → List Nat → Prop
  | intro {mark : List Char} {pieces : List (List Char)} {numbers : List Nat} (hmark : mark = [] ∨ mark = ['v'])
    (hpieces : List.Forall₂ (fun piece n => DenotesWhole 10 piece n ∧ n < 2 ^ 64) pieces numbers)
    (hlength : 1 ≤ numbers.length ∧ numbers.length ≤ 3) : Spells (mark ++ ['.'].intercalate pieces) numbers

/-! ## Pieces between dots -/

theorem exists_mark (text : List Char) : ∃ mark, (mark = [] ∨ mark = ['v']) ∧ text = mark ++ dropMark text := by
  unfold dropMark
  split
  · exact ⟨['v'], .inr rfl, rfl⟩
  · exact ⟨[], .inl rfl, rfl⟩

theorem dropMark_append {mark body : List Char} (hmark : mark = [] ∨ mark = ['v']) (hbody : 'v' ∉ body) :
    dropMark (mark ++ body) = body := by
  rcases hmark with rfl | rfl
  · rw [List.nil_append]
    unfold dropMark
    split
    · exact absurd (.head _) hbody
    · rfl
  · rfl

theorem intercalate_splitBy (text : List Char) : ['.'].intercalate (splitBy (· == '.') text) = text := by
  rw [splitBy_eq_splitOnP, ← List.splitOn_eq_splitOnP]
  exact List.intercalate_splitOn ..

/-- Neither a dot nor the letter is part of a number. -/
theorem ne_of_mem_denotes {piece : List Char} {n : Nat} (h : DenotesWhole 10 piece n) :
    ∀ c ∈ piece, c ≠ '.' ∧ c ≠ 'v' := by
  intro c hc
  have hdigits : ∀ d < 16, ∀ c ∈ [Nat.digitChar d, (Nat.digitChar d).toUpper], c ≠ '.' ∧ c ≠ 'v' := by decide
  rcases h.digits (by decide) c hc with rfl | ⟨d, hd, hdigit⟩
  · decide
  · exact hdigits d hd c (by simpa using hdigit)

/-! ## Reading -/

theorem ofNumbers?_eq_some_iff {numbers : List UInt64} {v : Version} :
    ofNumbers? numbers = some v ↔ numbers = v.numbers := by
  constructor
  · intro h
    unfold ofNumbers? at h
    split at h <;> cases h <;> rfl
  · rintro rfl
    exact ofNumbers?_numbers v

theorem length_parts (v : Version) : 1 ≤ v.parts.length ∧ v.parts.length ≤ 3 := by
  cases v <;> simp [parts, numbers]

theorem parse_eq_ok {text : String} {v : Version} :
    parse text = .ok v ↔ List.Forall₂ (fun piece n => DenotesWhole 10 piece n ∧ n < 2 ^ 64)
      (splitBy (· == '.') (dropMark (trim text.toList))) v.parts := by
  have hread : parse text = .ok v ↔
      (splitBy (· == '.') (dropMark (trim text.toList))).mapM (uint64? 10) = some v.numbers := by
    unfold parse
    dsimp only
    generalize (splitBy (· == '.') (dropMark (trim text.toList))).mapM (uint64? 10) = found
    cases found with
    | none => simp
    | some numbers =>
      rw [Option.bind_some, Option.some.injEq, ← ofNumbers?_eq_some_iff]
      cases ofNumbers? numbers <;> simp
  rw [hread, mapM_eq_some]
  unfold parts
  rw [List.forall₂_map_right_iff]
  constructor
  · exact fun h => h.imp fun piece n hn => ⟨(uint64?_eq_some_iff (.inl rfl)).1 hn, n.toNat_lt⟩
  · exact fun h => h.imp fun piece n hn => (uint64?_eq_some_iff (.inl rfl)).2 hn.1

theorem parse_eq_ok_iff {text : String} {v : Version} : parse text = .ok v ↔ Spells (trim text.toList) v.parts := by
  rw [parse_eq_ok]
  constructor
  · intro h
    obtain ⟨mark, hmark, htext⟩ := exists_mark (trim text.toList)
    rw [htext, ← intercalate_splitBy (dropMark _)]
    exact .intro hmark h v.length_parts
  · intro h
    generalize trim text.toList = written at h
    generalize v.parts = numbers at h ⊢
    cases h with
    | @intro mark pieces _ hmark hpieces hlength =>
      have hne : pieces ≠ [] := by
        rw [← List.length_pos_iff_ne_nil, hpieces.length_eq]
        exact hlength.1
      have hplain : ∀ piece ∈ pieces, ∀ c ∈ piece, c ≠ '.' ∧ c ≠ 'v' := by
        intro piece hpiece
        obtain ⟨n, -, hdenotes, -⟩ := exists_mem_of_forall₂ hpieces hpiece
        exact ne_of_mem_denotes hdenotes
      have hletter : 'v' ∉ ['.'].intercalate pieces := by
        intro hv
        rcases mem_of_mem_intercalate hv with ⟨piece, hpiece, hc⟩ | hdot
        · exact (hplain piece hpiece 'v' hc).2 rfl
        · exact absurd hdot (by decide)
      have hdotless : ∀ piece ∈ pieces, '.' ∉ piece := fun piece hpiece hdot => (hplain piece hpiece '.' hdot).1 rfl
      rwa [dropMark_append hmark hletter, splitBy_intercalate hne hdotless]

/-- All numbers of 64 bits are numbers of some version. -/
theorem exists_of_spells {text : List Char} {numbers : List Nat} (h : Spells text numbers) :
    ∃ v : Version, v.parts = numbers := by
  cases h with
  | intro hmark hpieces hlength =>
    have hsmall : numbers.map (UInt64.toNat ∘ UInt64.ofNat) = numbers := by
      refine (List.map_congr_left fun n hn => ?_).trans (List.map_id numbers)
      obtain ⟨piece, -, -, hlt⟩ := exists_mem_of_forall₂ hpieces.flip hn
      exact UInt64.toNat_ofNat_of_lt' hlt
    have hversion : ∀ words : List UInt64, 1 ≤ words.length ∧ words.length ≤ 3 → ∃ v : Version, v.numbers = words := by
      intro words hwords
      match words, hwords with
      | [a], _ => exact ⟨one a, rfl⟩
      | [a, b], _ => exact ⟨two a b, rfl⟩
      | [a, b, c], _ => exact ⟨three a b c, rfl⟩
    obtain ⟨v, hv⟩ := hversion (numbers.map UInt64.ofNat) (by simpa using hlength)
    refine ⟨v, ?_⟩
    unfold parts
    rw [hv, List.map_map]
    exact hsmall

theorem parse_eq_error {text : String} (h : ∀ numbers, ¬Spells (trim text.toList) numbers) :
    parse text = .error (.invalidVersion text) := by
  cases hread : parse text with
  | ok v => exact absurd (parse_eq_ok_iff.1 hread) (h v.parts)
  | error fault =>
    unfold parse at hread
    dsimp only at hread
    split at hread <;> cases hread
    rfl

theorem parts_injective {v w : Version} (h : v.parts = w.parts) : v = w := by
  have hnumbers : v.numbers = w.numbers := List.map_injective_iff.2 (fun _ _ => UInt64.toNat_inj.1) h
  have hread := ofNumbers?_numbers v
  rw [hnumbers, ofNumbers?_numbers] at hread
  exact (Option.some.inj hread).symm

/-! ## Order -/

theorem rightpad_parts (v : Version) : v.parts.rightpad 3 0 = [v.major.toNat, v.minor.toNat, v.patch.toNat] := by
  cases v <;> rfl

theorem rank_eq_lt_iff {v w : Version} : v.rank w = .lt ↔ v.parts.rightpad 3 0 < w.parts.rightpad 3 0 := by
  have hlt : ∀ a b : UInt64, compare a b = .lt ↔ a.toNat < b.toNat := fun a b =>
    Std.compare_eq_lt.trans UInt64.lt_iff_toNat_lt
  rw [rightpad_parts, rightpad_parts]
  unfold rank
  simp [Ordering.then_eq_lt, hlt, List.cons_lt_cons_iff, UInt64.toNat_inj]

theorem rank_eq_eq_iff {v w : Version} : v.rank w = .eq ↔ v.parts.rightpad 3 0 = w.parts.rightpad 3 0 := by
  rw [rightpad_parts, rightpad_parts]
  unfold rank
  simp [Ordering.then_eq_eq, UInt64.toNat_inj]

theorem eq_of_rank_eq {v w : Version} (h : v.rank w = .eq) (hlength : v.parts.length = w.parts.length) : v = w :=
  parts_injective (List.append_inj_left (rank_eq_eq_iff.1 h) hlength)

theorem rank_eq_gt_iff {v w : Version} : v.rank w = .gt ↔ w.parts.rightpad 3 0 < v.parts.rightpad 3 0 := by
  rw [← rank_eq_lt_iff]
  exact Std.OrientedCmp.gt_iff_lt

/-! ## Texts of versions -/

theorem spells_iff_of_parse {text : String} {v : Version} (h : parse text = .ok v) {numbers : List Nat} :
    Spells (trim text.toList) numbers ↔ numbers = v.parts := by
  constructor
  · intro hspells
    obtain ⟨w, rfl⟩ := exists_of_spells hspells
    rw [parse_eq_ok_iff.2 hspells] at h
    rw [Except.ok.inj h]
  · rintro rfl
    exact parse_eq_ok_iff.1 h

/-- A text is read as a version exactly if it spells one to three numbers, and then these are the numbers of the
version. It is written as just these numbers, and what is written is read as the same version again. Two versions rank
as their numbers filled up with zeros, which is a total order, and only those that rank alike with as many numbers are
equal. -/
theorem parse_dotted (text : String) :
    ((∃ v, parse text = .ok v) ↔ ∃ numbers, Spells (trim text.toList) numbers) ∧
    ((∀ numbers, ¬Spells (trim text.toList) numbers) → parse text = .error (.invalidVersion text)) ∧
    ∀ v, parse text = .ok v →
      (∀ numbers, Spells (trim text.toList) numbers ↔ numbers = v.parts) ∧
      (v.render = ".".intercalate (v.parts.map Nat.repr) ∧ parse v.render = .ok v ∧ ofJson? v.toJson = some v) ∧
      ∀ other w, parse other = .ok w →
        ((v.rank w = .lt ↔ v.parts.rightpad 3 0 < w.parts.rightpad 3 0) ∧
          (v.rank w = .eq ↔ v.parts.rightpad 3 0 = w.parts.rightpad 3 0) ∧
          (v.rank w = .gt ↔ w.parts.rightpad 3 0 < v.parts.rightpad 3 0)) ∧
        ((v.atMost w ∨ w.atMost v) ∧ (v.atMost w → w.atMost v → v.rank w = .eq) ∧
          ∀ u, v.atMost w → w.atMost u → v.atMost u) ∧
        (v.rank w = .eq → v.parts.length = w.parts.length → v = w) := by
  refine ⟨⟨?_, ?_⟩, parse_eq_error, fun v hv => ⟨fun numbers => spells_iff_of_parse hv, ⟨?_, parse_render v, ?_⟩, ?_⟩⟩
  · rintro ⟨v, hv⟩
    exact ⟨v.parts, parse_eq_ok_iff.1 hv⟩
  · rintro ⟨numbers, h⟩
    obtain ⟨v, rfl⟩ := exists_of_spells h
    exact ⟨v, parse_eq_ok_iff.2 h⟩
  · unfold parts
    rw [List.map_map]
    rfl
  · unfold ofJson? toJson
    rw [Json.string?, Option.bind_some, parse_render]
    rfl
  · intro other w _
    refine ⟨⟨rank_eq_lt_iff, rank_eq_eq_iff, rank_eq_gt_iff⟩, ⟨?_, Std.OrientedCmp.isLE_antisymm, ?_⟩, eq_of_rank_eq⟩
    · simpa using atMost_total v w
    · exact fun u => atMost_trans v w u

/-- `1.10` in a roundabout way is written plainly, ranks like `1.10.0` and is not equal to it; two dots in a row are no
version. -/
theorem parse_dotted_roundabout :
    parse " v+1.010 " = .ok (two 1 10) ∧ Spells (trim " v+1.010 ".toList) [1, 10] ∧ (two 1 10).render = "1.10" ∧
    parse "1.10.0" = .ok (three 1 10 0) ∧ (two 1 10).rank (three 1 10 0) = .eq ∧
    (∀ numbers, ¬Spells (trim "1..0".toList) numbers) ∧ parse "1..0" = .error (.invalidVersion "1..0") := by
  have hread : parse " v+1.010 " = .ok (two 1 10) := by decide +kernel
  have hother : parse "1.10.0" = .ok (three 1 10 0) := by decide +kernel
  obtain ⟨-, -, hversion⟩ := parse_dotted " v+1.010 "
  obtain ⟨hspells, ⟨hrender, -⟩, hranks⟩ := hversion _ hread
  obtain ⟨hreads, hrefused, -⟩ := parse_dotted "1..0"
  have hnone : ∀ numbers, ¬Spells (trim "1..0".toList) numbers := by
    intro numbers h
    obtain ⟨v, hv⟩ := hreads.2 ⟨numbers, h⟩
    exact ne_ok_of_isOk (by decide +kernel) v hv
  have hplain : ".".intercalate ((two 1 10).parts.map Nat.repr) = "1.10" := by decide +kernel
  exact ⟨hread, (hspells _).2 rfl, hrender.trans hplain, hother, (hranks _ _ hother).1.2.1.2 rfl, hnone, hrefused hnone⟩

end ApiProfile.Version
