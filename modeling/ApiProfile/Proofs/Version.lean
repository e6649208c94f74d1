import ApiProfile.Proofs.Fallible
import ApiProfile.Proofs.Text.Denoting
import ApiProfile.Version
/-!
# Order and text of versions

Versions compare as three numbers do, the first ones first, and the order is total. A version that is written and read
again is the same version, with as many numbers as before.
-/

namespace ApiProfile.Version

/-! ## Order -/

theorem rank_eq_compareLex :
    rank = compareLex (compareOn major) (compareLex (compareOn minor) (compareOn patch)) := by
  funext v w
  rfl

instance : Std.TransCmp rank := by
  rw [rank_eq_compareLex]
  infer_instance

theorem atMost_trans (u v w : Version) (huv : u.atMost v) (hvw : v.atMost w) : u.atMost w :=
  Std.TransCmp.isLE_trans huv hvw

theorem atMost_total (v w : Version) : v.atMost w || w.atMost v := by
  unfold atMost
  have hswap : w.rank v = (v.rank w).swap := Std.OrientedCmp.eq_swap
  rw [hswap]
  cases v.rank w <;> rfl

/-! ## Text -/

theorem numbers_ne_nil (v : Version) : v.numbers ≠ [] := by
  cases v <;> exact nofun

theorem toList_render (v : Version) :
    v.render.toList = ['.'].intercalate (v.numbers.map fun n => n.toNat.repr.toList) := by
  unfold render
  rw [String.toList_intercalate, List.map_map]
  rfl

/-- A written version holds digits and dots only. -/
theorem isDigit_of_mem_render {v : Version} {c : Char} (h : c ∈ v.render.toList) : c.isDigit ∨ c = '.' := by
  rw [toList_render] at h
  rcases Text.mem_of_mem_intercalate h with ⟨piece, hpiece, hc⟩ | hdot
  · obtain ⟨n, -, rfl⟩ := List.mem_map.1 hpiece
    exact .inl (Text.isDigit_of_mem_repr hc)
  · exact .inr (List.mem_singleton.1 hdot)

theorem trim_render (v : Version) : Text.trim v.render.toList = v.render.toList := by
  apply Text.trim_of_none
  intro c hc
  rcases isDigit_of_mem_render hc with hdigit | rfl
  · exact Text.isBlank_of_isDigit hdigit
  · decide

theorem dropMark_render (v : Version) : dropMark v.render.toList = v.render.toList := by
  unfold dropMark
  split
  · rename_i rest hmark
    have hv : ('v').isDigit ∨ 'v' = '.' := isDigit_of_mem_render (by rw [hmark]; exact .head rest)
    exact absurd hv (by decide)
  · rfl

theorem splitBy_render (v : Version) :
    Text.splitBy (· == '.') v.render.toList = v.numbers.map fun n => n.toNat.repr.toList := by
  rw [toList_render]
  apply Text.splitBy_intercalate
  · simp [numbers_ne_nil]
  · intro piece hpiece hdot
    obtain ⟨n, -, rfl⟩ := List.mem_map.1 hpiece
    have hdigit : ('.').isDigit := Text.isDigit_of_mem_repr hdot
    exact absurd hdigit (by decide)

/-- What is written for a version is read as that version. -/
@[simp] theorem parse_render (v : Version) : parse v.render = .ok v := by
  have hnumbers : (v.numbers.map fun n => n.toNat.repr.toList).mapM (Text.uint64? 10) = some v.numbers := by
    rw [mapM_eq_some, List.forall₂_map_left_iff, List.forall₂_same]
    exact fun n _ => Text.uint64?_repr n
  unfold parse
  dsimp only
  rw [trim_render, dropMark_render, splitBy_render, hnumbers, Option.bind_some, ofNumbers?_numbers]

end ApiProfile.Version
