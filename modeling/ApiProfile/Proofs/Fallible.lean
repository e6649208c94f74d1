import Mathlib.Data.List.Forall2
import Mathlib.Data.List.Perm.Basic
/-!
# Steps that may fail

A chain of steps succeeds exactly if each step does. `bind_eq_ok` takes such a chain apart, and
`mapM_eq_ok` and `mapM_eq_some` do so for a list whose entries are read one by one. A chain that fails does so with
what its first failing step failed with (`bind_eq_error`, `fault?_mapM`).
-/

namespace ApiProfile

variable {ε α β : Type}

theorem bind_eq_ok {x : Except ε α} {f : α → Except ε β} {b : β} :
    (x >>= f) = .ok b ↔ ∃ a, x = .ok a ∧ f a = .ok b := by
  constructor
  · intro h
    cases x with
    | ok a => exact ⟨a, rfl, h⟩
    | error e => cases h
  · rintro ⟨a, rfl, h⟩
    exact h

theorem bind_eq_error {x : Except ε α} {f : α → Except ε β} {e : ε} :
    (x >>= f) = .error e ↔ x = .error e ∨ ∃ a, x = .ok a ∧ f a = .error e := by
  constructor
  · intro h
    cases x with
    | ok a => exact .inr ⟨a, rfl, h⟩
    | error e' =>
      cases h
      exact .inl rfl
  · rintro (rfl | ⟨a, rfl, h⟩)
    · rfl
    · exact h

theorem ne_ok_of_isOk {x : Except ε α} (h : x.isOk = false) (a : α) : x ≠ .ok a := by
  rintro rfl
  cases h

theorem mapM_eq_ok {f : α → Except ε β} {l : List α} {bs : List β} :
    l.mapM f = .ok bs ↔ List.Forall₂ (fun a b => f a = .ok b) l bs := by
  induction l generalizing bs with
  | nil =>
    rw [List.mapM_nil, List.forall₂_nil_left_iff]
    exact ⟨fun h => (Except.ok.inj h).symm, fun h => congrArg Except.ok h.symm⟩
  | cons a l ih =>
    rw [List.mapM_cons, bind_eq_ok, List.forall₂_cons_left_iff]
    constructor
    · rintro ⟨b, hb, h⟩
      obtain ⟨rest, hrest, h⟩ := bind_eq_ok.1 h
      exact ⟨b, rest, hb, ih.1 hrest, (Except.ok.inj h).symm⟩
    · rintro ⟨b, rest, hb, hrest, rfl⟩
      exact ⟨b, hb, bind_eq_ok.2 ⟨rest, ih.2 hrest, rfl⟩⟩

/-- What a step failed with. -/
def fault? : Except ε α → Option ε
  | .ok _ => none
  | .error e => some e

theorem fault?_eq_some {x : Except ε α} {e : ε} : fault? x = some e ↔ x = .error e := by
  cases x <;> simp [fault?]

theorem fault?_eq_none {x : Except ε α} : fault? x = none ↔ ∃ a, x = .ok a := by
  cases x <;> simp [fault?]

/-- A list of steps fails with what the first of them to fail failed with. -/
theorem fault?_mapM (f : α → Except ε β) (l : List α) : fault? (l.mapM f) = l.findSome? fun a => fault? (f a) := by
  induction l with
  | nil => rfl
  | cons a l ih =>
    rw [List.mapM_cons, List.findSome?_cons, ← ih]
    cases f a with
    | error e => rfl
    | ok b => cases l.mapM f <;> rfl

theorem exists_mapM_eq_ok {f : α → Except ε β} {l : List α} (h : ∀ a ∈ l, ∃ b, f a = .ok b) : ∃ bs, l.mapM f = .ok bs := by
  rw [← fault?_eq_none, fault?_mapM, List.findSome?_eq_none_iff]
  exact fun a ha => fault?_eq_none.2 (h a ha)

theorem mapM_eq_some {f : α → Option β} {l : List α} {bs : List β} :
    l.mapM f = some bs ↔ List.Forall₂ (fun a b => f a = some b) l bs := by
  induction l generalizing bs with
  | nil =>
    rw [List.mapM_nil, List.forall₂_nil_left_iff]
    exact ⟨fun h => (Option.some.inj h).symm, fun h => congrArg some h.symm⟩
  | cons a l ih =>
    rw [List.mapM_cons, List.forall₂_cons_left_iff]
    constructor
    · intro h
      obtain ⟨b, hb, h⟩ := Option.bind_eq_some_iff.1 h
      obtain ⟨rest, hrest, h⟩ := Option.bind_eq_some_iff.1 h
      exact ⟨b, rest, hb, ih.1 hrest, (Option.some.inj h).symm⟩
    · rintro ⟨b, rest, hb, hrest, rfl⟩
      exact Option.bind_eq_some_iff.2 ⟨b, hb, Option.bind_eq_some_iff.2 ⟨rest, ih.2 hrest, rfl⟩⟩

theorem mapM_eq_some_map {f : α → Option β} {g : α → β} {l : List α} (h : ∀ a ∈ l, f a = some (g a)) :
    l.mapM f = some (l.map g) :=
  mapM_eq_some.2 (List.forall₂_map_right_iff.2 (List.forall₂_same.2 h))

theorem exists_of_mapM_eq_none {f : α → Option β} {l : List α} (h : l.mapM f = none) : ∃ a ∈ l, f a = none := by
  induction l with
  | nil => cases h
  | cons a l ih =>
    cases ha : f a with
    | none => exact ⟨a, .head l, ha⟩
    | some b =>
      rw [List.mapM_cons, ha] at h
      cases hl : l.mapM f with
      | none =>
        obtain ⟨c, hc, hnone⟩ := ih hl
        exact ⟨c, .tail a hc, hnone⟩
      | some bs =>
        rw [hl] at h
        cases h

theorem exists_of_forall₂ {R : α → β → Prop} {l : List α} {bs : List β} (h : List.Forall₂ R l bs) {i : Nat} {b : β}
    (hb : bs[i]? = some b) : ∃ a, l[i]? = some a ∧ R a b := by
  induction h generalizing i with
  | nil => cases hb
  | cons hfirst _ ih =>
    cases i with
    | zero =>
      cases hb
      exact ⟨_, rfl, hfirst⟩
    | succ i => exact ih hb

theorem exists_mem_of_forall₂ {R : α → β → Prop} {l : List α} {bs : List β} (h : List.Forall₂ R l bs) {a : α}
    (ha : a ∈ l) : ∃ b ∈ bs, R a b := by
  obtain ⟨i, hi⟩ := List.mem_iff_getElem?.1 ha
  obtain ⟨b, hb, hab⟩ := exists_of_forall₂ h.flip hi
  exact ⟨b, List.mem_of_getElem? hb, hab⟩

/-! ## Two lists of steps -/

/-- Steps that come to the same one by one come to the same as a whole. -/
theorem mapM_congr_forall₂ {γ : Type} {f : α → Except ε γ} {g : β → Except ε γ} {l : List α} {m : List β}
    (h : List.Forall₂ (fun a b => f a = g b) l m) : l.mapM f = m.mapM g := by
  induction h with
  | nil => rfl
  | cons hab _ ih => rw [List.mapM_cons, List.mapM_cons, hab, ih]

theorem toOption_eq_some {x : Except ε α} {a : α} : x.toOption = some a ↔ x = .ok a := by
  cases x <;> simp [Except.toOption]

/-- Steps that come to the same in another order, the failures apart, all succeed or do not, and then their results are
the same up to the order. -/
theorem mapM_perm {γ : Type} {f : α → Except ε γ} {g : β → Except ε γ} {l : List α} {m : List β} {cs : List γ}
    (h : (l.map fun a => (f a).toOption).Perm (m.map fun b => (g b).toOption)) (hl : l.mapM f = .ok cs) :
    ∃ ds, m.mapM g = .ok ds ∧ ds.Perm cs := by
  have hread : List.Forall₂ (fun x c => x = some c) (l.map fun a => (f a).toOption) cs := by
    rw [List.forall₂_map_left_iff]
    exact (mapM_eq_ok.1 hl).imp fun a c hac => toOption_eq_some.2 hac
  obtain ⟨ds, hds, hperm⟩ := List.perm_comp_forall₂ h.symm hread
  rw [List.forall₂_map_left_iff] at hds
  exact ⟨ds, mapM_eq_ok.2 (hds.imp fun b d hbd => toOption_eq_some.1 hbd), hperm⟩

/-! ## Steps that may give nothing -/

theorem mapM_cons_filterMap (f : α → Except ε (Option β)) (a : α) (l : List α) :
    ((a :: l).mapM f).map (List.filterMap id) =
      f a >>= fun b => ((l.mapM f).map (List.filterMap id)).map (b.toList ++ ·) := by
  rw [List.mapM_cons]
  cases f a with
  | error e => rfl
  | ok b => cases l.mapM f <;> cases b <;> rfl

/-- Steps that succeed and give nothing may be left out. -/
theorem mapM_filter_of_none {f : α → Except ε (Option β)} {keep : α → Bool}
    (hskip : ∀ a, keep a = false → f a = .ok none) (l : List α) :
    ((l.filter keep).mapM f).map (List.filterMap id) = (l.mapM f).map (List.filterMap id) := by
  induction l with
  | nil => rfl
  | cons a l ih =>
    cases hkeep : keep a with
    | true => rw [List.filter_cons_of_pos hkeep, mapM_cons_filterMap, mapM_cons_filterMap, ih]
    | false =>
      rw [List.filter_cons_of_neg (by simp [hkeep]), ih, mapM_cons_filterMap, hskip a hkeep]
      cases l.mapM f <;> rfl

/-- If every step gives something, all results are kept. -/
theorem forall₂_filterMap_id {R : α → β → Prop} {l : List α} {bs : List (Option β)}
    (h : List.Forall₂ (fun a b => ∃ c, b = some c ∧ R a c) l bs) : List.Forall₂ R l (bs.filterMap id) := by
  induction h with
  | nil => exact .nil
  | cons hab _ ih =>
    obtain ⟨c, rfl, hc⟩ := hab
    exact .cons hc ih

end ApiProfile
