import ApiProfile.Proofs.Registry.Pruning
import ApiProfile.Proofs.Registry.Replay
import ApiProfile.Signature
import Mathlib.Data.List.OfFn
import Mathlib.Logic.Equiv.Basic
/-!
# Features in another order

Two features may trade places if their versions differ in rank, or if neither removes what the other
adds. We show that any reordering made of such trades leaves the same constants and commands at every
version, and so the same groups and signatures.
-/

namespace ApiProfile

/-- Features whose order does not matter. -/
def Feature.Exchangeable (f g : Feature) : Prop :=
  f.version.rank g.version ≠ .eq ∨ (∀ m ∈ f.removals, m ∉ g.additions) ∧ ∀ m ∈ g.removals, m ∉ f.additions

instance (f g : Feature) : Decidable (f.Exchangeable g) :=
  inferInstanceAs (Decidable (_ ∨ _))

theorem Feature.Exchangeable.symm {f g : Feature} (h : f.Exchangeable g) : g.Exchangeable f := by
  rcases h with h | ⟨hfg, hgf⟩
  · exact .inl fun heq => h (Std.OrientedCmp.eq_symm heq)
  · exact .inr ⟨hgf, hfg⟩

/-- A removal that comes before an addition at one pair of positions and after it at another: their
features rank alike and have changed places. -/
theorem Occurrence.positions_of_trade {o p : Occurrence} {i b : Nat} (hadds : o.adds = true)
    (hremoves : p.adds = false) (hbefore : ({ p with position := b }.rank o).isLE)
    (hafter : ({ o with position := i }.rank p).isLE) :
    o.version.rank p.version = .eq ∧ i ≤ p.position ∧ b < o.position := by
  rw [isLE_rank_iff] at hbefore hafter
  dsimp only at hbefore hafter
  -- neither version can be lower, as the other order would then fail
  obtain ⟨heq, hplace⟩ := hafter.resolve_left fun hlt => by
    rw [Std.OrientedCmp.gt_of_lt hlt] at hbefore
    rcases hbefore with h | ⟨h, -⟩ <;> cases h
  obtain ⟨-, hback⟩ := hbefore.resolve_left fun hlt => by
    rw [Std.OrientedCmp.gt_of_lt hlt] at heq
    cases heq
  refine ⟨heq, ?_, ?_⟩
  · rcases hplace with hlt | ⟨hsame, -⟩ <;> omega
  · rcases hback with hlt | ⟨-, hstays⟩
    · exact hlt
    · rw [hstays hadds] at hremoves
      cases hremoves

namespace Registry

/-- The registry with its features in another order: position `i` gets the feature at `σ i`. -/
def reordered (r : Registry) (σ : Equiv.Perm (Fin r.features.length)) : Registry :=
  { r with features := List.ofFn fun i => r.features.get (σ i) }

/-! ## Occurrences by position -/

section
variable {n : Nat} {F : Fin n → Feature} {r : Registry} {limit : Option Version} {o : Occurrence}

theorem mem_occurrences_ofFn (hr : r.features = List.ofFn F) :
    o ∈ r.occurrences limit ↔
      ∃ i : Fin n, (limit.all fun m => (F i).version.rank m ≠ .gt) ∧ o ∈ (F i).occurrences i := by
  unfold occurrences numbered
  rw [hr]
  simp only [List.mem_flatMap, List.mem_filter, List.mem_zipIdx_iff_getElem?, List.getElem?_ofFn]
  constructor
  · rintro ⟨⟨f, i⟩, ⟨hget, hlimit⟩, ho⟩
    dsimp only at hget hlimit ho
    obtain ⟨hi, hf⟩ := Option.dite_none_right_eq_some.1 hget
    rw [Option.some.injEq] at hf
    subst hf
    exact ⟨⟨i, hi⟩, hlimit, ho⟩
  · rintro ⟨i, hlimit, ho⟩
    exact ⟨(F i, i), ⟨by simp, hlimit⟩, ho⟩

end

/-! ## Trades -/

/-- Exchanging exchangeable features keeps what is last added. -/
theorem LastAdded.of_reordered {n : Nat} {F : Fin n → Feature} {σ : Equiv.Perm (Fin n)} {r r' : Registry}
    (hr : r.features = List.ofFn F) (hr' : r'.features = List.ofFn (F ∘ σ))
    (hσ : ∀ i j, i < j → σ j < σ i → (F (σ i)).Exchangeable (F (σ j)))
    {limit : Option Version} {m : Mention} (h : r.LastAdded limit m) : r'.LastAdded limit m := by
  -- `o` comes last in the old order, `p` in the new one; if `p` removes, the two have changed places
  obtain ⟨o, ho, hadds⟩ := h
  obtain ⟨a, hlimit, hoa⟩ := (mem_occurrences_ofFn hr).1 ho.mem
  obtain ⟨i, rfl⟩ := σ.surjective a
  obtain ⟨hov, hoi, hom⟩ := Feature.mem_occurrences.1 hoa
  have hnew : { o with position := i.val } ∈ r'.occurrences limit :=
    (mem_occurrences_ofFn hr').2 ⟨i, hlimit, Feature.mem_occurrences.2 ⟨hov, rfl, hom⟩⟩
  obtain ⟨p, hp⟩ := exists_isLast hnew
  rw [ho.mention] at hp
  by_cases hpadds : p.adds = true
  · exact ⟨p, hp, hpadds⟩
  obtain ⟨j, hlimitj, hpj⟩ := (mem_occurrences_ofFn hr').1 hp.mem
  obtain ⟨hpv, hpi, hpm⟩ := Feature.mem_occurrences.1 hpj
  have hold : { p with position := (σ j).val } ∈ r.occurrences limit :=
    (mem_occurrences_ofFn hr).2 ⟨σ j, hlimitj, Feature.mem_occurrences.2 ⟨hpv, rfl, hpm⟩⟩
  obtain ⟨heq, hij, hback⟩ := Occurrence.positions_of_trade hadds (Bool.eq_false_iff.2 hpadds)
    (ho.last _ hold hp.mention) (hp.last _ hnew ho.mention)
  rw [hpi] at hij
  rw [hoi] at hback
  have hlt : i < j := by
    refine lt_of_le_of_ne hij ?_
    rintro rfl
    exact lt_irrefl _ hback
  rcases hσ i j hlt hback with hv | ⟨-, hfree⟩
  · rw [hov, hpv] at heq
    exact absurd heq hv
  · rw [if_pos hadds, ho.mention] at hom
    rw [if_neg hpadds, hp.mention] at hpm
    exact absurd hom (hfree m hpm)

theorem lastAdded_reordered (limit : Option Version) (r : Registry) (σ : Equiv.Perm (Fin r.features.length))
    (hσ : ∀ i j, i < j → σ j < σ i → (r.features.get (σ i)).Exchangeable (r.features.get (σ j))) (m : Mention) :
    (r.reordered σ).LastAdded limit m ↔ r.LastAdded limit m := by
  have hr : r.features = List.ofFn r.features.get := (List.ofFn_get _).symm
  have hr' : (r.reordered σ).features = List.ofFn (r.features.get ∘ σ) := rfl
  have hback : r.features = List.ofFn ((r.features.get ∘ σ) ∘ σ.symm) := by
    rw [Function.comp_assoc, Equiv.self_comp_symm, Function.comp_id]
    exact hr
  refine ⟨LastAdded.of_reordered hr' hback fun i j hij hji => ?_, LastAdded.of_reordered hr hr' hσ⟩
  have h := hσ (σ.symm j) (σ.symm i) hji (by simpa using hij)
  exact h.symm

/-! ## Groups and signatures -/

/-- A registry whose features are put in another order, such that every two of them whose order changes
are exchangeable, has the same constants, commands, groups and signatures left at every version. -/
theorem resolve_reordered (limit : Option Version) (r : Registry) (σ : Equiv.Perm (Fin r.features.length))
    (hσ : ∀ i j, i < j → σ j < σ i → (r.features.get (σ i)).Exchangeable (r.features.get (σ j))) :
    ((r.reordered σ).resolve limit).constants = (r.resolve limit).constants ∧
    ((r.reordered σ).resolve limit).commands = (r.resolve limit).commands ∧
    ((r.reordered σ).resolve limit).pruneGroups.groups = (r.resolve limit).pruneGroups.groups ∧
    ((r.reordered σ).resolve limit).pruneGroups.signatures = (r.resolve limit).pruneGroups.signatures := by
  have hlast : ∀ m, decide ((r.reordered σ).LastAdded limit m) = decide (r.LastAdded limit m) := fun m =>
    decide_eq_decide.2 (lastAdded_reordered limit r σ hσ m)
  have hconstants : ((r.reordered σ).resolve limit).constants = (r.resolve limit).constants := by
    simp only [resolve_eq, hlast]
    rfl
  have hcommands : ((r.reordered σ).resolve limit).commands = (r.resolve limit).commands := by
    simp only [resolve_eq, hlast]
    rfl
  refine ⟨hconstants, hcommands, pruneGroups_groups_congr hconstants rfl, ?_⟩
  unfold signatures pruneGroups
  rw [hcommands]

/-- Two features of one rank that both add `B`, and a later one that removes it. -/
def overlapping : Registry :=
  .ofEntries [⟨"A", 1⟩, ⟨"B", 2⟩] [⟨"G", .ofList ["A", "B"]⟩] []
    [⟨.one 1, [⟨"A", .constant⟩, ⟨"B", .constant⟩], []⟩, ⟨.two 1 0, [⟨"B", .constant⟩], [⟨"C", .constant⟩]⟩,
      ⟨.two 2 0, [], [⟨"B", .constant⟩]⟩]

/-- All three features change their order here. -/
theorem resolve_reversed_overlapping :
    (∀ i j, i < j → Fin.revPerm j < Fin.revPerm i → (overlapping.features.get (Fin.revPerm i)).Exchangeable
      (overlapping.features.get (Fin.revPerm j))) ∧
    ((overlapping.reordered Fin.revPerm).resolve none).constants = (overlapping.resolve none).constants ∧
    ((overlapping.reordered Fin.revPerm).resolve none).commands = (overlapping.resolve none).commands ∧
    ((overlapping.reordered Fin.revPerm).resolve none).pruneGroups.groups =
      (overlapping.resolve none).pruneGroups.groups ∧
    ((overlapping.reordered Fin.revPerm).resolve none).pruneGroups.signatures =
      (overlapping.resolve none).pruneGroups.signatures := by
  have h : ∀ i j, i < j → Fin.revPerm j < Fin.revPerm i →
      (overlapping.features.get (Fin.revPerm i)).Exchangeable (overlapping.features.get (Fin.revPerm j)) := by
    decide +kernel
  exact ⟨h, resolve_reordered none overlapping Fin.revPerm h⟩

end Registry
end ApiProfile
