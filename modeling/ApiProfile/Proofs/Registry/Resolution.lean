import ApiProfile.Proofs.Registry.Replay
/-!
# What resolving features leaves

A name is left if it is declared and the last mention of it, among the features that count, adds it.
What is left is declared as before, and nothing else of the registry changes. As the features stay, what
is left can be resolved again, up to the same version or another: then both have to leave it.
-/

namespace ApiProfile.Registry

/-- The names that a registry has entries of a kind under. -/
def namesOf (r : Registry) : EntryKind → List String
  | .constant => r.constants.keys
  | .command => r.commands.keys

theorem declares_iff {r : Registry} {m : Mention} : r.declares m ↔ m.name ∈ r.namesOf m.kind := by
  unfold declares namesOf
  cases m.kind with
  | constant => exact r.constants.contains_iff m.name
  | command => exact r.commands.contains_iff m.name

theorem not_declares_iff {r : Registry} {m : Mention} : (!r.declares m) = true ↔ m.name ∉ r.namesOf m.kind := by
  rw [Bool.not_eq_true', ← Bool.not_eq_true, declares_iff]

theorem mem_namesOf_resolve (limit : Option Version) (r : Registry) (kind : EntryKind) (name : String) :
    name ∈ (r.resolve limit).namesOf kind ↔ name ∈ r.namesOf kind ∧ r.LastAdded limit ⟨name, kind⟩ := by
  rw [resolve_eq]
  cases kind <;> unfold namesOf <;> rw [Table.mem_keys_filter, decide_eq_true_iff]

/-- The names left are the declared ones whose last occurrence is an addition: occurrences come by
version, then by the position of the feature, then additions before removals. -/
theorem resolve_leaves_lastAdded (limit : Option Version) (r : Registry) :
    (∀ kind name, name ∈ (r.resolve limit).namesOf kind ↔
      name ∈ r.namesOf kind ∧ r.LastAdded limit ⟨name, kind⟩) ∧
    (∀ name constant, (r.resolve limit).constants.get? name = some constant →
      r.constants.get? name = some constant) ∧
    (∀ name command, (r.resolve limit).commands.get? name = some command →
      r.commands.get? name = some command) ∧
    (r.resolve limit).groups = r.groups ∧ (r.resolve limit).features = r.features ∧
    (r.resolve limit).digest = r.digest := by
  refine ⟨mem_namesOf_resolve limit r, fun name constant h => ?_, fun name command h => ?_, rfl, rfl, rfl⟩
  · rw [resolve_eq] at h
    exact Table.get?_of_get?_filter h
  · rw [resolve_eq] at h
    exact Table.get?_of_get?_filter h

/-! ## Resolving what is left -/

/-- What is last added is a matter of the features alone. -/
theorem lastAdded_resolve (a b : Option Version) (r : Registry) (m : Mention) :
    (r.resolve b).LastAdded a m ↔ r.LastAdded a m :=
  Iff.rfl

theorem resolve_resolve (a b : Option Version) (r : Registry) :
    (r.resolve b).resolve a = { r with
      constants := r.constants.filter fun name _ =>
        r.LastAdded a ⟨name, .constant⟩ && r.LastAdded b ⟨name, .constant⟩
      commands := r.commands.filter fun name _ =>
        r.LastAdded a ⟨name, .command⟩ && r.LastAdded b ⟨name, .command⟩ } := by
  rw [resolve_eq a (r.resolve b)]
  simp only [lastAdded_resolve]
  rw [resolve_eq b r]
  simp only [Table.filter_filter, Bool.and_comm]

/-- Resolving twice leaves the entries that each of the two resolutions leaves, in whatever order, and
once is as good as twice. -/
theorem resolve_resolve_leaves_both (a b : Option Version) (r : Registry) :
    (∀ name constant, ((r.resolve b).resolve a).constants.get? name = some constant ↔
      (r.resolve a).constants.get? name = some constant ∧ (r.resolve b).constants.get? name = some constant) ∧
    (∀ name command, ((r.resolve b).resolve a).commands.get? name = some command ↔
      (r.resolve a).commands.get? name = some command ∧ (r.resolve b).commands.get? name = some command) ∧
    (r.resolve a).resolve a = r.resolve a ∧
    (r.resolve b).resolve a = (r.resolve a).resolve b := by
  refine ⟨fun name constant => ?_, fun name command => ?_, ?_, ?_⟩
  · rw [resolve_resolve, resolve_eq a, resolve_eq b]
    exact Table.get?_filter_and_eq_some
  · rw [resolve_resolve, resolve_eq a, resolve_eq b]
    exact Table.get?_filter_and_eq_some
  · rw [resolve_resolve, resolve_eq]
    simp only [Bool.and_self]
  · rw [resolve_resolve, resolve_resolve]
    simp only [Bool.and_comm]

end ApiProfile.Registry
