import ApiProfile.Proofs.Table
import ApiProfile.Registry.Resolution
/-!
# What pruning groups leaves

Every group left has a member, all of its members are constants, and it is stored under its own name. Groups need not
be stored under their names before: of those with one name that have a member left, the one under the greatest key stays.
-/

namespace ApiProfile.Registry

theorem prunedGroup_eq_some {r : Registry} {group pruned : Group} :
    prunedGroup r group = some pruned ↔
      pruned = ⟨group.name, group.members.filter r.constants.contains⟩ ∧ pruned.members.names ≠ [] := by
  unfold prunedGroup
  dsimp only
  constructor
  · intro h
    split at h
    · cases h
    · rename_i hne
      cases h
      exact ⟨rfl, hne⟩
  · rintro ⟨rfl, hne⟩
    exact if_neg hne

theorem name_of_prunedGroup {r : Registry} {group pruned : Group} (h : prunedGroup r group = some pruned) :
    pruned.name = group.name := by
  rw [(prunedGroup_eq_some.1 h).1]

/-- A group is left if one of its members is. -/
theorem exists_prunedGroup {r : Registry} {group : Group} :
    (∃ pruned, prunedGroup r group = some pruned) ↔ ∃ member ∈ group.members, member ∈ r.constants.keys := by
  constructor
  · rintro ⟨pruned, hpruned⟩
    obtain ⟨rfl, hne⟩ := prunedGroup_eq_some.1 hpruned
    obtain ⟨member, hmember⟩ := List.exists_mem_of_ne_nil _ hne
    obtain ⟨hold, halive⟩ := NameSet.mem_filter.1 hmember
    exact ⟨member, hold, (r.constants.contains_iff member).1 halive⟩
  · rintro ⟨member, hmember, halive⟩
    have hleft : member ∈ group.members.filter r.constants.contains :=
      NameSet.mem_filter.2 ⟨hmember, (r.constants.contains_iff member).2 halive⟩
    exact ⟨_, prunedGroup_eq_some.2 ⟨rfl, List.ne_nil_of_mem hleft⟩⟩

/-- Of a group that is cut down to some constants and then to fewer, the same is left as if it was cut down to the
fewer ones at once. -/
theorem prunedGroup_bind {r r' : Registry} (h : ∀ name ∈ r'.constants.keys, name ∈ r.constants.keys) (group : Group) :
    (prunedGroup r group).bind (prunedGroup r') = prunedGroup r' group := by
  have hfewer : ∀ name, r'.constants.contains name → r.constants.contains name := fun name hname =>
    (r.constants.contains_iff name).2 (h name ((r'.constants.contains_iff name).1 hname))
  have hmembers := NameSet.filter_filter_of_imp hfewer group.members
  apply Option.ext
  intro pruned
  rw [Option.bind_eq_some_iff, prunedGroup_eq_some]
  constructor
  · rintro ⟨first, hfirst, hpruned⟩
    obtain ⟨rfl, -⟩ := prunedGroup_eq_some.1 hfirst
    rw [prunedGroup_eq_some, hmembers] at hpruned
    exact hpruned
  · rintro ⟨rfl, hne⟩
    obtain ⟨member, hmember⟩ := List.exists_mem_of_ne_nil _ hne
    obtain ⟨hold, halive⟩ := NameSet.mem_filter.1 hmember
    obtain ⟨first, hfirst⟩ := exists_prunedGroup.2 ⟨member, hold, h member ((r'.constants.contains_iff member).1 halive)⟩
    obtain ⟨rfl, -⟩ := prunedGroup_eq_some.1 hfirst
    exact ⟨_, hfirst, prunedGroup_eq_some.2 ⟨by rw [hmembers], hne⟩⟩

theorem mem_of_prunedGroup {r : Registry} {group pruned : Group} (h : prunedGroup r group = some pruned)
    {member : String} (hmember : member ∈ pruned.members) : member ∈ r.constants.keys := by
  rw [(prunedGroup_eq_some.1 h).1] at hmember
  exact (r.constants.contains_iff member).1 (NameSet.mem_filter.1 hmember).2

/-- Under the key stands a group of that name, and one of its members is a constant. -/
structure AliveUnder (r : Registry) (name key : String) (group : Group) : Prop where
  stored : r.groups.get? key = some group
  named : group.name = name
  alive : ∃ member ∈ group.members, member ∈ r.constants.keys

theorem keyed_pruneGroups (r : Registry) : r.pruneGroups.groups.Keyed Group.name :=
  Table.keyed_ofList _

/-- What is left under a name is left of the group under the greatest key. -/
theorem greatest_of_get?_pruneGroups {r : Registry} {name : String} {pruned : Group}
    (h : r.pruneGroups.groups.get? name = some pruned) :
    ∃ key group, r.AliveUnder name key group ∧ prunedGroup r group = some pruned ∧
      ∀ other g, r.AliveUnder name other g → other ≤ key := by
  obtain ⟨key, group, hget, hpruned, hgreatest⟩ := Table.exists_greatest_of_get?_ofList h
  have hname := keyed_pruneGroups r _ _ h
  rw [name_of_prunedGroup hpruned] at hname
  refine ⟨key, group, ⟨hget, hname, exists_prunedGroup.1 ⟨pruned, hpruned⟩⟩, hpruned, fun other g hg => ?_⟩
  obtain ⟨p, hp⟩ := exists_prunedGroup.2 hg.alive
  exact hgreatest other g p hg.stored hp ((name_of_prunedGroup hp).trans hg.named)

theorem live_of_get?_pruneGroups {r : Registry} {key : String} {pruned : Group}
    (h : r.pruneGroups.groups.get? key = some pruned) :
    pruned.members.names ≠ [] ∧ ∀ member ∈ pruned.members, member ∈ r.constants.keys := by
  obtain ⟨-, group, -, hpruned, -⟩ := greatest_of_get?_pruneGroups h
  exact ⟨(prunedGroup_eq_some.1 hpruned).2, fun member => mem_of_prunedGroup hpruned⟩

/-- A name is left if one of the groups with that name is. -/
theorem mem_keys_pruneGroups {r : Registry} {name : String} :
    name ∈ r.pruneGroups.groups.keys ↔ ∃ key group, r.AliveUnder name key group := by
  constructor
  · intro h
    obtain ⟨pruned, hpruned⟩ := (Table.mem_keys_iff _ _).1 h
    obtain ⟨key, group, halive, -⟩ := greatest_of_get?_pruneGroups hpruned
    exact ⟨key, group, halive⟩
  · rintro ⟨key, group, hget, rfl, halive⟩
    obtain ⟨pruned, hpruned⟩ := exists_prunedGroup.2 halive
    have hmem := List.mem_filterMap.2 ⟨group, r.groups.mem_values_iff.2 ⟨key, hget⟩, hpruned⟩
    rw [← name_of_prunedGroup hpruned, ← Table.contains_iff]
    exact (Table.contains_ofList _ _).2 ⟨pruned, List.mem_map.2 ⟨pruned, hmem, rfl⟩⟩

/-- When groups are stored under their names, each of them is cut down in its place. -/
theorem get?_pruneGroups {r : Registry} (hgroups : r.groups.Keyed Group.name) (name : String) :
    r.pruneGroups.groups.get? name = (r.groups.get? name).bind (prunedGroup r) := by
  cases hget : r.pruneGroups.groups.get? name with
  | some pruned =>
    obtain ⟨key, group, halive, hpruned, -⟩ := greatest_of_get?_pruneGroups hget
    have hkey : key = name := (hgroups _ _ halive.stored).symm.trans halive.named
    rw [← hkey, halive.stored]
    exact hpruned.symm
  | none =>
    rw [eq_comm, Option.bind_eq_none_iff]
    intro group hgroup
    rw [Option.eq_none_iff_forall_ne_some]
    intro pruned hpruned
    have halive : r.AliveUnder name name group :=
      ⟨hgroup, hgroups _ _ hgroup, exists_prunedGroup.1 ⟨pruned, hpruned⟩⟩
    obtain ⟨left, hleft⟩ := (Table.mem_keys_iff _ _).1 (mem_keys_pruneGroups.2 ⟨name, group, halive⟩)
    rw [hget] at hleft
    cases hleft

/-- The groups left depend on nothing but groups and constants. -/
theorem pruneGroups_groups_congr {r r' : Registry} (hconstants : r.constants = r'.constants)
    (hgroups : r.groups = r'.groups) : r.pruneGroups.groups = r'.pruneGroups.groups := by
  have hpruned : prunedGroup r = prunedGroup r' := by
    funext group
    unfold prunedGroup
    rw [hconstants]
  unfold pruneGroups
  rw [hpruned, hgroups]

end ApiProfile.Registry
