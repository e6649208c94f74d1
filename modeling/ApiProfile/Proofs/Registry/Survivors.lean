import ApiProfile.Proofs.Registry.Pruning
import ApiProfile.Proofs.Registry.Resolution
/-!
# Which groups survive

A registry may have groups under keys that are not their names, and several of one name. Pruning stores each group that
has a member left under its name, where the one with the greatest key stays; a group without one stands in nobody's
way. To prune again changes nothing, nor does it matter that groups were pruned before features are resolved.
-/

namespace ApiProfile.Registry

/-! ## Pruning early and again -/

/-- Once is as good as twice. -/
theorem pruneGroups_pruneGroups (r : Registry) : r.pruneGroups.pruneGroups = r.pruneGroups := by
  have hgroups : r.pruneGroups.pruneGroups.groups = r.pruneGroups.groups := by
    apply Table.ext_get?
    intro name
    rw [get?_pruneGroups (keyed_pruneGroups r)]
    cases hget : r.pruneGroups.groups.get? name with
    | none => rfl
    | some pruned =>
      -- a group that is left has no member to lose
      obtain ⟨-, group, -, hpruned, -⟩ := greatest_of_get?_pruneGroups hget
      have hagain : (prunedGroup r group).bind (prunedGroup r) = prunedGroup r group :=
        prunedGroup_bind (fun _ h => h) group
      rw [hpruned] at hagain
      exact hagain
  exact congrArg (fun groups => { r with groups }) hgroups

/-- Groups may be pruned early, as resolving features leaves no constant that was not there. -/
theorem pruneGroups_resolve_pruneGroups {r : Registry} (hr : r.groups.Keyed Group.name) (limit : Option Version) :
    (r.pruneGroups.resolve limit).pruneGroups = (r.resolve limit).pruneGroups := by
  have hconstants : ∀ name ∈ (r.resolve limit).constants.keys, name ∈ r.constants.keys := fun name hname =>
    ((mem_namesOf_resolve limit r .constant name).1 hname).1
  have hgroups : (r.pruneGroups.resolve limit).pruneGroups.groups = (r.resolve limit).pruneGroups.groups := by
    apply Table.ext_get?
    intro name
    have hkeyed : (r.pruneGroups.resolve limit).groups.Keyed Group.name := keyed_pruneGroups r
    have hkeyed' : (r.resolve limit).groups.Keyed Group.name := hr
    calc
      _ = (r.pruneGroups.groups.get? name).bind (prunedGroup (r.resolve limit)) := get?_pruneGroups hkeyed name
      _ = (r.groups.get? name).bind fun group => (prunedGroup r group).bind (prunedGroup (r.resolve limit)) := by
        rw [get?_pruneGroups hr, Option.bind_assoc]
      _ = (r.groups.get? name).bind (prunedGroup (r.resolve limit)) := by
        simp only [prunedGroup_bind hconstants]
      _ = _ := (get?_pruneGroups hkeyed' name).symm
  exact congrArg (fun groups => { r.resolve limit with groups }) hgroups

/-- Pruning leaves groups under their names, none of them empty and all of their members constants, and nothing else is
touched. A name is left if one of the groups with it has a member left, with the members left of the one among them
under the greatest key. Pruning again changes nothing, and when groups are stored under their names, pruning before
features are resolved makes no difference to pruning after it. -/
theorem pruneGroups_leaves (r : Registry) :
    (∀ key group, r.pruneGroups.groups.get? key = some group →
      group.name = key ∧ group.members.names ≠ [] ∧
        ∀ member ∈ group.members, member ∈ r.pruneGroups.constants.keys) ∧
    (r.pruneGroups.constants = r.constants ∧ r.pruneGroups.commands = r.commands ∧
      r.pruneGroups.features = r.features ∧ r.pruneGroups.digest = r.digest) ∧
    (∀ name, name ∈ r.pruneGroups.groups.keys ↔ ∃ key group, r.AliveUnder name key group) ∧
    (∀ name pruned, r.pruneGroups.groups.get? name = some pruned →
      ∃ key group, r.AliveUnder name key group ∧ (∀ other g, r.AliveUnder name other g → other ≤ key) ∧
        ∀ member, member ∈ pruned.members ↔ member ∈ group.members ∧ member ∈ r.constants.keys) ∧
    r.pruneGroups.pruneGroups = r.pruneGroups ∧
    (r.groups.Keyed Group.name → ∀ limit,
      (r.pruneGroups.resolve limit).pruneGroups = (r.resolve limit).pruneGroups) := by
  refine ⟨fun key group h => ?_, ⟨rfl, rfl, rfl, rfl⟩, fun name => mem_keys_pruneGroups, fun name pruned h => ?_,
    pruneGroups_pruneGroups r, pruneGroups_resolve_pruneGroups⟩
  · obtain ⟨hne, halive⟩ := live_of_get?_pruneGroups h
    exact ⟨keyed_pruneGroups r key group h, hne, halive⟩
  · obtain ⟨key, group, halive, hpruned, hgreatest⟩ := greatest_of_get?_pruneGroups h
    refine ⟨key, group, halive, hgreatest, fun member => ?_⟩
    rw [(prunedGroup_eq_some.1 hpruned).1, NameSet.mem_filter, Table.contains_iff]

/-- Three groups are named `G`, and the last of them has no member left. -/
def crossed : Registry where
  constants := .ofList [("A", ⟨"A", 1⟩), ("B", ⟨"B", 2⟩)]
  groups := .ofList [("H", ⟨"G", .ofList ["A"]⟩), ("I", ⟨"G", .ofList ["B", "C"]⟩), ("J", ⟨"G", .ofList ["C"]⟩),
    ("G", ⟨"H", .ofList ["C"]⟩)]
  commands := .empty
  features := [⟨.one 1, [⟨"A", .constant⟩, ⟨"B", .constant⟩], []⟩, ⟨.one 2, [], [⟨"B", .constant⟩]⟩]
  digest := none

/-- `G` is left with what the second one keeps, and is dropped once its constant is removed. -/
theorem pruneGroups_leaves_crossed :
    crossed.pruneGroups.groups.get? "G" = some ⟨"G", .ofList ["B"]⟩ ∧
    (∃ key group, crossed.AliveUnder "G" key group ∧
      (∀ other g, crossed.AliveUnder "G" other g → other ≤ key) ∧
      ∀ member, member ∈ NameSet.ofList ["B"] ↔ member ∈ group.members ∧ member ∈ crossed.constants.keys) ∧
    crossed.pruneGroups.groups.Keyed Group.name ∧
    (crossed.pruneGroups.pruneGroups.resolve none).pruneGroups = (crossed.pruneGroups.resolve none).pruneGroups ∧
    (crossed.pruneGroups.resolve none).pruneGroups.groups.keys = [] := by
  have hleft : crossed.pruneGroups.groups.get? "G" = some ⟨"G", .ofList ["B"]⟩ := by decide +kernel
  obtain ⟨-, -, -, hmembers, -, -⟩ := pruneGroups_leaves crossed
  obtain ⟨-, -, -, -, -, hearly⟩ := pruneGroups_leaves crossed.pruneGroups
  have hkeyed := keyed_pruneGroups crossed
  have hdropped : (crossed.pruneGroups.resolve none).pruneGroups.groups.keys = [] := by
    rw [resolve_eq]
    decide +kernel
  exact ⟨hleft, hmembers "G" _ hleft, hkeyed, hearly hkeyed none, hdropped⟩

end ApiProfile.Registry
