import ApiProfile.Proofs.Registry.Declaring
import ApiProfile.Proofs.Registry.Pruning
import ApiProfile.Proofs.Registry.Replay
/-!
# Entries under their own names

A registry that is read from a document has every entry stored under the name that the entry itself
has. Resolving features and pruning groups keep it so.
-/

namespace ApiProfile.Registry

/-- Every constant, group and command is stored under its name. -/
structure Keyed (r : Registry) : Prop where
  constants : r.constants.Keyed Constant.name
  groups : r.groups.Keyed Group.name
  commands : r.commands.Keyed Command.name

/-! ## Reading -/

theorem keyed_record {t : Table Declaration} (ht : t.Keyed (·.constant.name)) (d : Declaration) :
    (record t d).Keyed (·.constant.name) := by
  -- a later declaration may replace an earlier one, but only one of the same name
  refine ht.place rfl fun kept hkept => ?_
  dsimp only
  split
  · rfl
  · exact ht _ _ hkept

theorem keyed_readConstants {root : Markup.Element} {constants : Table Constant}
    (h : readConstants root = .ok constants) : constants.Keyed Constant.name := by
  obtain ⟨declarations, -, h⟩ := bind_eq_ok.1 h
  cases h
  refine Table.Keyed.map ?_
  refine List.foldlRecOn declarations record Table.keyed_empty fun t ht d _ => keyed_record ht d

theorem keyed_readUnique {α : Type} {read : Markup.Element → Except Failure α} {nameOf : α → String}
    {repeated : String → Failure} {es : List Markup.Element} {t result : Table α} (ht : t.Keyed nameOf)
    (h : readUnique read nameOf repeated t es = .ok result) : result.Keyed nameOf := by
  induction es generalizing t with
  | nil =>
    cases h
    exact ht
  | cons e es ih =>
    unfold readUnique at h
    split at h
    · cases h
    · split at h
      · cases h
      · exact ih (ht.insert _) h

theorem keyed_ofRoot {selection : Selection} {root : Markup.Element} {r : Registry}
    (h : ofRoot selection root = .ok r) : r.Keyed := by
  obtain ⟨hconstants, hgroups, hcommands, -⟩ := ofRoot_eq_ok.1 h
  exact ⟨keyed_readConstants hconstants, keyed_readUnique Table.keyed_empty hgroups,
    keyed_readUnique Table.keyed_empty hcommands⟩

theorem keyed_ofDocument {selection : Selection} {document : String} {r : Registry}
    (h : ofDocument selection document = .ok r) : r.Keyed := by
  obtain ⟨root, -, h⟩ := bind_eq_ok.1 h
  obtain ⟨read, hread, h⟩ := bind_eq_ok.1 h
  cases h
  exact ⟨(keyed_ofRoot hread).constants, (keyed_ofRoot hread).groups, (keyed_ofRoot hread).commands⟩

/-! ## Cutting down -/

theorem Keyed.resolve {r : Registry} (hr : r.Keyed) (limit : Option Version) : (r.resolve limit).Keyed := by
  rw [resolve_eq]
  exact ⟨hr.constants.filter _, hr.groups, hr.commands.filter _⟩

theorem Keyed.pruneGroups {r : Registry} (hr : r.Keyed) : r.pruneGroups.Keyed :=
  ⟨hr.constants, keyed_pruneGroups r, hr.commands⟩

end ApiProfile.Registry
