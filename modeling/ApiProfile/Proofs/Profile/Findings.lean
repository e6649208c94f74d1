import ApiProfile.Proofs.Profile.Model
import ApiProfile.Proofs.Registry.Resolution
/-!
# What a profile reports

The findings of a run come from three passes: dangling references are met in document order, dropped
groups in the order of their names, and types that no table has in the order in which signatures use
them. The last ones are merged on the way: a use goes to the finding that its type has already. We show
that the merged list is what one gets by listing the distinct types and giving each all of its uses.
-/

namespace ApiProfile

/-! ## Types that no table has -/

/-- A type name where a command uses it. -/
structure TypeUse where
  name : String
  command : String

/-- The uses of a command's types: those of its parameters, then that of its result. -/
def Signature.uses (s : Signature) : List TypeUse :=
  (s.parameters.map fun p => ⟨p.type.type.base, s.name⟩) ++ [⟨s.result.type.base, s.name⟩]

/-- One finding for each distinct type, in the order of first uses, with all its uses in their order. -/
def findingsOfUses (uses : List TypeUse) : List Diagnostic :=
  (uses.map (·.name)).eraseDups.map fun name =>
    ⟨name, .unmappedType, "Unable to map type '" ++ name ++ "' to a low-level type",
      (uses.filter (·.name = name)).map ("used by " ++ ·.command)⟩

/-- Records a use among earlier findings. -/
def TypeUse.note (ds : List Diagnostic) (use : TypeUse) : List Diagnostic :=
  Diagnostics.noteUse use.name use.command ds

/-- The finding at the head takes the uses of its type, and those of other types go past it. -/
theorem foldl_note_cons (d : Diagnostic) (hd : d.code = .unmappedType) (ds : List Diagnostic)
    (uses : List TypeUse) :
    uses.foldl TypeUse.note (d :: ds) =
      { d with context := d.context ++ (uses.filter (·.name = d.subject)).map ("used by " ++ ·.command) } ::
        (uses.filter (·.name ≠ d.subject)).foldl TypeUse.note ds := by
  induction uses generalizing d ds with
  | nil => simp
  | cons use uses ih =>
    rw [List.foldl_cons, TypeUse.note, Diagnostics.noteUse]
    by_cases h : use.name = d.subject
    · have hrest := ih { d with context := d.context ++ ["used by " ++ use.command] } hd ds
      rw [if_pos ⟨hd, h.symm⟩, hrest]
      simp [h]
    · rw [if_neg fun hsame => h hsame.2.symm, ih _ hd]
      simp [h, TypeUse.note]

theorem findingsOfUses_cons (use : TypeUse) (uses : List TypeUse) :
    findingsOfUses (use :: uses) =
      ⟨use.name, .unmappedType, "Unable to map type '" ++ use.name ++ "' to a low-level type",
        ("used by " ++ use.command) :: (uses.filter (·.name = use.name)).map ("used by " ++ ·.command)⟩ ::
      findingsOfUses (uses.filter (·.name ≠ use.name)) := by
  unfold findingsOfUses
  rw [List.map_cons, List.eraseDups_cons, List.map_cons]
  congr 1
  · simp
  · have hnames : (uses.map (·.name)).filter (fun name => !name == use.name) =
        (uses.filter (·.name ≠ use.name)).map (·.name) := by
      rw [List.filter_map]
      congr 1
      refine List.filter_congr fun u _ => ?_
      rw [Function.comp_apply, beq_eq_decide, decide_not]
    rw [hnames]
    refine List.map_congr_left fun name hname => ?_
    -- a type that is left is not the first one, so none of its uses has been taken out
    obtain ⟨u, hu, rfl⟩ := List.mem_map.1 (List.mem_eraseDups.1 hname)
    have hother : u.name ≠ use.name := by simpa using (List.mem_filter.1 hu).2
    congr 2
    rw [List.filter_cons_of_neg (by simpa using hother.symm), List.filter_filter]
    refine List.filter_congr fun v _ => ?_
    by_cases hv : v.name = u.name <;> simp [hv, hother]

/-- Recording uses one by one merges them as listing the types does. -/
theorem foldl_note_nil (uses : List TypeUse) : uses.foldl TypeUse.note [] = findingsOfUses uses := by
  cases uses with
  | nil => rfl
  | cons use uses =>
    have hfirst : TypeUse.note [] use = [.unmappedType use.name use.command] := rfl
    rw [List.foldl_cons, hfirst, foldl_note_cons _ rfl, findingsOfUses_cons]
    congr 1
    exact foldl_note_nil (uses.filter (·.name ≠ use.name))
termination_by uses.length
decreasing_by
  have := List.length_filter_le (fun u : TypeUse => decide (u.name ≠ use.name)) uses
  simp only [List.length_cons]
  omega

/-- All of them are findings about types, and there is one for each type. -/
theorem subjects_findingsOfUses (uses : List TypeUse) :
    ((findingsOfUses uses).filter (·.code = .unmappedType)).map (·.subject) = (uses.map (·.name)).eraseDups := by
  unfold findingsOfUses
  rw [List.filter_eq_self.2 fun d hd => by obtain ⟨name, -, rfl⟩ := List.mem_map.1 hd; rfl, List.map_map]
  exact List.map_id _

theorem nodup_eraseDups (names : List String) : names.eraseDups.Nodup := by
  induction hn : names.length using Nat.strongRecOn generalizing names with
  | ind n ih =>
    cases names with
    | nil => exact List.nodup_nil
    | cons name names =>
      have hshorter := List.length_filter_le (fun other => !other == name) names
      rw [List.length_cons] at hn
      rw [List.eraseDups_cons, List.nodup_cons]
      refine ⟨fun h => ?_, ih _ (by omega) _ rfl⟩
      simpa using (List.mem_filter.1 (List.mem_eraseDups.1 h)).2

theorem Signature.uses_eq (s : Signature) : s.uses = s.types.map fun type => ⟨type.base, s.name⟩ := by
  unfold uses types
  rw [List.map_append, List.map_map]
  rfl

theorem noteUnmapped_eq (t : TypeTable) (ds : Diagnostics) (s : Signature) :
    s.noteUnmapped t ds = ⟨(s.uses.filter (!t.knows ·.name)).foldl TypeUse.note ds.items⟩ := by
  rw [Signature.uses_eq]
  unfold Signature.noteUnmapped
  induction s.types generalizing ds with
  | nil => rfl
  | cons type types ih =>
    rw [List.foldl_cons, ih, List.map_cons, TypeTable.map?_eq]
    cases h : t.knows type.base with
    | true => rw [List.filter_cons_of_neg (by simpa using h)]; rfl
    | false => rw [List.filter_cons_of_pos (by simpa using h)]; rfl

theorem foldl_noteUnmapped (t : TypeTable) (signatures : List Signature) (ds : Diagnostics) :
    signatures.foldl (Signature.noteUnmapped t) ds =
      ⟨((signatures.flatMap Signature.uses).filter (!t.knows ·.name)).foldl TypeUse.note ds.items⟩ := by
  induction signatures generalizing ds with
  | nil => rfl
  | cons s signatures ih =>
    rw [List.foldl_cons, ih, noteUnmapped_eq, List.flatMap_cons, List.filter_append, List.foldl_append]

namespace Profile

/-! ## The three kinds of findings -/

/-- One finding for each type in the signatures that none of the tables has, in the order of first uses. -/
def unmappedFindings (tables : List TypeTable) (signatures : List Signature) : List Diagnostic :=
  findingsOfUses ((signatures.flatMap Signature.uses).filter fun use => ∀ t ∈ tables, ¬t.knows use.name)

theorem foldl_noteUnmapped_chain (tables : List TypeTable) (signatures : List Signature) :
    (signatures.foldl (Signature.noteUnmapped (TypeTable.chain tables)) .empty).items =
      unmappedFindings tables signatures := by
  have hknown : ∀ use : TypeUse, (!(TypeTable.chain tables).knows use.name) =
      decide (∀ t ∈ tables, ¬t.knows use.name) := by
    intro use
    rw [TypeTable.knows_chain, Bool.eq_iff_iff]
    simp
  rw [foldl_noteUnmapped, show Diagnostics.empty.items = [] from rfl, foldl_note_nil]
  unfold unmappedFindings
  simp only [hknown]

end Profile
end ApiProfile
