import ApiProfile.Proofs.Profile.Findings
/-!
# Lenient and strict

Both policies represent signatures alike and record the same findings; the strict one then refuses those that have
findings about types. So a lenient run tells how the strict one ends, and the types it reports are those that
the signatures use and the table does not have.
-/

namespace ApiProfile.TypeTable

theorem findings_eq (t : TypeTable) (signatures : List Signature) :
    signatures.foldl (Signature.noteUnmapped t) .empty =
      ⟨findingsOfUses ((signatures.flatMap Signature.uses).filter (!t.knows ·.name))⟩ := by
  rw [foldl_noteUnmapped, show Diagnostics.empty.items = [] from rfl, foldl_note_nil]

/-- The names of uses are those that signatures use in parameters or as results. -/
theorem mem_names_uses {t : TypeTable} {signatures : List Signature} {name : String} :
    name ∈ ((signatures.flatMap Signature.uses).filter (!t.knows ·.name)).map (·.name) ↔
      name ∉ t.entries.keys ∧
        ∃ s ∈ signatures, (∃ p ∈ s.parameters, p.type.type.base = name) ∨ s.result.type.base = name := by
  have hknows : (!t.knows name) = true ↔ name ∉ t.entries.keys := by
    unfold knows
    rw [Bool.not_eq_true', ← Bool.not_eq_true, Table.contains_iff]
  have huses : ∀ s : Signature, (∃ use ∈ s.uses, use.name = name) ↔
      (∃ p ∈ s.parameters, p.type.type.base = name) ∨ s.result.type.base = name := by
    intro s
    unfold Signature.uses
    simp
  simp only [List.mem_map, List.mem_filter, List.mem_flatMap, ← huses]
  constructor
  · rintro ⟨use, ⟨⟨s, hs, huse⟩, hunknown⟩, rfl⟩
    exact ⟨hknows.1 hunknown, s, hs, use, huse, rfl⟩
  · rintro ⟨hname, s, hs, use, huse, rfl⟩
    exact ⟨use, ⟨⟨s, hs, huse⟩, hknows.2 hname⟩, rfl⟩

theorem representAll_lenient (t : TypeTable) (signatures : List Signature) :
    t.representAll .lenient signatures =
      .ok (signatures.map (·.represent t), signatures.foldl (Signature.noteUnmapped t) .empty) := by
  unfold representAll
  exact if_neg fun h => nomatch h.1

theorem representAll_strict (t : TypeTable) (signatures : List Signature) :
    t.representAll .strict signatures =
      if (signatures.foldl (Signature.noteUnmapped t) .empty).withCode .unmappedType = [] then
        t.representAll .lenient signatures
      else .error (.unmappedTypes
        (((signatures.foldl (Signature.noteUnmapped t) .empty).withCode .unmappedType).map (·.subject))) := by
  rw [representAll_lenient]
  unfold representAll
  simp only [true_and, ne_eq, List.map_eq_nil_iff, ite_not]

/-- A lenient run succeeds. The strict run ends alike if there is no finding about a type, and otherwise fails with
the types of those findings in their order: each type once that the signatures use, in a parameter or as the result, and
the table does not have. -/
theorem representAll_by_policy (t : TypeTable) (signatures : List Signature) :
    ∃ represented findings unmapped, t.representAll .lenient signatures = .ok (represented, findings) ∧
      unmapped = (findings.withCode .unmappedType).map (·.subject) ∧
      (t.representAll .strict signatures =
        if findings.withCode .unmappedType = [] then .ok (represented, findings)
        else .error (.unmappedTypes unmapped)) ∧
      unmapped.Nodup ∧
      ∀ name, name ∈ unmapped ↔ name ∉ t.entries.keys ∧
        ∃ s ∈ signatures, (∃ p ∈ s.parameters, p.type.type.base = name) ∨ s.result.type.base = name := by
  have hsubjects := subjects_findingsOfUses ((signatures.flatMap Signature.uses).filter (!t.knows ·.name))
  refine ⟨_, _, _, representAll_lenient t signatures, rfl, representAll_strict t signatures, ?_, fun name => ?_⟩
  · rw [findings_eq]
    unfold Diagnostics.withCode
    rw [hsubjects]
    exact nodup_eraseDups _
  · rw [findings_eq]
    unfold Diagnostics.withCode
    rw [hsubjects, List.mem_eraseDups, mem_names_uses]

example : (ofList [("void", ⟨"Unit", 0⟩)]).representAll .strict
    [⟨"glFenceSync", ⟨⟨"GLsync", 0⟩, none⟩, [⟨"flags", ⟨⟨"GLbitfield", 0⟩, none⟩, .input⟩]⟩,
      ⟨"glDeleteSync", ⟨⟨"void", 0⟩, none⟩, [⟨"sync", ⟨⟨"GLsync", 0⟩, none⟩, .input⟩]⟩] =
    .error (.unmappedTypes ["GLbitfield", "GLsync"]) := by decide +kernel

end ApiProfile.TypeTable
