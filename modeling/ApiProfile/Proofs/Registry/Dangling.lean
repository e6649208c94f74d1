import ApiProfile.Proofs.Registry.Resolution
/-!
# Dangling references

A mention of a name that is not declared is reported, and has no effect: erasing what is reported leaves what is alive
as it is and nothing to report. So reports and replays agree on which mentions count.
-/

namespace ApiProfile

/-- The feature with only those of its mentions that pass a test. -/
def Feature.filter (keep : Mention → Bool) (f : Feature) : Feature :=
  { f with additions := f.additions.filter keep, removals := f.removals.filter keep }

theorem Feature.occurrences_filter (keep : Mention → Bool) (f : Feature) (position : Nat) :
    (f.filter keep).occurrences position = (f.occurrences position).filter fun o => keep o.mention := by
  unfold occurrences filter
  simp only [List.filter_append, List.filter_map]
  rfl

/-- Leaving names out of account changes nothing for the others. -/
theorem Occurrence.foldl_switch_filter {keep : Mention → Bool} (all : List Occurrence) {on on' : Mention → Bool}
    (hon : ∀ m, keep m → on m = on' m) {m : Mention} (hm : keep m) :
    (all.filter fun o => keep o.mention).foldl switch on m = all.foldl switch on' m := by
  induction all generalizing on on' with
  | nil => exact hon m hm
  | cons o all ih =>
    rw [List.filter_cons, List.foldl_cons]
    cases hkeep : keep o.mention with
    | true =>
      rw [if_pos rfl, List.foldl_cons]
      apply ih
      intro n hn
      unfold switch
      by_cases hsame : n = o.mention
      · rw [hsame, Function.update_self, Function.update_self]
      · rw [Function.update_of_ne hsame, Function.update_of_ne hsame, hon n hn]
    | false =>
      rw [if_neg Bool.false_ne_true]
      apply ih
      intro n hn
      have hother : n ≠ o.mention := by
        rintro rfl
        rw [hkeep] at hn
        cases hn
      rw [switch, Function.update_of_ne hother, hon n hn]

namespace Registry

/-! ## Names that are not declared have no effect -/

theorem Live.of_congr {r : Registry} {on on' : Mention → Bool} (h : ∀ m, r.declares m → on m = on' m) :
    Live.of r on = Live.of r on' := by
  unfold Live.of
  congr 1
  · exact Table.filter_congr fun name hname => h ⟨name, .constant⟩ (declares_iff.2 hname)
  · exact Table.filter_congr fun name hname => h ⟨name, .command⟩ (declares_iff.2 hname)

theorem Live.apply_filter_declares (r : Registry) (on : Mention → Bool) (f : Feature) :
    (Live.of r on).apply r (f.filter r.declares) = (Live.of r on).apply r f := by
  rw [Live.of_apply r on _ 0, Live.of_apply r on f 0, Feature.occurrences_filter]
  exact Live.of_congr fun m hm => Occurrence.foldl_switch_filter _ (fun _ _ => rfl) hm

theorem Live.run_filter_declares (r : Registry) (fs : List Feature) (on : Mention → Bool) :
    (fs.map (·.filter r.declares)).foldl (Live.apply r) (Live.of r on) = fs.foldl (Live.apply r) (Live.of r on) := by
  induction fs generalizing on with
  | nil => rfl
  | cons f fs ih =>
    rw [List.map_cons, List.foldl_cons, List.foldl_cons, Live.apply_filter_declares, Live.of_apply r on f 0, ih]

/-! ## What is reported -/

theorem mem_danglingReferences {limit : Option Version} {r : Registry} {f : Feature} {m : Mention} :
    (f, m) ∈ r.danglingReferences limit ↔
      f ∈ r.applicable limit ∧ m ∈ f.additions ++ f.removals ∧ m.name ∉ r.namesOf m.kind := by
  unfold danglingReferences
  simp only [List.mem_flatMap, List.mem_map, List.mem_filter, not_declares_iff]
  constructor
  · rintro ⟨g, hg, n, ⟨hmem, hname⟩, heq⟩
    cases heq
    exact ⟨hg, hmem, hname⟩
  · rintro ⟨hf, hmem, hname⟩
    exact ⟨f, hf, m, ⟨hmem, hname⟩, rfl⟩

/-- In a feature that counts, the mentions that are not reported are those of declared names. -/
theorem not_mem_danglingReferences {limit : Option Version} {r : Registry} {f : Feature}
    (hf : f ∈ r.applicable limit) {m : Mention} (hm : m ∈ f.additions ++ f.removals) :
    (f, m) ∉ r.danglingReferences limit ↔ r.declares m := by
  rw [mem_danglingReferences, declares_iff]
  constructor
  · intro h
    exact not_not.1 fun hname => h ⟨hf, hm, hname⟩
  · rintro hname ⟨-, -, hundeclared⟩
    exact hundeclared hname

/-! ## Erasing what is reported -/

/-- The registry without its dangling references: in the features that count, the mentions are erased that are
reported. -/
def withoutDangling (limit : Option Version) (r : Registry) : Registry :=
  { r with features := r.features.map fun f =>
      if applies limit f then f.filter fun m => (f, m) ∉ r.danglingReferences limit else f }

theorem filter_reported {limit : Option Version} {r : Registry} {f : Feature} (hf : f ∈ r.applicable limit) :
    (f.filter fun m => (f, m) ∉ r.danglingReferences limit) = f.filter r.declares := by
  have hagree : ∀ m ∈ f.additions ++ f.removals,
      decide ((f, m) ∉ r.danglingReferences limit) = r.declares m := by
    intro m hm
    rw [Bool.eq_iff_iff, decide_eq_true_iff, not_mem_danglingReferences hf hm]
  unfold Feature.filter
  congr 1
  · exact List.filter_congr fun m hm => hagree m (List.mem_append_left _ hm)
  · exact List.filter_congr fun m hm => hagree m (List.mem_append_right _ hm)

theorem applicable_withoutDangling (limit : Option Version) (r : Registry) :
    (r.withoutDangling limit).applicable limit = (r.applicable limit).map (·.filter r.declares) := by
  have happlies : ∀ f : Feature, applies limit (if applies limit f then
      f.filter fun m => (f, m) ∉ r.danglingReferences limit else f) = applies limit f := by
    intro f
    split <;> rfl
  unfold applicable withoutDangling
  dsimp only
  rw [List.filter_map]
  simp only [Function.comp_def, happlies]
  apply List.map_congr_left
  intro f hf
  rw [if_pos (List.mem_filter.1 hf).2]
  exact filter_reported hf

theorem replayed_withoutDangling (limit : Option Version) (r : Registry) :
    (r.withoutDangling limit).replayed limit = (r.replayed limit).map (·.filter r.declares) := by
  unfold replayed
  rw [applicable_withoutDangling]
  symm
  exact List.map_mergeSort fun _ _ _ _ => rfl

theorem live_withoutDangling (limit : Option Version) (r : Registry) :
    (r.withoutDangling limit).live limit = r.live limit := by
  unfold live
  rw [replayed_withoutDangling, ← Live.of_false r]
  exact Live.run_filter_declares r _ _

theorem danglingReferences_withoutDangling (limit : Option Version) (r : Registry) :
    (r.withoutDangling limit).danglingReferences limit = [] := by
  rw [List.eq_nil_iff_forall_not_mem]
  rintro ⟨f, m⟩ h
  obtain ⟨hf, hm, hname⟩ := mem_danglingReferences.1 h
  rw [applicable_withoutDangling] at hf
  obtain ⟨g, -, rfl⟩ := List.mem_map.1 hf
  have hdeclared : r.declares m := by
    rcases List.mem_append.1 hm with hm | hm
    · exact (List.mem_filter.1 hm).2
    · exact (List.mem_filter.1 hm).2
  exact hname (declares_iff.1 hdeclared)

/-- What is erased is what is reported, one by one and in order. -/
theorem erased_eq_danglingReferences (limit : Option Version) (r : Registry) :
    ((r.applicable limit).flatMap fun f => ((f.additions ++ f.removals).filter fun m =>
      (f, m) ∈ r.danglingReferences limit).map fun m => (f, m)) = r.danglingReferences limit := by
  conv_rhs => unfold danglingReferences
  apply List.flatMap_congr
  intro f hf
  congr 1
  apply List.filter_congr
  intro m hm
  rw [Bool.eq_iff_iff, decide_eq_true_iff, not_declares_iff, ← declares_iff, ← not_mem_danglingReferences hf hm, not_not]

/-- Erasing the references that are reported, and no others, leaves the same entries alive and no reference to report.
No name that is reported is left, and every other mention in a feature that counts is of a declared name. -/
theorem resolve_withoutDangling (limit : Option Version) (r : Registry) :
    (((r.applicable limit).flatMap fun f => ((f.additions ++ f.removals).filter fun m =>
      (f, m) ∈ r.danglingReferences limit).map fun m => (f, m)) = r.danglingReferences limit) ∧
    ((r.withoutDangling limit).resolve limit).constants = (r.resolve limit).constants ∧
    ((r.withoutDangling limit).resolve limit).commands = (r.resolve limit).commands ∧
    (r.withoutDangling limit).danglingReferences limit = [] ∧
    (∀ f m, (f, m) ∈ r.danglingReferences limit → m.name ∉ (r.resolve limit).namesOf m.kind) ∧
    ∀ f ∈ r.applicable limit, ∀ m ∈ f.additions ++ f.removals,
      (f, m) ∉ r.danglingReferences limit → m.name ∈ r.namesOf m.kind := by
  refine ⟨erased_eq_danglingReferences limit r, ?_, ?_, danglingReferences_withoutDangling limit r, ?_, ?_⟩
  · exact congrArg Live.constants (live_withoutDangling limit r)
  · exact congrArg Live.commands (live_withoutDangling limit r)
  · intro f m hreported hleft
    exact (mem_danglingReferences.1 hreported).2.2 ((mem_namesOf_resolve limit r m.kind m.name).1 hleft).1
  · intro f hf m hm hother
    exact declares_iff.1 ((not_mem_danglingReferences hf hm).1 hother)

/-- A feature that mentions `A` as two kinds of entries, and twice mentions `B`. -/
def looseFeature : Feature :=
  ⟨.one 1, [⟨"A", .constant⟩, ⟨"A", .command⟩, ⟨"B", .constant⟩], [⟨"B", .constant⟩]⟩

/-- `A` is a constant and no command, `B` is nothing, and the second feature counts from version 2. -/
def loose : Registry :=
  .ofEntries [⟨"A", 1⟩] [] [] [looseFeature, ⟨.one 2, [⟨"B", .command⟩], []⟩]

theorem resolve_withoutDangling_loose :
    looseFeature ∈ loose.applicable (some (.one 1)) ∧
    (looseFeature, ⟨"A", .command⟩) ∈ loose.danglingReferences (some (.one 1)) ∧
    "A" ∉ (loose.resolve (some (.one 1))).namesOf .command ∧
    ⟨"A", .constant⟩ ∈ looseFeature.additions ++ looseFeature.removals ∧
    (looseFeature, ⟨"A", .constant⟩) ∉ loose.danglingReferences (some (.one 1)) ∧
    "A" ∈ loose.namesOf .constant ∧
    ((loose.withoutDangling (some (.one 1))).features.map fun f => (f.additions.length, f.removals.length)) =
      [(1, 0), (1, 0)] ∧
    ((loose.withoutDangling (some (.one 1))).resolve (some (.one 1))).constants =
      (loose.resolve (some (.one 1))).constants ∧
    (loose.withoutDangling (some (.one 1))).danglingReferences (some (.one 1)) = [] := by
  have hcounts : looseFeature ∈ loose.applicable (some (.one 1)) := by decide +kernel
  have hreported : (looseFeature, ⟨"A", .command⟩) ∈ loose.danglingReferences (some (.one 1)) := by decide +kernel
  have hmem : ⟨"A", .constant⟩ ∈ looseFeature.additions ++ looseFeature.removals := by decide
  have hother : (looseFeature, ⟨"A", .constant⟩) ∉ loose.danglingReferences (some (.one 1)) := by decide +kernel
  obtain ⟨-, hconstants, -, hnone, hgone, hdeclared⟩ := resolve_withoutDangling (some (.one 1)) loose
  exact ⟨hcounts, hreported, hgone looseFeature _ hreported, hmem, hother, hdeclared looseFeature hcounts _ hmem hother,
    by decide +kernel, hconstants, hnone⟩

end Registry
end ApiProfile
