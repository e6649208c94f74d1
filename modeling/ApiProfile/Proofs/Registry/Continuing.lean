import ApiProfile.Proofs.Registry.Replay
import Mathlib.Logic.Relation
/-!
# Continuing a replay

What is alive at a version is brought up to a later one by replaying the features in between, and no others. So the
features newer than a version have no say in what is left at it.
-/

namespace ApiProfile

/-- One change to a list of features that touches none but features newer than a version: of two features that change
places, one is newer. -/
inductive Feature.EditedAfter (v : Version) : List Feature → List Feature → Prop
  | add (before after : List Feature) {f : Feature} (hf : f.version.rank v = .gt) :
    EditedAfter v (before ++ after) (before ++ f :: after)
  | delete (before after : List Feature) {f : Feature} (hf : f.version.rank v = .gt) :
    EditedAfter v (before ++ f :: after) (before ++ after)
  | edit (before after : List Feature) {f g : Feature} (hf : f.version.rank v = .gt) (hg : g.version.rank v = .gt) :
    EditedAfter v (before ++ f :: after) (before ++ g :: after)
  | exchange (before after : List Feature) {f g : Feature} (h : f.version.rank v = .gt ∨ g.version.rank v = .gt) :
    EditedAfter v (before ++ f :: g :: after) (before ++ g :: f :: after)

namespace Registry

/-- The constants and commands of a registry, which are what a replay works on. -/
def entries (r : Registry) : Live :=
  ⟨r.constants, r.commands⟩

theorem entries_resolve (limit : Option Version) (r : Registry) : (r.resolve limit).entries = live limit r :=
  rfl

/-! ## The features in between -/

/-- The features that count and are newer than a version, with their positions, in the order of a replay: ascending by
version, and in document order where versions rank alike. -/
structure Continues (v : Version) (limit : Option Version) (r : Registry) (later : List (Feature × Nat)) : Prop where
  perm : later.Perm ((numbered limit r).filter fun (f, _) => f.version.rank v = .gt)
  ordered : later.Pairwise ReplayedBefore

theorem exists_continues (v : Version) (limit : Option Version) (r : Registry) : ∃ later, r.Continues v limit later :=
  ⟨_, List.mergeSort_perm _ _, pairwise_mergeSort_numbered ((pairwise_numbered limit r).filter _)⟩

theorem ReplayedBefore.asymm {x y : Feature × Nat} (hxy : ReplayedBefore x y) : ¬ReplayedBefore y x := by
  intro hyx
  rcases hxy with hlt | ⟨heq, hbefore⟩
  · have hgt := Std.OrientedCmp.gt_of_lt hlt
    rcases hyx with h | ⟨h, -⟩ <;> rw [hgt] at h <;> cases h
  · rcases hyx with h | ⟨-, hafter⟩
    · rw [Std.OrientedCmp.eq_symm heq] at h
      cases h
    · exact Nat.lt_asymm hbefore hafter

/-- What counts up to a version counts up to every later one. -/
theorem filter_numbered {v : Version} {limit : Option Version} (hlimit : ∀ w ∈ limit, v.atMost w) (r : Registry) :
    (numbered limit r).filter (fun (f, _) => f.version.rank v ≠ .gt) = numbered (some v) r := by
  unfold numbered
  rw [List.filter_filter]
  refine List.filter_congr fun (f, i) _ => ?_
  dsimp only
  rw [Option.all_some, Bool.and_eq_left_iff_imp, decide_eq_true_iff, Option.all_eq_true]
  intro hv w hw
  have hle : f.version.atMost w := Version.atMost_trans _ v _ (Ordering.ne_gt_iff_isLE.1 hv) (hlimit w hw)
  rw [decide_eq_true_iff]
  exact Ordering.ne_gt_iff_isLE.2 hle

/-- A replay is one up to an earlier version, with the features in between behind it. -/
theorem Continues.numberedReplay_eq {v : Version} {limit : Option Version} {r : Registry}
    {later : List (Feature × Nat)} (h : r.Continues v limit later) (hlimit : ∀ w ∈ limit, v.atMost w) :
    numberedReplay limit r = numberedReplay (some v) r ++ later := by
  have hordered : (numberedReplay (some v) r ++ later).Pairwise ReplayedBefore := by
    refine List.pairwise_append.2 ⟨pairwise_numberedReplay (some v) r, h.ordered, fun x hx y hy => .inl ?_⟩
    have hxv : (x.1.version.rank v).isLE := by
      have hcounts := (List.mem_filter.1 (List.mem_mergeSort.1 hx)).2
      exact Ordering.ne_gt_iff_isLE.1 (by simpa using hcounts)
    have hyv : v.rank y.1.version = .lt := by
      have hnewer := (List.mem_filter.1 (h.perm.mem_iff.1 hy)).2
      exact Std.OrientedCmp.lt_of_gt (by simpa using hnewer)
    exact Std.TransCmp.lt_of_isLE_of_lt hxv hyv
  have hperm : (numberedReplay limit r).Perm (numberedReplay (some v) r ++ later) := by
    have hsplit := List.filter_append_perm (fun x : Feature × Nat => x.1.version.rank v ≠ .gt) (numbered limit r)
    have hnewer : (fun x : Feature × Nat => !decide (x.1.version.rank v ≠ .gt)) =
        fun x => decide (x.1.version.rank v = .gt) := by
      simp
    rw [filter_numbered hlimit, hnewer] at hsplit
    have hearlier : (numbered (some v) r).Perm (numberedReplay (some v) r) := (List.mergeSort_perm _ _).symm
    exact (List.mergeSort_perm _ _).trans (hsplit.symm.trans (hearlier.append h.perm.symm))
  -- a strict order leaves one way only to arrange the same features
  exact hperm.eq_of_pairwise (fun _ _ _ _ hxy hyx => absurd hyx hxy.asymm) (pairwise_numberedReplay limit r) hordered

theorem Continues.entries_eq {v : Version} {limit : Option Version} {r : Registry}
    {later : List (Feature × Nat)} (h : r.Continues v limit later) (hlimit : ∀ w ∈ limit, v.atMost w) :
    (r.resolve limit).entries = (later.map (·.1)).foldl (Live.apply r) (r.resolve (some v)).entries := by
  rw [entries_resolve, entries_resolve]
  unfold live
  rw [← map_numberedReplay, ← map_numberedReplay, h.numberedReplay_eq hlimit, List.map_append, List.foldl_append]

/-! ## Newer features -/

theorem applies_eq_false {v : Version} {f : Feature} (h : f.version.rank v = .gt) : applies (some v) f = false := by
  unfold applies Version.atMost
  rw [Option.all_some, h]
  rfl

theorem filter_of_editedAfter {v : Version} {fs gs : List Feature} (h : Feature.EditedAfter v fs gs) :
    fs.filter (applies (some v)) = gs.filter (applies (some v)) := by
  cases h with
  | add before after hf => simp [applies_eq_false hf]
  | delete before after hf => simp [applies_eq_false hf]
  | edit before after hf hg => simp [applies_eq_false hf, applies_eq_false hg]
  | exchange before after h =>
    rcases h with hf | hg
    · simp [List.filter_cons, applies_eq_false hf]
    · simp [List.filter_cons, applies_eq_false hg]

/-- Features newer than a version may be changed at will. -/
theorem applicable_of_edits {v : Version} {r : Registry} {fs : List Feature}
    (h : Relation.ReflTransGen (Feature.EditedAfter v) r.features fs) :
    applicable (some v) { r with features := fs } = applicable (some v) r := by
  unfold applicable
  dsimp only
  induction h with
  | refl => rfl
  | tail _ hedit ih => rw [← filter_of_editedAfter hedit, ih]

/-- The entries left at a later version, or without a maximum, are those left at an earlier one once the features in
between are replayed on them. Whatever is done to features newer than a version, at that version the same entries are
left and the same references dangle. -/
theorem resolve_continues (v : Version) (limit : Option Version) (hlimit : ∀ w ∈ limit, v.atMost w) (r : Registry) :
    (∃ later, r.Continues v limit later) ∧
    (∀ later, r.Continues v limit later →
      (r.resolve limit).entries = (later.map (·.1)).foldl (Live.apply r) (r.resolve (some v)).entries) ∧
    ∀ fs, Relation.ReflTransGen (Feature.EditedAfter v) r.features fs →
      ({ r with features := fs }.resolve (some v)).entries = (r.resolve (some v)).entries ∧
      { r with features := fs }.danglingReferences (some v) = r.danglingReferences (some v) := by
  refine ⟨exists_continues v limit r, fun later h => h.entries_eq hlimit, fun fs hfs => ?_⟩
  have happlicable := applicable_of_edits hfs
  constructor
  · rw [entries_resolve, entries_resolve]
    unfold live replayed
    rw [happlicable]
    rfl
  · unfold danglingReferences
    rw [happlicable]
    rfl

/-- Features in no order of their versions, of which two each rank alike. -/
def growing : Registry :=
  .ofEntries [⟨"A", 1⟩, ⟨"B", 2⟩, ⟨"C", 3⟩] [] []
    [⟨.two 2 0, [⟨"C", .constant⟩], [⟨"A", .constant⟩]⟩, ⟨.one 1, [⟨"A", .constant⟩], [⟨"B", .constant⟩]⟩,
      ⟨.one 2, [⟨"A", .constant⟩], [⟨"D", .constant⟩]⟩, ⟨.two 1 0, [⟨"B", .constant⟩, ⟨"E", .constant⟩], []⟩,
      ⟨.one 3, [], [⟨"B", .constant⟩]⟩]

/-- Both features of version 2 are replayed in document order. Instead of them and of version 3, one feature may stand
between those of version 1. -/
theorem resolve_continues_growing :
    (∀ w ∈ some (Version.one 2), (Version.three 1 0 0).atMost w) ∧
    ∃ later fs, growing.Continues (.three 1 0 0) (some (.one 2)) later ∧ later.map (·.2) = [0, 2] ∧
      (growing.resolve (some (.one 2))).entries =
        (later.map (·.1)).foldl (Live.apply growing) (growing.resolve (some (.three 1 0 0))).entries ∧
      Relation.ReflTransGen (Feature.EditedAfter (.three 1 0 0)) growing.features fs ∧
      fs.map (·.version) = [.one 1, .one 2, .two 1 0] ∧
      ({ growing with features := fs }.resolve (some (.three 1 0 0))).entries =
        (growing.resolve (some (.three 1 0 0))).entries ∧
      { growing with features := fs }.danglingReferences (some (.three 1 0 0)) =
        growing.danglingReferences (some (.three 1 0 0)) := by
  have hlimit : ∀ w ∈ some (Version.one 2), (Version.three 1 0 0).atMost w := by decide +kernel
  have hlater : growing.Continues (.three 1 0 0) (some (.one 2))
      [(⟨.two 2 0, [⟨"C", .constant⟩], [⟨"A", .constant⟩]⟩, 0), (⟨.one 2, [⟨"A", .constant⟩], [⟨"D", .constant⟩]⟩, 2)] :=
    ⟨by decide +kernel, by decide +kernel⟩
  have hfs : Relation.ReflTransGen (Feature.EditedAfter (.three 1 0 0)) growing.features
      [⟨.one 1, [⟨"A", .constant⟩], [⟨"B", .constant⟩]⟩, ⟨.one 2, [⟨"E", .constant⟩], []⟩,
        ⟨.two 1 0, [⟨"B", .constant⟩, ⟨"E", .constant⟩], []⟩] :=
    .head (.delete [] [⟨.one 1, _, _⟩, ⟨.one 2, _, _⟩, ⟨.two 1 0, _, _⟩, ⟨.one 3, _, _⟩] (by decide +kernel))
      (.head (.delete [⟨.one 1, _, _⟩, ⟨.one 2, _, _⟩, ⟨.two 1 0, _, _⟩] [] (by decide +kernel))
        (.single (.edit [⟨.one 1, _, _⟩] [⟨.two 1 0, _, _⟩] (by decide +kernel) (by decide +kernel))))
  obtain ⟨-, hentries, hedits⟩ := resolve_continues (.three 1 0 0) (some (.one 2)) hlimit growing
  exact ⟨hlimit, _, _, hlater, rfl, hentries _ hlater, hfs, rfl, hedits _ hfs⟩

end Registry
end ApiProfile
