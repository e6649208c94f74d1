import ApiProfile.Proofs.Table
import ApiProfile.Proofs.Version
import ApiProfile.Registry.Resolution
import Mathlib.Data.List.Induction
import Mathlib.Logic.Function.Basic
/-!
# Replaying features

A replay folds over two tables at once. We show that it does no more than switch names on and off:
at every point the tables hold the declared entries whose names are on (`Live.of`), so what a name
comes to depends on its own mentions alone. `resolve_eq` gives the closed form: an entry is left if
its last mention, among the features that count, adds it.
-/

namespace ApiProfile.Registry

/-! ## The tables of a replay -/

/-- The declared entries whose names are on. -/
def Live.of (r : Registry) (on : Mention → Bool) : Live where
  constants := r.constants.filter fun name _ => on ⟨name, .constant⟩
  commands := r.commands.filter fun name _ => on ⟨name, .command⟩

theorem Live.of_false (r : Registry) : Live.of r (fun _ => false) = Live.none := by
  have hempty : ∀ {α : Type} (t : Table α), (t.filter fun _ _ => false) = Table.empty := fun t =>
    Table.ext_get? fun key => by simp
  simp only [Live.of, Live.none, hempty]

section
variable (on : Mention → Bool) (name : String) (kind : EntryKind) (b : Bool)

theorem update_other_name (k : String) (hk : k ≠ name) :
    Function.update on ⟨name, kind⟩ b ⟨k, kind⟩ = on ⟨k, kind⟩ :=
  Function.update_of_ne (fun h => hk (congrArg Mention.name h)) _ _

theorem update_other_kind (k : String) (other : EntryKind) (h : other ≠ kind) :
    Function.update on ⟨name, kind⟩ b ⟨k, other⟩ = on ⟨k, other⟩ :=
  Function.update_of_ne (fun he => h (congrArg Mention.kind he)) _ _

end

/-- Adding a name switches it on. -/
theorem Live.of_add (r : Registry) (on : Mention → Bool) (m : Mention) :
    (Live.of r on).add r m = Live.of r (Function.update on m true) := by
  obtain ⟨name, kind⟩ := m
  cases kind with
  | constant =>
    have hother := fun k => update_other_kind on name .constant true k .command nofun
    have htable := Table.restore_filter (t := r.constants) (Function.update_self ⟨name, .constant⟩ true on)
      (update_other_name on name .constant true)
    simp only [of, hother, ← htable]
    unfold add
    dsimp only
    cases r.constants.get? name <;> rfl
  | command =>
    have hother := fun k => update_other_kind on name .command true k .constant nofun
    have htable := Table.restore_filter (t := r.commands) (Function.update_self ⟨name, .command⟩ true on)
      (update_other_name on name .command true)
    simp only [of, hother, ← htable]
    unfold add
    dsimp only
    cases r.commands.get? name <;> rfl

/-- Removing a name switches it off. -/
theorem Live.of_remove (r : Registry) (on : Mention → Bool) (m : Mention) :
    (Live.of r on).remove m = Live.of r (Function.update on m false) := by
  obtain ⟨name, kind⟩ := m
  cases kind with
  | constant =>
    have hother := fun k => update_other_kind on name .constant false k .command nofun
    have htable := Table.erase_filter (t := r.constants) (Function.update_self ⟨name, .constant⟩ false on)
      (update_other_name on name .constant false)
    simp only [of, hother, ← htable, remove]
  | command =>
    have hother := fun k => update_other_kind on name .command false k .constant nofun
    have htable := Table.erase_filter (t := r.commands) (Function.update_self ⟨name, .command⟩ false on)
      (update_other_name on name .command false)
    simp only [of, hother, ← htable, remove]

end ApiProfile.Registry

namespace ApiProfile

/-! ## Occurrences -/

/-- A mention with its place: the version and the position of its feature, and whether it stands among
the additions. -/
structure Occurrence where
  mention : Mention
  version : Version
  position : Nat
  adds : Bool
  deriving DecidableEq

namespace Occurrence

/-- By version, then by the position of the feature, then additions before removals. -/
def rank (o p : Occurrence) : Ordering :=
  (o.version.rank p.version).then ((compare o.position p.position).then (compare p.adds o.adds))

instance : Std.OrientedCmp rank where
  eq_swap {o p} := by
    unfold rank
    rw [Ordering.swap_then, Ordering.swap_then, ← Std.OrientedCmp.eq_swap, ← Std.OrientedCmp.eq_swap,
      ← Std.OrientedCmp.eq_swap]

theorem isLE_rank_iff {o p : Occurrence} :
    (o.rank p).isLE ↔ o.version.rank p.version = .lt ∨ o.version.rank p.version = .eq ∧
      (o.position < p.position ∨ o.position = p.position ∧ (p.adds = true → o.adds = true)) := by
  unfold rank
  rw [Ordering.isLE_then_iff_or, Ordering.isLE_then_iff_or, Nat.compare_eq_lt, Nat.compare_eq_eq]
  have hadds : (compare p.adds o.adds).isLE ↔ (p.adds = true → o.adds = true) := by
    cases p.adds <;> cases o.adds <;> decide
  rw [hadds]

theorem adds_eq_of_rank_eq {o p : Occurrence} (h : o.rank p = .eq) : o.adds = p.adds := by
  unfold rank at h
  rw [Ordering.then_eq_eq, Ordering.then_eq_eq] at h
  exact (Std.LawfulEqCmp.eq_of_compare h.2.2).symm

/-- An occurrence of a mention that no other one of it comes after. -/
structure IsLast (all : List Occurrence) (m : Mention) (o : Occurrence) : Prop where
  mem : o ∈ all
  mention : o.mention = m
  last : ∀ p ∈ all, p.mention = m → (p.rank o).isLE

theorem IsLast.adds_eq {all : List Occurrence} {m : Mention} {o p : Occurrence} (ho : IsLast all m o)
    (hp : IsLast all m p) : o.adds = p.adds :=
  adds_eq_of_rank_eq (Std.OrientedCmp.isLE_antisymm (hp.last o ho.mem ho.mention) (ho.last p hp.mem hp.mention))

theorem isLast_congr {all all' : List Occurrence} (h : ∀ o, o ∈ all ↔ o ∈ all') {m : Mention} {o : Occurrence} :
    IsLast all m o ↔ IsLast all' m o :=
  ⟨fun ho => ⟨(h o).1 ho.mem, ho.mention, fun p hp => ho.last p ((h p).2 hp)⟩,
    fun ho => ⟨(h o).2 ho.mem, ho.mention, fun p hp => ho.last p ((h p).1 hp)⟩⟩

instance (all : List Occurrence) (m : Mention) (o : Occurrence) : Decidable (IsLast all m o) :=
  decidable_of_iff (o ∈ all ∧ o.mention = m ∧ ∀ p ∈ all, p.mention = m → (p.rank o).isLE)
    ⟨fun ⟨h1, h2, h3⟩ => ⟨h1, h2, h3⟩, fun h => ⟨h.mem, h.mention, h.last⟩⟩

/-- Takes in an occurrence: its name is on from then, or off. -/
def switch (on : Mention → Bool) (o : Occurrence) : Mention → Bool :=
  Function.update on o.mention o.adds

/-- Of a name that occurs, the last occurrence decides. -/
theorem foldl_switch {all : List Occurrence} (hall : all.Pairwise fun o p => (o.rank p).isLE) (m : Mention)
    (on : Mention → Bool) :
    (∀ o ∈ all, o.mention ≠ m) ∧ all.foldl switch on m = on m ∨
      ∃ o, IsLast all m o ∧ all.foldl switch on m = o.adds := by
  -- from the end: of a longer list, what is taken in last is the last occurrence of its own name
  induction all using List.reverseRecOn with
  | nil => exact .inl ⟨by simp, rfl⟩
  | append_singleton all o ih =>
    obtain ⟨hinit, -, hlast⟩ := List.pairwise_append.1 hall
    have hle : ∀ p ∈ all, (p.rank o).isLE := fun p hp => hlast p hp o (List.mem_singleton_self o)
    rw [List.foldl_append, List.foldl_cons, List.foldl_nil, switch]
    by_cases hm : o.mention = m
    · refine .inr ⟨o, ⟨by simp, hm, fun p hp _ => ?_⟩, by rw [← hm, Function.update_self]⟩
      rcases List.mem_append.1 hp with hp | hp
      · exact hle p hp
      · have hself : o.rank o = .eq := Std.ReflCmp.compare_self
        rw [List.mem_singleton.1 hp, hself]
        rfl
    · rw [Function.update_of_ne (Ne.symm hm)]
      rcases ih hinit with ⟨hnone, hfold⟩ | ⟨p, hp, hfold⟩
      · refine .inl ⟨fun q hq => ?_, hfold⟩
        rcases List.mem_append.1 hq with hq | hq
        · exact hnone q hq
        · rwa [List.mem_singleton.1 hq]
      · refine .inr ⟨p, ⟨List.mem_append_left _ hp.mem, hp.mention, fun q hq hqm => ?_⟩, hfold⟩
        rcases List.mem_append.1 hq with hq | hq
        · exact hp.last q hq hqm
        · rw [List.mem_singleton.1 hq] at hqm
          exact absurd hqm hm

end Occurrence

/-- What the feature at a position mentions: additions before removals. -/
def Feature.occurrences (f : Feature) (position : Nat) : List Occurrence :=
  f.additions.map (fun m => ⟨m, f.version, position, true⟩)
    ++ f.removals.map (fun m => ⟨m, f.version, position, false⟩)

theorem Feature.mem_occurrences {f : Feature} {position : Nat} {o : Occurrence} :
    o ∈ f.occurrences position ↔ o.version = f.version ∧ o.position = position ∧
      o.mention ∈ (if o.adds then f.additions else f.removals) := by
  unfold occurrences
  rw [List.mem_append, List.mem_map, List.mem_map]
  constructor
  · rintro (⟨m, hm, rfl⟩ | ⟨m, hm, rfl⟩) <;> exact ⟨rfl, rfl, hm⟩
  · obtain ⟨m, v, i, adds⟩ := o
    rintro ⟨rfl, rfl, hm⟩
    cases adds with
    | true => exact .inl ⟨m, hm, rfl⟩
    | false => exact .inr ⟨m, hm, rfl⟩

theorem Feature.pairwise_occurrences (f : Feature) (position : Nat) :
    (f.occurrences position).Pairwise fun o p => (o.rank p).isLE := by
  have hself : f.version.rank f.version = .eq := Std.ReflCmp.compare_self
  unfold occurrences
  simp only [Occurrence.isLE_rank_iff]
  rw [List.pairwise_append, List.pairwise_map, List.pairwise_map]
  refine ⟨List.pairwise_of_forall fun _ _ => ?_, List.pairwise_of_forall fun _ _ => ?_, ?_⟩
  · exact .inr ⟨hself, .inr ⟨rfl, id⟩⟩
  · exact .inr ⟨hself, .inr ⟨rfl, id⟩⟩
  · intro o ho p hp
    obtain ⟨_, _, rfl⟩ := List.mem_map.1 ho
    obtain ⟨_, _, rfl⟩ := List.mem_map.1 hp
    exact .inr ⟨hself, .inr ⟨rfl, fun _ => rfl⟩⟩

namespace Registry

/-- The features up to a maximum version (all, without one) with their positions in the document. -/
def numbered (limit : Option Version) (r : Registry) : List (Feature × Nat) :=
  r.features.zipIdx.filter fun (f, _) => limit.all fun m => f.version.rank m ≠ .gt

/-- What the features up to a maximum version mention, in document order. -/
def occurrences (limit : Option Version) (r : Registry) : List Occurrence :=
  (numbered limit r).flatMap fun (f, i) => f.occurrences i

/-- The last occurrence of a mention is an addition. -/
def LastAdded (limit : Option Version) (r : Registry) (m : Mention) : Prop :=
  ∃ o, Occurrence.IsLast (r.occurrences limit) m o ∧ o.adds = true

instance (limit : Option Version) (r : Registry) (m : Mention) : Decidable (r.LastAdded limit m) :=
  decidable_of_iff (∃ o ∈ r.occurrences limit, Occurrence.IsLast (r.occurrences limit) m o ∧ o.adds = true)
    ⟨fun ⟨o, _, ho⟩ => ⟨o, ho⟩, fun ⟨o, ho⟩ => ⟨o, ho.1.mem, ho⟩⟩

/-! ## A replay switches names -/

theorem Live.of_apply (r : Registry) (on : Mention → Bool) (f : Feature) (position : Nat) :
    (Live.of r on).apply r f = Live.of r ((f.occurrences position).foldl Occurrence.switch on) := by
  have hadd : ∀ (ms : List Mention) (on : Mention → Bool), ms.foldl (Live.add r) (Live.of r on) =
      Live.of r (ms.foldl (fun on m => Function.update on m true) on) := by
    intro ms
    induction ms with
    | nil => exact fun _ => rfl
    | cons m ms ih => exact fun on => by rw [List.foldl_cons, Live.of_add, ih, List.foldl_cons]
  have hremove : ∀ (ms : List Mention) (on : Mention → Bool), ms.foldl Live.remove (Live.of r on) =
      Live.of r (ms.foldl (fun on m => Function.update on m false) on) := by
    intro ms
    induction ms with
    | nil => exact fun _ => rfl
    | cons m ms ih => exact fun on => by rw [List.foldl_cons, Live.of_remove, ih, List.foldl_cons]
  -- the position is carried for the order only: what is switched does not depend on it
  unfold Live.apply Feature.occurrences
  rw [hadd, hremove, List.foldl_append, List.foldl_map, List.foldl_map]
  rfl

theorem Live.of_run (r : Registry) (fs : List (Feature × Nat)) (on : Mention → Bool) :
    (fs.map (·.1)).foldl (Live.apply r) (Live.of r on) =
      Live.of r ((fs.flatMap fun (f, i) => f.occurrences i).foldl Occurrence.switch on) := by
  induction fs generalizing on with
  | nil => rfl
  | cons x fs ih =>
    rw [List.map_cons, List.foldl_cons, Live.of_apply r on x.1 x.2, ih, List.flatMap_cons, List.foldl_append]

/-! ## The order of a replay -/

/-- A stable sort keeps what holds of entries in their old order between those that rank alike. -/
theorem pairwise_mergeSort_of_pairwise {α : Type} {le : α → α → Bool} {S : α → α → Prop}
    (trans : ∀ a b c, le a b → le b c → le a c) (total : ∀ a b, le a b || le b a) {l : List α}
    (hl : l.Pairwise S) : (l.mergeSort le).Pairwise fun a b => le a b ∧ (le b a → S a b) := by
  induction l with
  | nil => simp
  | cons a l ih =>
    obtain ⟨ha, hl⟩ := List.pairwise_cons.1 hl
    obtain ⟨before, after, hsort, htail, hbefore⟩ := List.mergeSort_cons trans total a l
    have hsorted := List.pairwise_mergeSort trans total (a :: l)
    have ih := ih hl
    rw [hsort] at hsorted ⊢
    rw [htail] at ih
    obtain ⟨h1, h2, h12⟩ := List.pairwise_append.1 ih
    obtain ⟨-, h3, h4⟩ := List.pairwise_append.1 hsorted
    refine List.pairwise_append.2 ⟨h1, List.pairwise_cons.2 ⟨fun b hb => ?_, h2⟩, fun b hb c hc => ?_⟩
    · -- what goes after `a` stood after it before, so `S` holds of the two whatever their ranks
      refine ⟨List.rel_of_pairwise_cons h3 hb, fun _ => ha b ?_⟩
      have hmem : b ∈ l.mergeSort le := htail ▸ List.mem_append_right _ hb
      exact List.mem_mergeSort.1 hmem
    · rcases List.mem_cons.1 hc with rfl | hc
      · -- only what ranks strictly below `a` goes before it
        refine ⟨h4 b hb c List.mem_cons_self, fun h => ?_⟩
        have hlower := hbefore b hb
        rw [h] at hlower
        cases hlower
      · exact h12 b hb c hc

/-- The features that count, with their positions, in the order in which they are replayed. -/
def numberedReplay (limit : Option Version) (r : Registry) : List (Feature × Nat) :=
  (numbered limit r).mergeSort fun x y => x.1.version.atMost y.1.version

theorem applies_eq (limit : Option Version) :
    applies limit = fun f => limit.all fun m => f.version.rank m ≠ .gt := by
  funext f
  unfold applies
  congr 1
  funext m
  unfold Version.atMost
  cases f.version.rank m <;> rfl

theorem map_numberedReplay (limit : Option Version) (r : Registry) :
    (numberedReplay limit r).map (·.1) = replayed limit r := by
  -- neither the test nor the order looks at positions, so they may be dropped before or after
  have happlicable : (numbered limit r).map (·.1) = applicable limit r := by
    unfold numbered applicable
    rw [applies_eq]
    conv_rhs => rw [← List.zipIdx_map_fst 0 r.features, List.filter_map]
    rfl
  unfold numberedReplay replayed
  rw [← happlicable]
  exact List.map_mergeSort fun _ _ _ _ => rfl

/-- Features are replayed by version, and in document order where versions rank alike. -/
def ReplayedBefore (x y : Feature × Nat) : Prop :=
  x.1.version.rank y.1.version = .lt ∨ x.1.version.rank y.1.version = .eq ∧ x.2 < y.2

instance (x y : Feature × Nat) : Decidable (ReplayedBefore x y) :=
  inferInstanceAs (Decidable (_ ∨ _))

/-- Sorting numbered features by version puts them into the order of a replay. -/
theorem pairwise_mergeSort_numbered {fs : List (Feature × Nat)} (hfs : fs.Pairwise fun x y => x.2 < y.2) :
    (fs.mergeSort fun x y => x.1.version.atMost y.1.version).Pairwise ReplayedBefore := by
  have hsorted := pairwise_mergeSort_of_pairwise
    (fun x y z : Feature × Nat => Version.atMost_trans x.1.version y.1.version z.1.version)
    (fun x y => Version.atMost_total x.1.version y.1.version) hfs
  refine hsorted.imp ?_
  rintro x y ⟨hle, hback⟩
  rcases Ordering.isLE_iff_eq_lt_or_eq_eq.1 hle with h | h
  · exact .inl h
  · refine .inr ⟨h, hback ?_⟩
    unfold Version.atMost
    rw [Std.OrientedCmp.eq_symm h]
    rfl

theorem pairwise_numbered (limit : Option Version) (r : Registry) :
    (numbered limit r).Pairwise fun x y => x.2 < y.2 := by
  refine List.Pairwise.filter _ ?_
  rw [← List.pairwise_map, List.zipIdx_map_snd]
  exact List.pairwise_lt_range'

theorem pairwise_numberedReplay (limit : Option Version) (r : Registry) :
    (numberedReplay limit r).Pairwise ReplayedBefore :=
  pairwise_mergeSort_numbered (pairwise_numbered limit r)

theorem pairwise_replayedOccurrences (limit : Option Version) (r : Registry) :
    ((numberedReplay limit r).flatMap fun (f, i) => f.occurrences i).Pairwise fun o p => (o.rank p).isLE := by
  refine List.pairwise_flatMap.2 ⟨fun x _ => Feature.pairwise_occurrences x.1 x.2, ?_⟩
  refine (pairwise_numberedReplay limit r).imp fun {x y} hxy o ho p hp => ?_
  obtain ⟨hov, hoi, -⟩ := Feature.mem_occurrences.1 ho
  obtain ⟨hpv, hpi, -⟩ := Feature.mem_occurrences.1 hp
  rw [Occurrence.isLE_rank_iff, hov, hpv, hoi, hpi]
  exact hxy.imp_right fun ⟨heq, hlt⟩ => ⟨heq, .inl hlt⟩

/-! ## Closed form -/

theorem mem_replayedOccurrences (limit : Option Version) (r : Registry) (o : Occurrence) :
    o ∈ ((numberedReplay limit r).flatMap fun (f, i) => f.occurrences i) ↔ o ∈ r.occurrences limit := by
  unfold occurrences numberedReplay
  simp only [List.mem_flatMap, List.mem_mergeSort]

/-- After a replay, the declared entries are left whose last occurrence is an addition. -/
theorem live_eq (limit : Option Version) (r : Registry) :
    live limit r = Live.of r fun m => decide (r.LastAdded limit m) := by
  unfold live
  rw [← map_numberedReplay, ← Live.of_false r, Live.of_run]
  congr 1
  funext m
  have hlast : ∀ o, Occurrence.IsLast _ m o ↔ Occurrence.IsLast (r.occurrences limit) m o := fun o =>
    Occurrence.isLast_congr (mem_replayedOccurrences limit r)
  rcases Occurrence.foldl_switch (pairwise_replayedOccurrences limit r) m fun _ => false with
    ⟨hnone, hfold⟩ | ⟨o, ho, hfold⟩
  · -- a name that never occurs is off, as at the start
    rw [hfold, eq_comm, decide_eq_false_iff_not]
    rintro ⟨o, ho, -⟩
    exact hnone o ((mem_replayedOccurrences limit r o).2 ho.mem) ho.mention
  · rw [hfold, Bool.eq_iff_iff, decide_eq_true_iff]
    refine ⟨fun hadds => ⟨o, (hlast o).1 ho, hadds⟩, ?_⟩
    rintro ⟨p, hp, hadds⟩
    rw [ho.adds_eq ((hlast p).2 hp), hadds]

/-- What occurs has a last occurrence. -/
theorem exists_isLast {limit : Option Version} {r : Registry} {o : Occurrence} (ho : o ∈ r.occurrences limit) :
    ∃ p, Occurrence.IsLast (r.occurrences limit) o.mention p := by
  rcases Occurrence.foldl_switch (pairwise_replayedOccurrences limit r) o.mention fun _ => false with
    ⟨hnone, -⟩ | ⟨p, hp, -⟩
  · exact absurd rfl (hnone o ((mem_replayedOccurrences limit r o).2 ho))
  · exact ⟨p, (Occurrence.isLast_congr (mem_replayedOccurrences limit r)).1 hp⟩

theorem resolve_eq (limit : Option Version) (r : Registry) :
    r.resolve limit = { r with
      constants := r.constants.filter fun name _ => decide (r.LastAdded limit ⟨name, .constant⟩)
      commands := r.commands.filter fun name _ => decide (r.LastAdded limit ⟨name, .command⟩) } := by
  unfold resolve
  rw [live_eq]
  rfl

end Registry
end ApiProfile
