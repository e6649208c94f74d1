import ApiProfile.Proofs.Profile.Cache
import ApiProfile.Proofs.Profile.Interleaving
/-!
# Own shelves and shared ones

What a run alone would keep on a shelf of its own is `CoveredBy` a shelf that it shares: the shared one has
all keys of the own one, and what else it has comes from others. We show what a step of a look-up on the
shared shelf means for the look-up on the own one, and what it leaves on the shared one.
-/

namespace ApiProfile

/-! ## Shelves -/

namespace Shelf

variable {κ α : Type}

def keys (shelf : Shelf κ α) : List κ :=
  shelf.entries.map (·.1)

/-- Every kept value is one that its key may have. -/
def From (source : κ → α → Prop) (shelf : Shelf κ α) : Prop :=
  ∀ entry ∈ shelf.entries, source entry.1 entry.2.value

section Steps

variable [BEq κ]

/-- Only the last step of a look-up has a part in the shelf. -/
theorem advance_snd (shelf : Shelf κ α) (key : κ) (load : Except Failure α) (fetching : Fetching α) :
    (shelf.advance key load fetching).2 =
      match fetching with
      | .keep value => (shelf.keep key value).2
      | _ => shelf := by
  unfold advance
  cases fetching with
  | look => dsimp only; split <;> rfl
  | load => cases load <;> rfl
  | keep value => rfl

end Steps

variable [BEq κ] [LawfulBEq κ] {shelf : Shelf κ α} {key : κ}

theorem kept?_eq_none : shelf.kept? key = none ↔ key ∉ shelf.keys := by
  unfold kept? keys
  rw [List.lookup_eq_none_iff]
  simp only [List.mem_map, not_exists, not_and, bne_iff_ne]
  exact ⟨fun h entry hentry heq => h entry hentry heq.symm, fun h entry hentry heq => h entry hentry heq.symm⟩

theorem entries_keep (shelf : Shelf κ α) (key : κ) (value : α) :
    (shelf.keep key value).2.entries = shelf.entries ∧ key ∈ shelf.keys ∨
      ∃ kept, (shelf.keep key value).2.entries = shelf.entries ++ [(key, kept)] ∧ kept.value = value := by
  unfold keep
  split
  · rename_i kept hkept
    exact .inl ⟨rfl, List.mem_map_of_mem (mem_of_kept? hkept)⟩
  · exact .inr ⟨_, rfl, rfl⟩

theorem mem_keys_keep {value : α} {k : κ} : k ∈ (shelf.keep key value).2.keys ↔ k ∈ shelf.keys ∨ k = key := by
  unfold keys
  rcases shelf.entries_keep key value with ⟨heq, hkey⟩ | ⟨kept, heq, -⟩
  · rw [heq]
    exact ⟨.inl, fun h => h.elim id fun h => h ▸ hkey⟩
  · rw [heq]
    simp

theorem mem_keep {value : α} {entry : κ × Kept α} (h : entry ∈ (shelf.keep key value).2.entries) :
    entry ∈ shelf.entries ∨ entry.1 = key ∧ entry.2.value = value := by
  rcases shelf.entries_keep key value with ⟨heq, -⟩ | ⟨kept, heq, hvalue⟩
  · exact .inl (heq ▸ h)
  · rw [heq] at h
    rcases List.mem_append.1 h with h | h
    · exact .inl h
    · rw [List.mem_singleton.1 h]
      exact .inr ⟨rfl, hvalue⟩

end Shelf

/-- What a look-up is about to keep has been read. -/
def Fetching.Backed {α : Type} (load : Except Failure α) : Fetching α → Prop
  | .keep value => load = .ok value
  | _ => True

theorem Shelf.backed_of_advance {κ α : Type} [BEq κ] {shelf : Shelf κ α} {key : κ} {load : Except Failure α}
    {fetching next : Fetching α} (h : (shelf.advance key load fetching).1 = .pending next) :
    next.Backed load := by
  unfold advance at h
  split at h
  · split at h <;> cases h
    trivial
  · split at h <;> cases h
    exact rfl
  · cases h

/-- A look-up that has passed the shelf by found nothing there. -/
def Fetching.Fresh {κ α : Type} (key : κ) (shelf : Shelf κ α) : Fetching α → Prop
  | .look => True
  | _ => key ∉ shelf.keys

/-- A shared shelf has all keys of a run's own one, and what else it has comes from others. -/
structure Shelf.CoveredBy {κ α : Type} (others : κ → α → Prop) (own shared : Shelf κ α) : Prop where
  keys : own.keys ⊆ shared.keys
  source : ∀ entry ∈ shared.entries, entry.1 ∈ own.keys ∨ others entry.1 entry.2.value

namespace Shelf

variable {κ α : Type} [BEq κ] [LawfulBEq κ] {shelf own shared : Shelf κ α} {key : κ} {load : Except Failure α}
  {fetching : Fetching α} {source others : κ → α → Prop}

theorem From.advance (h : shelf.From source) (hback : fetching.Backed load)
    (hload : ∀ value, load = .ok value → source key value) :
    (shelf.advance key load fetching).2.From source := by
  rw [advance_snd]
  cases fetching with
  | look => exact h
  | load => exact h
  | keep value =>
    intro entry hentry
    rcases mem_keep hentry with hentry | ⟨hkey, hvalue⟩
    · exact h entry hentry
    · rw [hkey, hvalue]
      exact hload value hback

theorem CoveredBy.keep_other (h : own.CoveredBy others shared) {value : α} (hvalue : others key value) :
    own.CoveredBy others (shared.keep key value).2 := by
  refine ⟨fun k hk => mem_keys_keep.2 (.inl (h.keys hk)), fun entry hentry => ?_⟩
  rcases mem_keep hentry with hentry | ⟨hkey, heq⟩
  · exact h.source entry hentry
  · rw [hkey, heq]
    exact .inr hvalue

theorem CoveredBy.keep_both (h : own.CoveredBy others shared) (key : κ) (value : α) :
    (own.keep key value).2.CoveredBy others (shared.keep key value).2 := by
  refine ⟨fun k hk => mem_keys_keep.2 ((mem_keys_keep.1 hk).imp_left fun hk => h.keys hk), fun entry hentry => ?_⟩
  rw [mem_keys_keep]
  rcases mem_keep hentry with hentry | ⟨hkey, -⟩
  · exact (h.source entry hentry).imp_left .inl
  · exact .inl (.inr hkey)

theorem CoveredBy.keep_own (h : own.CoveredBy others shared) (hkey : key ∈ shared.keys) (value : α) :
    (own.keep key value).2.CoveredBy others shared := by
  refine ⟨fun k hk => ?_, fun entry hentry => (h.source entry hentry).imp_left fun hk => mem_keys_keep.2 (.inl hk)⟩
  rcases mem_keys_keep.1 hk with hk | rfl
  · exact h.keys hk
  · exact hkey

/-- A step of another run's look-up leaves a shelf covered. -/
theorem CoveredBy.advance_other (h : own.CoveredBy others shared) (hback : fetching.Backed load)
    (hload : ∀ value, load = .ok value → others key value) :
    own.CoveredBy others (shared.advance key load fetching).2 := by
  rw [advance_snd]
  cases fetching with
  | look => exact h
  | load => exact h
  | keep value => exact h.keep_other (hload value hback)

theorem fetch_of_fresh (h : key ∉ own.keys) (value : α) :
    ∃ kept, own.fetch key (.ok value) = (.ok kept, (own.keep key value).2) ∧ kept.value = value := by
  refine ⟨(own.keep key value).1, ?_, ?_⟩
  · unfold fetch
    rw [kept?_eq_none.2 h]
  · unfold keep
    rw [kept?_eq_none.2 h]

/-! ## What a step on the shared shelf means for the own one -/

theorem CoveredBy.of_pending (h : own.CoveredBy others shared) (hfresh : fetching.Fresh key own)
    {next : Fetching α} {after : Shelf κ α} (hstep : shared.advance key load fetching = (.pending next, after)) :
    next.Fresh key own ∧ own.CoveredBy others after := by
  unfold advance at hstep
  cases fetching with
  | look =>
    dsimp only at hstep
    split at hstep <;> cases hstep
    rename_i hnone
    exact ⟨fun hk => kept?_eq_none.1 hnone (h.keys hk), h⟩
  | load =>
    dsimp only at hstep
    split at hstep <;> cases hstep
    exact ⟨hfresh, h⟩
  | keep value => cases hstep

/-- A value that is answered is the one of the own look-up as well, or else it comes from others, and the own
look-up would fail where it does not. -/
theorem CoveredBy.of_done (h : own.CoveredBy others shared) (hfresh : fetching.Fresh key own)
    (hback : fetching.Backed load) {mine : κ → α → Prop} (hown : own.From mine)
    (hload : ∀ value, load = .ok value → mine key value)
    (hagree : ∀ kept value, shared.kept? key = some kept → mine key value → kept.value = value)
    {value : α} {after : Shelf κ α} (hstep : shared.advance key load fetching = (.done value, after)) :
    ∃ load' kept, own.fetch key load' = (.ok kept, (own.fetch key load').2) ∧ kept.value = value ∧
      (own.fetch key load').2.CoveredBy others after ∧
      (load' = load ∨ load' = .ok value ∧ others key value ∧
        ∃ fault, load = .error fault ∧ (own.fetch key load).1 = .error fault) := by
  unfold advance at hstep
  cases fetching with
  | look =>
    dsimp only at hstep
    split at hstep <;> cases hstep
    rename_i shelved hshelved
    have hmem := mem_of_kept? hshelved
    have hkey : key ∈ shared.keys := List.mem_map_of_mem hmem
    cases hkept : own.kept? key with
    | some kept =>
      have hfetch : own.fetch key load = (.ok kept, own) := by
        unfold fetch
        rw [hkept]
      rw [hagree shelved kept.value hshelved (hown _ (mem_of_kept? hkept))]
      exact ⟨load, kept, by rw [hfetch], rfl, by rwa [hfetch], .inl rfl⟩
    | none =>
      -- another run has kept the value; alone, it would have been read here
      have hnew := kept?_eq_none.1 hkept
      obtain ⟨kept, hfetch, hvalue⟩ := fetch_of_fresh hnew shelved.value
      refine ⟨.ok shelved.value, kept, by rw [hfetch], hvalue, by rw [hfetch]; exact h.keep_own hkey _, ?_⟩
      cases load with
      | error fault =>
        refine .inr ⟨rfl, (h.source _ hmem).resolve_left hnew, fault, rfl, ?_⟩
        unfold fetch
        rw [hkept]
      | ok value => exact .inl (by rw [hagree shelved value hshelved (hload value rfl)])
  | load => cases load <;> cases hstep
  | keep read =>
    dsimp only at hstep
    cases hstep
    have hread : load = .ok read := hback
    obtain ⟨kept, hfetch, hvalue⟩ := fetch_of_fresh hfresh read
    refine ⟨load, kept, by rw [hread, hfetch], ?_, by rw [hread, hfetch]; exact h.keep_both key read, .inl rfl⟩
    rw [hvalue]
    unfold keep
    split
    · rename_i shelved hshelved
      exact (hagree shelved read hshelved (hload read hread)).symm
    · rfl

theorem fetch_of_failed (hfresh : fetching.Fresh key own) {fault : Failure} {after : Shelf κ α}
    (hstep : shared.advance key load fetching = (.failed fault, after)) :
    load = .error fault ∧ (own.fetch key load).1 = .error fault := by
  unfold advance at hstep
  cases fetching with
  | look =>
    dsimp only at hstep
    split at hstep <;> cases hstep
  | load =>
    cases load with
    | ok value => cases hstep
    | error found =>
      cases hstep
      unfold fetch
      rw [kept?_eq_none.2 hfresh]
      exact ⟨rfl, rfl⟩
  | keep value => cases hstep

end Shelf
end ApiProfile
