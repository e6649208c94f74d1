import ApiProfile.Proofs.Profile.Respelling
/-!
# Profiles that share a cache

However the steps of several runs interleave, each run comes to what its profile gives alone, or to what its
profile gives respelled, and the latter only if alone it reports a document that is not found.
-/

namespace ApiProfile

/-- What holds of runs side by side, however they got there. -/
structure Session.Sound (store : FileStore) (ps : List Profile) (s : Session) : Prop where
  profiles : s.tasks.map Task.profile = ps
  cache : s.cache.Sourced store
  backed : ∀ t ∈ s.tasks, t.stage.Backed store t.profile
  follows : ∀ (i : Nat) (t : Task), s.tasks[i]? = some t →
    t.profile.Follows store (ps.eraseIdx i) s.cache t.stage

namespace Session

variable {store : FileStore} {ps : List Profile} {s s' : Session}

theorem sound_start (store : FileStore) (ps : List Profile) : (start ps).Sound store ps where
  profiles := by
    unfold start
    rw [List.map_map]
    exact List.map_id ps
  cache := ⟨nofun, nofun⟩
  backed := by
    intro t ht
    obtain ⟨p, -, rfl⟩ := List.mem_map.1 ht
    trivial
  follows := by
    intro i t ht
    obtain ⟨p, -, rfl⟩ := List.mem_map.1 (List.mem_of_getElem? ht)
    exact ⟨⟨nofun, nofun⟩, ⟨nofun, nofun⟩⟩

theorem Step.sound (h : Step store s s') (hs : s.Sound store ps) : s'.Sound store ps := by
  obtain @⟨cache, tasks, i, t, ht, hopen⟩ := h
  have hback := hs.backed t (List.mem_of_getElem? ht)
  have hprofile : ps[i]? = some t.profile := by
    rw [← hs.profiles, List.getElem?_map, ht]
    rfl
  refine ⟨?_, ?_, ?_, ?_⟩
  · rw [List.map_set, hs.profiles]
    obtain ⟨hlt, hget⟩ := List.getElem?_eq_some_iff.1 hprofile
    calc ps.set i t.profile = ps.set i ps[i] := by rw [hget]
      _ = ps := List.set_getElem_self hlt
  · exact Profile.sourced_advance hs.cache hback
  · intro t' ht'
    rcases List.mem_or_eq_of_mem_set ht' with ht' | rfl
    · exact hs.backed t' ht'
    · exact Profile.backed_advance hback cache
  -- the run that took its turn is on its way, and the others see what it left in the cache
  · intro j t' ht'
    by_cases hij : i = j
    · subst hij
      rw [List.getElem?_set_self (List.getElem?_eq_some_iff.1 ht).1] at ht'
      cases ht'
      exact (hs.follows i t ht).advance hs.cache hback
    · rw [List.getElem?_set_ne hij] at ht'
      have hother : t.profile ∈ ps.eraseIdx j := List.mem_eraseIdx_iff_getElem?.2 ⟨i, hij, hprofile⟩
      exact (hs.follows j t' ht').advance_other hother hback

theorem Reaches.sound (h : Reaches store (start ps) s) : s.Sound store ps := by
  induction h with
  | refl => exact sound_start store ps
  | tail _ hstep ih => exact hstep.sound ih

/-- While a run is not finished, there is a step. -/
theorem exists_step (h : s.results? = none) : ∃ s', Step store s s' := by
  obtain ⟨t, ht, hopen⟩ := exists_of_mapM_eq_none h
  obtain ⟨i, hi⟩ := List.getElem?_of_mem ht
  exact ⟨_, .turn hi (Option.map_eq_none_iff.1 hopen)⟩

theorem not_step_of_results? {results : List (String × Except Failure ProfileModel)}
    (h : s.results? = some results) (s' : Session) : ¬ Step store s s' := by
  rintro @⟨cache, tasks, i, t, ht, hopen⟩
  have hnone : t.result? = none := Option.map_eq_none_iff.2 hopen
  obtain ⟨r, -, hsome⟩ := exists_of_forall₂ (mapM_eq_some.1 h).flip ht
  rw [hnone] at hsome
  cases hsome

theorem exists_of_result? {t : Task} {r : String × Except Failure ProfileModel} (h : t.result? = some r) :
    r.1 = t.profile.name ∧ t.stage = .finished r.2 := by
  obtain ⟨result, hresult, rfl⟩ := Option.map_eq_some_iff.1 h
  cases hstage : t.stage with
  | finished last =>
    rw [hstage] at hresult
    exact ⟨rfl, congrArg Stage.finished (Option.some.inj hresult)⟩
  | _ =>
    rw [hstage] at hresult
    cases hresult

/-- What a finished run has come to. -/
theorem Sound.result (hs : s.Sound store ps) {i : Nat} {t : Task} {r : String × Except Failure ProfileModel}
    (ht : s.tasks[i]? = some t) (hr : t.result? = some r) :
    ∃ p', t.profile.Respelled store (ps.eraseIdx i) p' ∧ (p' = t.profile ∨ t.profile.Misses store) ∧
      r.2 = (p'.run store .empty).1 := by
  have hfollows := hs.follows i t ht
  rwa [(exists_of_result? hr).2] at hfollows

theorem Sound.names (hs : s.Sound store ps) {results : List (String × Except Failure ProfileModel)}
    (h : s.results? = some results) : results.map Prod.fst = ps.map Profile.name := by
  rw [← hs.profiles, List.map_map]
  replace h := mapM_eq_some.1 h
  generalize s.tasks = tasks at h
  induction h with
  | nil => rfl
  | cons hfirst _ ih => rw [List.map_cons, List.map_cons, ih, (exists_of_result? hfirst).1, Function.comp_apply]

/-! ## Isolation -/

/-- However runs interleave, none is endless, and the results come in the order of the profiles, each with its name.
Each result is the one that its profile gives alone. Only if that one is a document that is not found, it may be
the result of the profile respelled instead, alone as well. Running the profiles one after another is one of the
interleavings. -/
theorem runs_isolated (store : FileStore) (ps : List Profile) :
    (∀ s s', Step store s s' → s'.turns < s.turns) ∧
    (∀ s, Reaches store (start ps) s → (∃ s', Step store s s') ∨
      ∃ results, s.results? = some results ∧ results.map Prod.fst = ps.map Profile.name ∧
        ∀ (i : Nat) (p : Profile) (r : String × Except Failure ProfileModel),
          ps[i]? = some p → results[i]? = some r →
            ∃ p', p.Respelled store (ps.eraseIdx i) p' ∧
              (p' = p ∨ ∃ path, (p.run store .empty).1 = .error (.documentNotFound path)) ∧
              r.2 = (p'.run store .empty).1) ∧
    ∃ s, Reaches store (start ps) s ∧ s.results? = some (Profile.runAll store .empty ps).1 := by
  refine ⟨fun s s' => Step.turns_lt, ?_, ?_⟩
  · intro s hs
    have hsound := hs.sound
    cases hresults : s.results? with
    | none => exact .inl (exists_step hresults)
    | some results =>
      refine .inr ⟨results, rfl, hsound.names hresults, ?_⟩
      intro i p r hp hr
      obtain ⟨t, ht, hresult⟩ := exists_of_forall₂ (mapM_eq_some.1 hresults) hr
      rw [← hsound.profiles, List.getElem?_map, ht] at hp
      cases hp
      exact hsound.result ht hresult
  · obtain ⟨done, hreaches, hresults⟩ := reaches_runAll store .empty [] ps
    exact ⟨_, hreaches, hresults⟩

/-- Two profiles share a file, and what a third one asks for is missing. -/
def sharedFiles : FileStore :=
  ⟨[], [(["gl.xml"], .file "<registry/>".toUTF8)]⟩

def sharedProfiles : List Profile :=
  [⟨"gl", ⟨"gl", none⟩, none, ⟨"gl.xml"⟩, [], .lenient⟩,
   ⟨"broken", ⟨"gl", none⟩, none, ⟨"missing.xml"⟩, [], .lenient⟩,
   ⟨"gles2", ⟨"gles2", none⟩, none, ⟨"gl.xml"⟩, [], .lenient⟩]

theorem eq_of_respelled_shared {p p' : Profile} {i : Nat} (hp : p ∈ sharedProfiles)
    (h : p.Respelled sharedFiles (sharedProfiles.eraseIdx i) p') : p' = p := by
  have hparts : ∀ p ∈ sharedProfiles, ∀ q ∈ sharedProfiles, q.registry.parts = p.registry.parts →
      sharedFiles.isFile q.registry = sharedFiles.isFile p.registry := by decide +kernel
  have htables : ∀ p ∈ sharedProfiles, p.typeTables = [] := by decide +kernel
  have hregistry : p'.registry = p.registry := by
    rcases h.registry with heq | ⟨hrespelling, q, hq, -, heq⟩
    · exact heq
    · rw [← heq] at hrespelling
      have hfile := hparts p hp q (List.mem_of_mem_eraseIdx hq) hrespelling.parts
      rw [hrespelling.file, hrespelling.missing] at hfile
      cases hfile
  have hlist : p'.typeTables = p.typeTables := by
    have hall := h.typeTables
    rw [htables p hp, List.forall₂_nil_left_iff] at hall
    rw [htables p hp, hall]
  rw [h.base, hregistry, hlist]

theorem runs_isolated_shared :
    (Profile.runAll sharedFiles .empty sharedProfiles).1.map Prod.snd =
      sharedProfiles.map fun p => (p.run sharedFiles .empty).1 := by
  obtain ⟨-, hall, s, hs, hresults⟩ := runs_isolated sharedFiles sharedProfiles
  rcases hall s hs with ⟨s', hstep⟩ | ⟨results, h, hnames, heach⟩
  · exact absurd hstep (not_step_of_results? hresults s')
  · cases hresults.symm.trans h
    have hlength := congrArg List.length hnames
    rw [List.length_map, List.length_map] at hlength
    apply List.ext_getElem
    · rw [List.length_map, List.length_map, hlength]
    · intro i hi hi'
      rw [List.length_map] at hi hi'
      rw [List.getElem_map, List.getElem_map]
      obtain ⟨p', hrespelled, -, hresult⟩ :=
        heach i _ _ (List.getElem?_eq_getElem hi') (List.getElem?_eq_getElem hi)
      rwa [eq_of_respelled_shared (List.getElem_mem hi') hrespelled] at hresult

/-- A slash behind the name makes a path that leads to no file, with the same parts. -/
def slashProfiles : List Profile :=
  [⟨"plain", ⟨"gl", none⟩, none, ⟨"gl.xml"⟩, [], .lenient⟩,
   ⟨"slash", ⟨"gl", none⟩, none, ⟨"gl.xml/"⟩, [], .lenient⟩]

theorem runAll_ne_alone_slash :
    (Profile.runAll sharedFiles .empty slashProfiles).1 ≠
      slashProfiles.map fun p => (p.name, (p.run sharedFiles .empty).1) := by
  have hshared : (Profile.runAll sharedFiles .empty slashProfiles).1.map (fun r => r.2.isOk) = [true, true] := by
    decide +kernel
  have halone : (slashProfiles.map fun p => (p.name, (p.run sharedFiles .empty).1)).map (fun r => r.2.isOk) =
      [true, false] := by
    decide +kernel
  intro h
  rw [h, halone] at hshared
  cases hshared

end Session
end ApiProfile
