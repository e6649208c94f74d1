import ApiProfile.CommandLine.Run
import ApiProfile.Proofs.Files.Writing
import ApiProfile.Proofs.Profile.Isolation
/-!
# Models that are left behind

Running profiles writes one file for each that comes to a model, and goes on after one that fails. If every write
goes well, the files of the models are there at the end, and no other file has changed. The name of a profile is all
that the name of its file depends on, so of two profiles with one name only the later model is left
(`runProfiles_overwrites`).
-/

namespace ApiProfile.CommandLine

/-! ## Writing models -/

/-- The file that a model is written to, with its content. -/
def modelFile (output : OutputSettings) (model : ProfileModel) : Path × ByteArray :=
  (modelPath output model.name, (modelText output model).toUTF8)

/-- The models among results, in order. -/
def resolved (results : List (String × Except Failure ProfileModel)) : List ProfileModel :=
  results.filterMap (·.2.toOption)

theorem endsInName_modelPath (output : OutputSettings) (name : String) : (modelPath output name).EndsInName := by
  obtain ⟨front, hfront⟩ := Path.exists_text_join output.directory ⟨name ++ ".json"⟩
  have hends : (modelPath output name).text.toList = front ++ name.toList ++ ".json".toList := by
    unfold modelPath
    rw [hfront, String.toList_append, List.append_assoc]
  exact Path.endsInName_of_ending hends (by decide) (by decide)

theorem foldl_print (lines : List String) (outcome : Outcome) :
    (lines.foldl Outcome.print outcome).store = outcome.store ∧
      (lines.foldl Outcome.print outcome).complaint = outcome.complaint := by
  induction lines generalizing outcome with
  | nil => exact ⟨rfl, rfl⟩
  | cons line lines ih => exact ih (outcome.print line)

/-- Writing ended at a model that could not be written: those before it were written, and this is its place among the
results. -/
def StopsAt (output : OutputSettings) (start : FileStore) (results : List (String × Except Failure ProfileModel))
    (outcome : Outcome) (i : Nat) (model : ProfileModel) : Prop :=
  (∃ name, results[i]? = some (name, .ok model)) ∧
    start.writeAll? ((resolved (results.take i)).map (modelFile output)) = some outcome.store ∧
    outcome.store.write? (modelPath output model.name) (modelText output model).toUTF8 = none ∧
    outcome.complaint = some (.fileNotWritten (modelPath output model.name))

/-- Writing models either ends at one that cannot be written, or writes all of them and complains if there were
failures. -/
theorem writeModels_cases (output : OutputSettings) (total : Nat) {outcome : Outcome} (hgood : outcome.complaint = none)
    (failed : Nat) (results : List (String × Except Failure ProfileModel)) :
    (∃ i model, StopsAt output outcome.store results (writeModels output total outcome failed results) i model) ∨
    (outcome.store.writeAll? ((resolved results).map (modelFile output)) =
        some (writeModels output total outcome failed results).store ∧
      ((writeModels output total outcome failed results).complaint = none ↔
        failed = 0 ∧ ∀ r ∈ results, r.2.isOk)) := by
  induction results generalizing outcome failed with
  | nil =>
    refine .inr ?_
    unfold writeModels Outcome.complainIf
    split
    · exact ⟨rfl, by simp [*]⟩
    · exact ⟨rfl, by simp [Outcome.complain, *]⟩
  | cons r results ih =>
    obtain ⟨name, result⟩ := r
    cases result with
    | error fault =>
      rw [writeModels]
      rcases @ih (outcome.print _) hgood (failed + 1) with ⟨i, model, hstop⟩ | ⟨hwritten, hcomplaint⟩
      · exact .inl ⟨i + 1, model, hstop⟩
      · exact .inr ⟨hwritten, hcomplaint.trans (by simp [Except.isOk, Except.toBool])⟩
    | ok model =>
      rw [writeModels]
      dsimp only
      cases hwrite : outcome.store.write? (modelPath output model.name) (modelText output model).toUTF8 with
      | none => exact .inl ⟨0, model, ⟨name, rfl⟩, rfl, hwrite, rfl⟩
      | some saved =>
        dsimp only
        generalize hlines : modelLine output model :: _ = lines
        obtain ⟨hstore, hprinted⟩ := foldl_print lines { outcome with store := saved }
        rcases ih (hprinted.trans hgood) failed with ⟨i, later, hat, hbefore, hstop⟩ | ⟨hwritten, hcomplaint⟩
        · rw [hstore] at hbefore
          exact .inl ⟨i + 1, later, hat, Option.bind_eq_some_iff.2 ⟨saved, hwrite, hbefore⟩, hstop⟩
        · refine .inr ⟨?_, hcomplaint.trans (by simp [Except.isOk, Except.toBool])⟩
          rw [hstore] at hwritten
          exact Option.bind_eq_some_iff.2 ⟨saved, hwrite, hwritten⟩

/-! ## Runs -/

/-- The profile at a position, and the model that it comes to among the others. -/
def ResolvedAt (store : FileStore) (profiles : List Profile) (i : Nat) (p : Profile) (model : ProfileModel) : Prop :=
  profiles[i]? = some p ∧ (Profile.runAll store .empty profiles).1[i]? = some (p.name, .ok model)

/-- What running profiles leaves behind. -/
structure Delivers (store : FileStore) (output : OutputSettings) (profiles : List Profile) (outcome : Outcome) :
    Prop where
  /-- A model is what its profile comes to alone. Only if alone that is a document that is not found, it may be what
  the profile comes to respelled. -/
  own : ∀ i p model, ResolvedAt store profiles i p model → model.name = p.name ∧
    ∃ p', p.Respelled store (profiles.eraseIdx i) p' ∧ (p' = p ∨ p.Misses store) ∧
      (p'.run store .empty).1 = .ok model
  /-- The file of a model holds it, unless a later model has the same file. -/
  holds : ∀ i p model, ResolvedAt store profiles i p model →
    (∀ j q later, i < j → ResolvedAt store profiles j q later →
      outcome.store.place? (modelPath output q.name) ≠ outcome.store.place? (modelPath output p.name)) →
    outcome.store.file? (modelPath output p.name) = some (modelText output model).toUTF8
  /-- What is not the file of a model holds what it held before, and is a file only if it was one before. -/
  others : ∀ place, (∀ i p model, ResolvedAt store profiles i p model →
    outcome.store.place? (modelPath output p.name) ≠ some place) →
    ∀ content, outcome.store.at? place = some (.file content) ↔ store.at? place = some (.file content)
  succeeds : outcome.complaint = none ↔ ∀ i p, profiles[i]? = some p → ∃ model, ResolvedAt store profiles i p model

section Results

variable {store : FileStore} {profiles : List Profile} {i : Nat}

/-- A result stands where its profile does, and is what that profile comes to. -/
theorem runAll_at {r : String × Except Failure ProfileModel}
    (h : (Profile.runAll store .empty profiles).1[i]? = some r) :
    ∃ p, profiles[i]? = some p ∧ r.1 = p.name ∧ ∃ p', p.Respelled store (profiles.eraseIdx i) p' ∧
      (p' = p ∨ p.Misses store) ∧ r.2 = (p'.run store .empty).1 := by
  obtain ⟨done, hreaches, hresults⟩ := Session.reaches_runAll store .empty [] profiles
  have hsound : Session.Sound store profiles _ := Session.Reaches.sound hreaches
  obtain ⟨t, ht, hresult⟩ := exists_of_forall₂ (mapM_eq_some.1 hresults) h
  refine ⟨t.profile, ?_, (Session.exists_of_result? hresult).1, hsound.result ht hresult⟩
  rw [← hsound.profiles, List.getElem?_map]
  exact congrArg (Option.map Task.profile) ht

theorem length_runAll (store : FileStore) (cache : Cache) (profiles : List Profile) :
    (Profile.runAll store cache profiles).1.length = profiles.length := by
  induction profiles generalizing cache with
  | nil => rfl
  | cons p ps ih => exact congrArg (· + 1) (ih (p.run store cache).2)

theorem exists_resolvedAt {name : String} {model : ProfileModel}
    (h : (Profile.runAll store .empty profiles).1[i]? = some (name, .ok model)) :
    ∃ p, ResolvedAt store profiles i p model := by
  obtain ⟨p, hp, rfl, -⟩ := runAll_at h
  exact ⟨p, hp, h⟩

theorem name_of_run {cache : Cache} {p : Profile} {model : ProfileModel} (h : (p.run store cache).1 = .ok model) :
    model.name = p.name := by
  rw [Profile.run_eq] at h
  obtain ⟨document, -, h⟩ := bind_eq_ok.1 h
  obtain ⟨signatures, -, h⟩ := bind_eq_ok.1 h
  obtain ⟨table, -, h⟩ := bind_eq_ok.1 h
  obtain ⟨represented, -, h⟩ := bind_eq_ok.1 h
  cases h
  rfl

theorem ResolvedAt.own {p : Profile} {model : ProfileModel} (h : ResolvedAt store profiles i p model) :
    model.name = p.name ∧ ∃ p', p.Respelled store (profiles.eraseIdx i) p' ∧ (p' = p ∨ p.Misses store) ∧
      (p'.run store .empty).1 = .ok model := by
  obtain ⟨q, hq, -, p', hrespelled, hmisses, hrun⟩ := runAll_at h.2
  cases h.1.symm.trans hq
  refine ⟨?_, p', hrespelled, hmisses, hrun.symm⟩
  rw [name_of_run hrun.symm, hrespelled.base]

/-- All results are models exactly if every profile comes to one. -/
theorem all_isOk_iff : (∀ r ∈ (Profile.runAll store .empty profiles).1, r.2.isOk) ↔
    ∀ i p, profiles[i]? = some p → ∃ model, ResolvedAt store profiles i p model := by
  constructor
  · intro hall i p hp
    have hlt := (List.getElem?_eq_some_iff.1 hp).1
    rw [← length_runAll store .empty] at hlt
    have hr := List.getElem?_eq_getElem hlt
    obtain ⟨q, hq, hname, -⟩ := runAll_at hr
    cases hp.symm.trans hq
    have hok := hall _ (List.getElem_mem hlt)
    generalize (Profile.runAll store .empty profiles).1[i] = r at hr hname hok
    obtain ⟨name, result⟩ := r
    cases result with
    | ok model => exact ⟨model, hp, by rw [hr, ← hname]⟩
    | error fault => cases hok
  · intro hall r hr
    obtain ⟨i, hi⟩ := List.getElem?_of_mem hr
    obtain ⟨p, hp, -⟩ := runAll_at hi
    obtain ⟨model, -, hmodel⟩ := hall i p hp
    cases hi.symm.trans hmodel
    rfl

end Results

theorem mem_resolved {results : List (String × Except Failure ProfileModel)} {model : ProfileModel} :
    model ∈ resolved results ↔ ∃ (i : Nat) (name : String), results[i]? = some (name, .ok model) := by
  unfold resolved
  rw [List.mem_filterMap]
  constructor
  · rintro ⟨⟨name, result⟩, hr, hmodel⟩
    obtain ⟨i, hi⟩ := List.getElem?_of_mem hr
    cases toOption_eq_some.1 hmodel
    exact ⟨i, name, hi⟩
  · rintro ⟨i, name, hi⟩
    exact ⟨_, List.mem_of_getElem? hi, rfl⟩

/-- The models behind the one at a position are those at later positions. -/
theorem resolved_split {results : List (String × Except Failure ProfileModel)} {i : Nat} {name : String}
    {model : ProfileModel} (h : results[i]? = some (name, .ok model)) :
    resolved results = resolved (results.take i) ++ model :: resolved (results.drop (i + 1)) := by
  obtain ⟨hlt, hget⟩ := List.getElem?_eq_some_iff.1 h
  have hsplit : results = results.take i ++ (name, .ok model) :: results.drop (i + 1) := by
    rw [← hget, ← List.drop_eq_getElem_cons hlt, List.take_append_drop]
  conv_lhs => rw [hsplit]
  unfold resolved
  rw [List.filterMap_append]
  rfl

/-- What is left behind when every write goes well. -/
theorem delivers_of_writeAll? {store made : FileStore} {output : OutputSettings} {profiles : List Profile}
    (hmade : store.makeDirectories? output.directory = some made) {outcome : Outcome}
    (hwritten : made.writeAll? ((resolved (Profile.runAll store .empty profiles).1).map (modelFile output)) =
      some outcome.store)
    (hcomplaint : outcome.complaint = none ↔ ∀ r ∈ (Profile.runAll store .empty profiles).1, r.2.isOk) :
    Delivers store output profiles outcome := by
  have hnames : ∀ file ∈ (resolved (Profile.runAll store .empty profiles).1).map (modelFile output),
      file.1.EndsInName := by
    intro file hfile
    obtain ⟨model, -, rfl⟩ := List.mem_map.1 hfile
    exact endsInName_modelPath output model.name
  obtain ⟨-, hholds, hothers⟩ := FileStore.wrote_all hnames hwritten
  refine ⟨fun i p model h => h.own, ?_, ?_, hcomplaint.trans all_isOk_iff⟩
  · intro i p model h hlater
    have hsplit := congrArg (List.map (modelFile output)) (resolved_split h.2)
    rw [List.map_append, List.map_cons] at hsplit
    rw [← h.own.1] at hlater ⊢
    refine hholds _ (modelFile output model) _ hsplit fun file hfile => ?_
    obtain ⟨later, hmem, rfl⟩ := List.mem_map.1 hfile
    obtain ⟨k, name, hk⟩ := mem_resolved.1 hmem
    rw [List.getElem?_drop] at hk
    obtain ⟨q, hq⟩ := exists_resolvedAt hk
    have hne := hlater (i + 1 + k) q later (by omega) hq
    rwa [← hq.own.1] at hne
  · intro place hplace content
    rw [hothers place fun file hfile => ?_]
    · exact FileStore.file_at_makeDirectories? hmade place content
    · obtain ⟨model, hmodel, rfl⟩ := List.mem_map.1 hfile
      obtain ⟨i, name, hi⟩ := mem_resolved.1 hmodel
      obtain ⟨p, hp⟩ := exists_resolvedAt hi
      have hne := hplace i p model hp
      rwa [← hp.own.1] at hne

/-- Running profiles does nothing if one of them is not known, or if the directory cannot be made. Otherwise it writes
models until one of them cannot be written, or leaves all of them behind and succeeds exactly if every profile came to
one. -/
theorem runProfiles_delivers (store : FileStore) (configuration : Configuration) (names : List String) :
    (∃ name ∈ names, configuration.profile? name = none ∧
      runProfiles store configuration names = (Outcome.start store).complain (.unknownProfile name)) ∨
    (∀ name ∈ names, (configuration.profile? name).isSome) ∧
      ((store.makeDirectories? configuration.output.directory = none ∧ runProfiles store configuration names =
          (Outcome.start store).complain (.directoryNotMade configuration.output.directory)) ∨
        ∃ made, store.makeDirectories? configuration.output.directory = some made ∧
          ((∃ i p model, ResolvedAt store (selectedProfiles configuration names) i p model ∧ model.name = p.name ∧
            StopsAt configuration.output made (Profile.runAll store .empty (selectedProfiles configuration names)).1
              (runProfiles store configuration names) i model) ∨
          Delivers store configuration.output (selectedProfiles configuration names)
            (runProfiles store configuration names))) := by
  unfold runProfiles
  dsimp only
  split
  · rename_i name hname
    exact .inl ⟨name, List.mem_of_find?_eq_some hname, by simpa using List.find?_some hname, rfl⟩
  · rename_i hknown
    have hall : ∀ name ∈ names, (configuration.profile? name).isSome := fun name hname => by
      simpa [Option.isSome_iff_ne_none] using List.find?_eq_none.1 hknown name hname
    refine .inr ⟨hall, ?_⟩
    split
    · rename_i hnone
      exact .inl ⟨hnone, rfl⟩
    · rename_i made hmade
      refine .inr ⟨made, hmade, ?_⟩
      have hgood : { Outcome.start store with store := made }.complaint = none := rfl
      rcases writeModels_cases configuration.output (selectedProfiles configuration names).length hgood 0
        (Profile.runAll store .empty (selectedProfiles configuration names)).1 with
        ⟨i, model, hstop⟩ | ⟨hwritten, hcomplaint⟩
      · obtain ⟨name, hi⟩ := hstop.1
        obtain ⟨p, hp⟩ := exists_resolvedAt hi
        exact .inl ⟨i, p, model, hp, hp.own.1, hstop⟩
      · exact .inr (delivers_of_writeAll? hmade hwritten (hcomplaint.trans (and_iff_right rfl)))

/-- Two profiles of one name, each of another API. -/
def namesakes : Configuration where
  output := { format := .compact }
  profiles := [{ name := "gl", api := "gl", typeTables := [] }, { name := "gl", api := "gles2", typeTables := [] }]

def namesakeFiles : FileStore :=
  ⟨[], [(["gl.xml"], .file "<registry/>".toUTF8)]⟩

theorem runProfiles_overwrites :
    ∃ p model, ResolvedAt namesakeFiles (selectedProfiles namesakes []) 0 p model ∧
      (runProfiles namesakeFiles namesakes []).complaint = none ∧
      (runProfiles namesakeFiles namesakes []).store.file? (modelPath namesakes.output p.name) ≠
        some (modelText namesakes.output model).toUTF8 := by
  have hgood : (runProfiles namesakeFiles namesakes []).complaint = none := by decide +kernel
  have hresults : (Profile.runAll namesakeFiles .empty (selectedProfiles namesakes [])).1.map
      (fun r => (r.1, r.2.isOk)) = [("gl", true), ("gl", true)] := by decide +kernel
  have hlost : ((Profile.runAll namesakeFiles .empty (selectedProfiles namesakes [])).1[0]?.bind (·.2.toOption)).map
      (fun model => (modelText namesakes.output model).toUTF8.data) ≠
      ((runProfiles namesakeFiles namesakes []).store.file? (modelPath namesakes.output "gl")).map (·.data) := by
    decide +kernel
  cases hruns : (Profile.runAll namesakeFiles .empty (selectedProfiles namesakes [])).1 with
  | nil =>
    rw [hruns] at hresults
    cases hresults
  | cons first rest =>
    obtain ⟨name, result⟩ := first
    rw [hruns] at hresults hlost
    cases result with
    | error fault => simp [Except.isOk, Except.toBool] at hresults
    | ok model =>
      have hfirst : (Profile.runAll namesakeFiles .empty (selectedProfiles namesakes [])).1[0]? =
          some (name, .ok model) := by
        rw [hruns]
        rfl
      obtain ⟨p, hp⟩ := exists_resolvedAt hfirst
      have hname : p.name = "gl" := by
        have hfirst := hp.1
        cases hfirst
        rfl
      refine ⟨p, model, hp, hgood, fun heq => hlost ?_⟩
      rw [hname] at heq
      rw [heq]
      rfl

end ApiProfile.CommandLine
