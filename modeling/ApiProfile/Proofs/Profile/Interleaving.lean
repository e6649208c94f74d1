import ApiProfile.Proofs.Profile.Model
import Mathlib.Algebra.GroupWithZero.Nat
import Mathlib.Logic.Relation
/-!
# Runs side by side

Profiles that run at the same time share one cache. A look-up takes three steps there: the shelf is looked
at, the source is read if nothing is kept, and what was read is kept unless another value came first.
Between any two of these steps other runs may take theirs. `Session.Step` lets any unfinished run take its
next step, so its paths are all interleavings.

A run that is left alone comes to what `Profile.run` gives (`Profile.alone_run`), so running profiles one
after another is one of the interleavings (`Session.reaches_runAll`). No interleaving is endless
(`Session.Step.turns_lt`).
-/

namespace ApiProfile

/-! ## Steps of a look-up -/

/-- How far a look-up has come: it is to look at the shelf, to read the source, or to keep what it read. -/
inductive Fetching (α : Type)
  | look
  | load
  | keep (value : α)

/-- What a step of a look-up comes to. -/
inductive Progress (α : Type)
  | pending (next : Fetching α)
  | done (value : α)
  | failed (fault : Failure)

/-- Takes the next step of a look-up. The step that reads has no part in the shelf. -/
def Shelf.advance {κ α : Type} [BEq κ] (shelf : Shelf κ α) (key : κ) (load : Except Failure α) :
    Fetching α → Progress α × Shelf κ α
  | .look =>
    match shelf.kept? key with
    | some kept => (.done kept.value, shelf)
    | none => (.pending .load, shelf)
  | .load =>
    match load with
    | .ok value => (.pending (.keep value), shelf)
    | .error fault => (.failed fault, shelf)
  | .keep value =>
    let (kept, shelf) := shelf.keep key value
    (.done kept.value, shelf)

/-! ## Steps of a run -/

/-- Where a run has come to: it looks its registry up, then its type tables one by one, and is finished. -/
inductive Stage
  | registry (fetching : Fetching Registry)
  | tables (document : Registry) (signatures : List Signature) (read : List TypeTable) (path : Path)
    (left : List Path) (fetching : Fetching TypeTable)
  | finished (result : Except Failure ProfileModel)

/-- Where a run comes to with a step of a look-up: it stays with the look-up, goes on, or fails. -/
def Progress.stage {α : Type} (stays : Fetching α → Stage) (next : α → Stage) : Progress α → Stage
  | .pending fetching => stays fetching
  | .done value => next value
  | .failed fault => .finished (.error fault)

namespace Profile

/-- The result of a profile whose type tables have all been read. -/
def conclude (p : Profile) (document : Registry) (signatures : List Signature) (tables : List TypeTable) :
    Except Failure ProfileModel := do
  let (represented, findings) ← (TypeTable.chain tables).representAll p.unmapped signatures
  return p.model document represented findings

/-- Goes on to the next type table, or to the end. -/
def afterTables (p : Profile) (document : Registry) (signatures : List Signature) (read : List TypeTable) :
    List Path → Stage
  | [] => .finished (p.conclude document signatures read)
  | path :: left => .tables document signatures read path left .look

/-- Goes on with the registry; the signatures are read before any type table. -/
def afterRegistry (p : Profile) (document : Registry) : Stage :=
  match (prunedRegistry p.maxVersion document).signatures with
  | .error fault => .finished (.error fault)
  | .ok signatures => p.afterTables document signatures [] p.typeTables

/-- Takes the next step of a run. -/
def advance (store : FileStore) (p : Profile) (cache : Cache) : Stage → Stage × Cache
  | .registry fetching =>
    let (progress, registries) := cache.registries.advance (p.registry.parts, p.selection)
      (Registry.read store p.registry p.selection) fetching
    (progress.stage .registry p.afterRegistry, { cache with registries })
  | .tables document signatures read path left fetching =>
    let (progress, tables) := cache.tables.advance path.parts (TypeTable.read store path) fetching
    (progress.stage (.tables document signatures read path left)
      (fun table => p.afterTables document signatures (read ++ [table]) left), { cache with tables })
  | .finished result => (.finished result, cache)

end Profile

def Stage.result? : Stage → Option (Except Failure ProfileModel)
  | .finished result => some result
  | _ => none

/-- A profile and where its run has come to. -/
structure Task where
  profile : Profile
  stage : Stage

def Task.start (p : Profile) : Task :=
  ⟨p, .registry .look⟩

/-- The result of a finished run, with the name of its profile. -/
def Task.result? (t : Task) : Option (String × Except Failure ProfileModel) :=
  t.stage.result?.map fun result => (t.profile.name, result)

/-- Runs side by side over one cache. -/
structure Session where
  cache : Cache
  tasks : List Task

namespace Session

def start (ps : List Profile) : Session :=
  ⟨.empty, ps.map .start⟩

/-- Any run that is not finished takes its next step. -/
inductive Step (store : FileStore) : Session → Session → Prop
  | turn {cache : Cache} {tasks : List Task} {i : Nat} {t : Task} (ht : tasks[i]? = some t)
      (hopen : t.stage.result? = none) :
    Step store ⟨cache, tasks⟩ ⟨(t.profile.advance store cache t.stage).2,
      tasks.set i { t with stage := (t.profile.advance store cache t.stage).1 }⟩

def Reaches (store : FileStore) : Session → Session → Prop :=
  Relation.ReflTransGen (Step store)

/-- The results in the order of the profiles, once all runs are finished. -/
def results? (s : Session) : Option (List (String × Except Failure ProfileModel)) :=
  s.tasks.mapM Task.result?

/-! ## No run is endless -/

end Session

def Fetching.turns {α : Type} : Fetching α → Nat
  | .look => 3
  | .load => 2
  | .keep _ => 1

/-- A bound on the steps that a run still takes. -/
def Stage.turns (p : Profile) : Stage → Nat
  | .registry fetching => fetching.turns + 3 * p.typeTables.length
  | .tables _ _ _ _ left fetching => fetching.turns + 3 * left.length
  | .finished _ => 0

def Session.turns (s : Session) : Nat :=
  (s.tasks.map fun t => t.stage.turns t.profile).sum

theorem Fetching.turns_pos {α : Type} (fetching : Fetching α) : 0 < fetching.turns := by
  cases fetching <;> exact Nat.succ_pos _

theorem Shelf.turns_lt_of_advance {κ α : Type} [BEq κ] {shelf : Shelf κ α} {key : κ} {load : Except Failure α}
    {fetching next : Fetching α} (h : (shelf.advance key load fetching).1 = .pending next) :
    next.turns < fetching.turns := by
  unfold Shelf.advance at h
  split at h
  · split at h <;> cases h
    exact Nat.lt_succ_self 2
  · split at h <;> cases h
    exact Nat.lt_succ_self 1
  · cases h

theorem Profile.turns_afterTables (p : Profile) (document : Registry) (signatures : List Signature)
    (read : List TypeTable) (paths : List Path) :
    (p.afterTables document signatures read paths).turns p ≤ 3 * paths.length := by
  cases paths with
  | nil => exact Nat.le_refl 0
  | cons path left =>
    simp only [Profile.afterTables, Stage.turns, Fetching.turns, List.length_cons]
    omega

theorem Profile.turns_afterRegistry (p : Profile) (document : Registry) :
    (p.afterRegistry document).turns p ≤ 3 * p.typeTables.length := by
  unfold Profile.afterRegistry
  split
  · exact Nat.zero_le _
  · exact p.turns_afterTables document _ [] p.typeTables

/-- A look-up takes turns off a bound that what comes after it keeps within. -/
theorem Shelf.turns_stage_lt {κ α : Type} [BEq κ] {p : Profile} {stays : Fetching α → Stage} {next : α → Stage}
    {rest : Nat} (hstays : ∀ fetching, (stays fetching).turns p = fetching.turns + rest)
    (hnext : ∀ value, (next value).turns p ≤ rest) (shelf : Shelf κ α) (key : κ) (load : Except Failure α)
    (fetching : Fetching α) :
    ((shelf.advance key load fetching).1.stage stays next).turns p < (stays fetching).turns p := by
  have hpos := fetching.turns_pos
  rw [hstays]
  cases h : (shelf.advance key load fetching).1 with
  | pending later =>
    have hlt := turns_lt_of_advance h
    simp only [Progress.stage, hstays]
    omega
  | done value =>
    have hle := hnext value
    simp only [Progress.stage]
    omega
  | failed fault =>
    simp only [Progress.stage, Stage.turns]
    omega

theorem Profile.turns_advance_lt (store : FileStore) (p : Profile) (cache : Cache) {stage : Stage}
    (hopen : stage.result? = none) : (p.advance store cache stage).1.turns p < stage.turns p := by
  cases stage with
  | registry fetching =>
    exact Shelf.turns_stage_lt (fun _ => rfl) p.turns_afterRegistry cache.registries _ _ fetching
  | tables document signatures read path left fetching =>
    exact Shelf.turns_stage_lt (fun _ => rfl) (fun _ => p.turns_afterTables _ _ _ left) cache.tables _ _ fetching
  | finished result => cases hopen

theorem sum_map_set_lt {α : Type} {f : α → Nat} {l : List α} {i : Nat} {a b : α} (ha : l[i]? = some a)
    (hlt : f b < f a) : ((l.set i b).map f).sum < (l.map f).sum := by
  induction l generalizing i with
  | nil => cases ha
  | cons c l ih =>
    cases i with
    | zero =>
      cases ha
      simpa using hlt
    | succ i =>
      simp only [List.set_cons_succ, List.map_cons, List.sum_cons]
      exact Nat.add_lt_add_left (ih ha) (f c)

/-- Every step takes one of finitely many turns. -/
theorem Session.Step.turns_lt {store : FileStore} {s s' : Session} (h : Session.Step store s s') :
    s'.turns < s.turns := by
  obtain ⟨ht, hopen⟩ := h
  exact sum_map_set_lt ht (Profile.turns_advance_lt store _ _ hopen)

/-! ## A run left alone -/

namespace Profile

/-- The steps of a run that no other one comes between. -/
def AloneStep (store : FileStore) (p : Profile) (a b : Stage × Cache) : Prop :=
  a.1.result? = none ∧ b = p.advance store a.2 a.1

def Alone (store : FileStore) (p : Profile) : Stage × Cache → Stage × Cache → Prop :=
  Relation.ReflTransGen (AloneStep store p)

theorem run_eq_conclude (store : FileStore) (cache : Cache) (p : Profile) :
    (p.run store cache).1 = (do
      let document ← (cache.registry store p.registry p.selection).1
      let signatures ← (prunedRegistry p.maxVersion document.value).signatures
      let tables ← (cache.tablesIn store p.typeTables).1
      p.conclude document.value signatures tables) := by
  rw [run_eq]
  simp only [Cache.chain_eq_map]
  cases (cache.registry store p.registry p.selection).1 with
  | error fault => rfl
  | ok document =>
    dsimp only [bind, Except.bind]
    cases (prunedRegistry p.maxVersion document.value).signatures with
    | error fault => rfl
    | ok signatures => cases (cache.tablesIn store p.typeTables).1 <;> rfl

/-- Where a run comes to with the answer to a look-up. -/
def afterFetch {α : Type} (next : α → Stage) : Except Failure (Kept α) → Stage
  | .error fault => .finished (.error fault)
  | .ok kept => next kept.value

/-- A look-up as a part of a run: the stages that it stays at, the one that comes next, and the cache around
its shelf. -/
structure LookUp (store : FileStore) (p : Profile) {κ α : Type} [BEq κ] (key : κ) (load : Except Failure α)
    (stays : Fetching α → Stage) (next : α → Stage) (around : Shelf κ α → Cache) : Prop where
  isOpen : ∀ fetching, (stays fetching).result? = none
  advance : ∀ shelf fetching, p.advance store (around shelf) (stays fetching) =
    ((shelf.advance key load fetching).1.stage stays next, around (shelf.advance key load fetching).2)

theorem lookUp_registry (store : FileStore) (p : Profile) (cache : Cache) :
    p.LookUp store (p.registry.parts, p.selection) (Registry.read store p.registry p.selection) .registry
      p.afterRegistry (fun registries => { cache with registries }) :=
  ⟨fun _ => rfl, fun _ _ => rfl⟩

theorem lookUp_table (store : FileStore) (p : Profile) (document : Registry) (signatures : List Signature)
    (read : List TypeTable) (path : Path) (left : List Path) (cache : Cache) :
    p.LookUp store path.parts (TypeTable.read store path) (.tables document signatures read path left)
      (fun table => p.afterTables document signatures (read ++ [table]) left) (fun tables => { cache with tables }) :=
  ⟨fun _ => rfl, fun _ _ => rfl⟩

section LookUp

variable {store : FileStore} {p : Profile} {κ α : Type} [BEq κ] {key : κ} {load : Except Failure α}
  {stays : Fetching α → Stage} {next : α → Stage} {around : Shelf κ α → Cache}

theorem LookUp.step (h : p.LookUp store key load stays next around) (shelf : Shelf κ α) (fetching : Fetching α) :
    AloneStep store p (stays fetching, around shelf)
      ((shelf.advance key load fetching).1.stage stays next, around (shelf.advance key load fetching).2) :=
  ⟨h.isOpen fetching, (h.advance shelf fetching).symm⟩

/-- The steps of one look-up do what `fetch` does at once. -/
theorem LookUp.alone (h : p.LookUp store key load stays next around) (shelf : Shelf κ α) :
    Alone store p (stays .look, around shelf)
      (afterFetch next (shelf.fetch key load).1, around (shelf.fetch key load).2) := by
  have hlook := h.step shelf .look
  have hload := h.step shelf .load
  unfold Shelf.fetch
  unfold Shelf.advance at hlook hload
  cases hkept : shelf.kept? key with
  | some kept =>
    rw [hkept] at hlook
    exact .single hlook
  | none =>
    rw [hkept] at hlook
    cases load with
    | error fault => exact .head hlook (.single hload)
    | ok value => exact .head hlook (.head hload (.single (h.step shelf (.keep value))))

end LookUp

theorem alone_tables (store : FileStore) (p : Profile) (document : Registry) (signatures : List Signature)
    (read : List TypeTable) (paths : List Path) (cache : Cache) :
    Alone store p (p.afterTables document signatures read paths, cache)
      (.finished ((cache.tablesIn store paths).1 >>= fun more => p.conclude document signatures (read ++ more)),
        (cache.tablesIn store paths).2) := by
  induction paths generalizing read cache with
  | nil =>
    have hall : p.conclude document signatures (read ++ []) = p.conclude document signatures read := by
      rw [List.append_nil]
    unfold Cache.tablesIn
    dsimp only [bind, Except.bind]
    rw [hall]
    exact .refl
  | cons path left ih =>
    have htable := (lookUp_table store p document signatures read path left cache).alone cache.tables
    -- the shelf's look-up is the cache's one
    change Alone store p _ (afterFetch _ (cache.table store path).1, (cache.table store path).2) at htable
    unfold Cache.tablesIn
    split <;> rename_i hfirst <;> rw [hfirst] at htable
    · exact htable
    · rename_i kept rest
      have hleft := ih (read ++ [kept.value]) rest
      split <;> rename_i hmore <;> rw [hmore] at hleft
      · exact htable.trans hleft
      · rename_i more _
        have hread : read ++ kept.value :: more = read ++ [kept.value] ++ more := by simp
        refine htable.trans ?_
        dsimp only [bind, Except.bind] at hleft ⊢
        rwa [hread]

/-- A run that is left alone comes to what running the profile gives. -/
theorem alone_run (store : FileStore) (p : Profile) (cache : Cache) :
    Alone store p (.registry .look, cache) (.finished (p.run store cache).1, (p.run store cache).2) := by
  have hregistry := (lookUp_registry store p cache).alone cache.registries
  change Alone store p _ (afterFetch _ (cache.registry store p.registry p.selection).1,
    (cache.registry store p.registry p.selection).2) at hregistry
  unfold run
  split <;> rename_i hdocument <;> rw [hdocument] at hregistry
  · exact hregistry
  · rename_i document cache'
    unfold afterFetch afterRegistry at hregistry
    dsimp only at hregistry
    split <;> rename_i hsignatures <;> rw [hsignatures] at hregistry
    · exact hregistry
    · rename_i signatures
      have htables := hregistry.trans (alone_tables store p document.value signatures [] p.typeTables cache')
      -- the chain is made of the tables, and what is left of the run does not use the cache
      unfold Cache.chain
      cases hread : cache'.tablesIn store p.typeTables with
      | mk answer last =>
        rw [hread] at htables
        cases answer with
        | error fault => exact htables
        | ok tables =>
          have hresult : Alone store p (.registry .look, cache)
              (.finished (p.conclude document.value signatures tables), last) := htables
          unfold conclude at hresult
          dsimp only
          split <;> rename_i hrepresented <;> rw [hrepresented] at hresult <;> exact hresult

end Profile

namespace Session

variable {store : FileStore}

/-- What a run does alone it may do among others. -/
theorem reaches_of_alone {p : Profile} {a b : Stage × Cache} (h : p.Alone store a b) (before after : List Task) :
    Reaches store ⟨a.2, before ++ ⟨p, a.1⟩ :: after⟩ ⟨b.2, before ++ ⟨p, b.1⟩ :: after⟩ := by
  induction h with
  | refl => exact .refl
  | @tail b c _ hstep ih =>
    obtain ⟨hopen, rfl⟩ := hstep
    have hget : (before ++ ⟨p, b.1⟩ :: after)[before.length]? = some (Task.mk p b.1) := by simp
    have hset : ∀ t, (before ++ ⟨p, b.1⟩ :: after).set before.length t = before ++ t :: after := by simp
    have hturn : Step store ⟨b.2, _⟩ _ := .turn hget hopen
    rw [hset] at hturn
    exact ih.tail hturn

/-- Running profiles one after another is one of the interleavings. -/
theorem reaches_runAll (store : FileStore) (cache : Cache) (before : List Task) (ps : List Profile) :
    ∃ done, Reaches store ⟨cache, before ++ ps.map .start⟩ ⟨(Profile.runAll store cache ps).2, before ++ done⟩ ∧
      done.mapM Task.result? = some (Profile.runAll store cache ps).1 := by
  induction ps generalizing cache before with
  | nil => exact ⟨[], .refl, rfl⟩
  | cons p ps ih =>
    have hfirst := reaches_of_alone (p.alone_run store cache) before (ps.map .start)
    obtain ⟨done, hrest, hresults⟩ := ih (p.run store cache).2 (before ++ [⟨p, .finished (p.run store cache).1⟩])
    rw [List.append_assoc, List.append_assoc] at hrest
    refine ⟨⟨p, .finished (p.run store cache).1⟩ :: done, hfirst.trans hrest, ?_⟩
    rw [List.mapM_cons, hresults]
    rfl

end Session
end ApiProfile
