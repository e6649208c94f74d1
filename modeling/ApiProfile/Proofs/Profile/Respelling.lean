import ApiProfile.Proofs.Profile.Interleaving
import ApiProfile.Proofs.Profile.Sharing
/-!
# What a run comes to beside others

Sources are kept by the parts of their paths, and spellings with the same parts are read alike, unless one of
them leads to no file. A profile is `Respelled` when such paths are spelled as another profile spells them.
A run that shares a cache `Follows` the run of its profile alone, or, once that one would have reported a
document that is not found, the run of its profile respelled. We show that each of its steps keeps it so.
-/

namespace ApiProfile

/-! ## Spellings -/

/-- A path has the same parts as another one and leads to a file, which the other one does not. -/
structure FileStore.Respelling (store : FileStore) (path other : Path) : Prop where
  parts : other.parts = path.parts
  file : store.isFile other = true
  missing : store.isFile path = false

/-- Some paths of a profile that lead to no file are spelled as in other profiles. -/
structure Profile.Respelled (store : FileStore) (others : List Profile) (p p' : Profile) : Prop where
  base : p' = { p with registry := p'.registry, typeTables := p'.typeTables }
  registry : p'.registry = p.registry ∨ store.Respelling p.registry p'.registry ∧
    ∃ q ∈ others, q.selection = p.selection ∧ q.registry = p'.registry
  typeTables : List.Forall₂ (fun path other => other = path ∨ store.Respelling path other ∧
    ∃ q ∈ others, other ∈ q.typeTables) p.typeTables p'.typeTables

/-- Alone, a profile reports that a document is not found. -/
def Profile.Misses (store : FileStore) (p : Profile) : Prop :=
  ∃ path, (p.run store .empty).1 = .error (.documentNotFound path)

theorem forall₂_replace {α β : Type} {R : α → β → Prop} {l : List α} {before after : List β} {b c : β}
    (h : List.Forall₂ R l (before ++ b :: after)) (hbc : ∀ a, R a b → R a c) :
    List.Forall₂ R l (before ++ c :: after) := by
  induction before generalizing l with
  | nil =>
    obtain ⟨a, rest, hfirst, hrest, rfl⟩ := List.forall₂_cons_right_iff.1 h
    exact .cons (hbc a hfirst) hrest
  | cons d before ih =>
    obtain ⟨a, rest, hfirst, hrest, rfl⟩ := List.forall₂_cons_right_iff.1 h
    exact .cons hfirst (ih hrest)

namespace Profile

variable {store : FileStore} {others : List Profile} {p p' : Profile}

theorem Respelled.refl (store : FileStore) (others : List Profile) (p : Profile) : p.Respelled store others p :=
  ⟨rfl, .inl rfl, List.forall₂_same.2 fun _ _ => .inl rfl⟩

theorem Respelled.selection (h : p.Respelled store others p') : p'.selection = p.selection := by
  rw [h.base]

theorem Respelled.maxVersion (h : p.Respelled store others p') : p'.maxVersion = p.maxVersion := by
  rw [h.base]

theorem Respelled.conclude (h : p.Respelled store others p') : p'.conclude = p.conclude := by
  rw [h.base]
  rfl

/-- One more type table may be respelled. -/
theorem Respelled.table (h : p.Respelled store others p') {done left : List Path} {path other : Path}
    (hpaths : p'.typeTables = done ++ path :: left) (hother : store.Respelling path other)
    (hnamed : ∃ q ∈ others, other ∈ q.typeTables) :
    p.Respelled store others { p' with typeTables := done ++ other :: left } := by
  refine ⟨?_, h.registry, ?_⟩
  · rw [h.base]
  · refine forall₂_replace (hpaths ▸ h.typeTables) fun first hfirst => ?_
    rcases hfirst with rfl | ⟨hbefore, -⟩
    · exact .inr ⟨hother, hnamed⟩
    · -- a path that was respelled already leads to a file
      have hmissing := hother.missing
      rw [hbefore.file] at hmissing
      cases hmissing

/-- What a profile gives alone, by what is read for it. -/
theorem run_alone_eq (store : FileStore) (p : Profile) :
    (p.run store .empty).1 = (do
      let document ← Registry.read store p.registry p.selection
      let signatures ← (prunedRegistry p.maxVersion document).signatures
      let tables ← (Cache.empty.tablesIn store p.typeTables).1
      p.conclude document signatures tables) := by
  rw [run_eq_conclude, Cache.registry_fst]
  cases Registry.read store p.registry p.selection <;> rfl

end Profile

/-! ## What is read for whom -/

/-- A registry that is read at a path with these parts. -/
def Registry.Source (store : FileStore) (key : Path.Parts × Selection) (document : Registry) : Prop :=
  ∃ path : Path, path.parts = key.1 ∧ Registry.read store path key.2 = .ok document

def TypeTable.Source (store : FileStore) (key : Path.Parts) (table : TypeTable) : Prop :=
  ∃ path : Path, path.parts = key ∧ TypeTable.read store path = .ok table

/-- A registry that is read for one of the others. -/
def Cache.RegistryOf (store : FileStore) (others : List Profile) (key : Path.Parts × Selection)
    (document : Registry) : Prop :=
  ∃ q ∈ others, (q.registry.parts, q.selection) = key ∧ Registry.read store q.registry q.selection = .ok document

def Cache.TableOf (store : FileStore) (others : List Profile) (key : Path.Parts) (table : TypeTable) : Prop :=
  ∃ q ∈ others, ∃ path ∈ q.typeTables, path.parts = key ∧ TypeTable.read store path = .ok table

/-- Whatever is kept is what a file is read as. -/
structure Cache.Sourced (store : FileStore) (cache : Cache) : Prop where
  registries : cache.registries.From (Registry.Source store)
  tables : cache.tables.From (TypeTable.Source store)

variable {store : FileStore}

theorem Registry.Source.unique {key : Path.Parts × Selection} {a b : Registry} (ha : Registry.Source store key a)
    (hb : Registry.Source store key b) : a = b := by
  obtain ⟨p, hp, ha⟩ := ha
  obtain ⟨q, hq, hb⟩ := hb
  exact FileStore.readAs_unique (hp.trans hq.symm) ha hb

theorem TypeTable.Source.unique {key : Path.Parts} {a b : TypeTable} (ha : TypeTable.Source store key a)
    (hb : TypeTable.Source store key b) : a = b := by
  obtain ⟨p, hp, ha⟩ := ha
  obtain ⟨q, hq, hb⟩ := hb
  exact FileStore.readAs_unique (hp.trans hq.symm) ha hb

theorem Cache.tables_table {cache : Cache} (h : cache.tables.From (TypeTable.Source store)) (path : Path) :
    (cache.table store path).2.tables.From (TypeTable.Source store) := by
  intro entry hentry
  rcases Shelf.mem_fetch hentry with hentry | ⟨hkey, hread⟩
  · exact h entry hentry
  · exact ⟨path, hkey.symm, hread⟩

theorem Cache.tables_tablesIn {cache : Cache} (h : cache.tables.From (TypeTable.Source store)) (paths : List Path) :
    (cache.tablesIn store paths).2.tables.From (TypeTable.Source store) := by
  induction paths generalizing cache with
  | nil => exact h
  | cons path paths ih =>
    rw [tablesIn_snd_cons]
    cases (cache.table store path).1 with
    | ok first => exact ih (tables_table h path)
    | error fault => exact tables_table h path

/-- What is read where a path leads to no file can only be another spelling. -/
theorem FileStore.respelling_of_readAs {α : Type} {parse : String → Except Failure α} {path other : Path}
    (hparts : other.parts = path.parts) {value : α} {fault : Failure} (hother : store.readAs parse other = .ok value)
    (hpath : store.readAs parse path = .error fault) :
    store.Respelling path other ∧ fault = .documentNotFound path := by
  obtain ⟨hfile, h⟩ := readAs_spelling hparts hother
  rw [hpath] at h
  rcases h with h | ⟨hmissing, h⟩
  · cases h
  · cases h
    exact ⟨⟨hparts, hfile, hmissing⟩, rfl⟩

/-! ## Stages -/

/-- What a run is about to keep has been read, and the tables that it has yet to read are its profile's. -/
def Stage.Backed (store : FileStore) (p : Profile) : Stage → Prop
  | .registry fetching => fetching.Backed (Registry.read store p.registry p.selection)
  | .tables _ _ _ path left fetching =>
    (∀ other ∈ path :: left, other ∈ p.typeTables) ∧ fetching.Backed (TypeTable.read store path)
  | .finished _ => True

namespace Profile

variable {others : List Profile} {p p' : Profile} {cache own : Cache}

theorem backed_afterTables (document : Registry) (signatures : List Signature) (read : List TypeTable)
    {paths : List Path} (h : ∀ path ∈ paths, path ∈ p.typeTables) :
    (p.afterTables document signatures read paths).Backed store p := by
  cases paths with
  | nil => trivial
  | cons path left => exact ⟨h, trivial⟩

theorem backed_afterRegistry (store : FileStore) (p : Profile) (document : Registry) :
    (p.afterRegistry document).Backed store p := by
  unfold afterRegistry
  split
  · trivial
  · exact backed_afterTables document _ [] fun _ h => h

theorem backed_advance {stage : Stage} (h : stage.Backed store p) (cache : Cache) :
    (p.advance store cache stage).1.Backed store p := by
  cases stage with
  | registry fetching =>
    dsimp only [advance]
    cases hstep : (cache.registries.advance (p.registry.parts, p.selection)
      (Registry.read store p.registry p.selection) fetching).1 with
    | pending next => exact Shelf.backed_of_advance hstep
    | done document => exact backed_afterRegistry store p document
    | failed fault => trivial
  | tables document signatures read path left fetching =>
    dsimp only [advance]
    cases hstep : (cache.tables.advance path.parts (TypeTable.read store path) fetching).1 with
    | pending next => exact ⟨h.1, Shelf.backed_of_advance hstep⟩
    | done table => exact backed_afterTables document signatures _ fun other hother => h.1 other (.tail path hother)
    | failed fault => trivial
  | finished result => trivial

theorem sourced_advance {stage : Stage} (hcache : cache.Sourced store) (hstage : stage.Backed store p) :
    (p.advance store cache stage).2.Sourced store := by
  cases stage with
  | registry fetching =>
    exact ⟨hcache.registries.advance hstage fun document hread => ⟨p.registry, rfl, hread⟩, hcache.tables⟩
  | tables document signatures read path left fetching =>
    exact ⟨hcache.registries, hcache.tables.advance hstage.2 fun table hread => ⟨path, rfl, hread⟩⟩
  | finished result => exact hcache

/-! ## What a run is to come to -/

/-- The tables of a profile, respelled, have been read up to here as its run alone would have read them. -/
structure Reads (store : FileStore) (others : List Profile) (cache : Cache) (p : Profile) (document : Registry)
    (signatures : List Signature) (read : List TypeTable) (left : List Path) (p' : Profile) (own : Cache) : Prop where
  respelled : p.Respelled store others p'
  misses : p' = p ∨ p.Misses store
  registryRead : Registry.read store p'.registry p.selection = .ok document
  signaturesRead : (prunedRegistry p.maxVersion document).signatures = .ok signatures
  tablesRead : ∃ done, p'.typeTables = done ++ left ∧ Cache.empty.tablesIn store done = (.ok read, own)
  covered : own.tables.CoveredBy (Cache.TableOf store others) cache.tables

/-- A run that shares a cache is on the way to a result of its profile alone, or of its profile respelled. -/
def Follows (store : FileStore) (others : List Profile) (cache : Cache) (p : Profile) : Stage → Prop
  | .registry _ =>
    Cache.empty.registries.CoveredBy (Cache.RegistryOf store others) cache.registries ∧
      Cache.empty.tables.CoveredBy (Cache.TableOf store others) cache.tables
  | .tables document signatures read path left fetching =>
    ∃ p' own, p.Reads store others cache document signatures read (path :: left) p' own ∧
      fetching.Fresh path.parts own.tables
  | .finished result =>
    ∃ p', p.Respelled store others p' ∧ (p' = p ∨ p.Misses store) ∧ result = (p'.run store .empty).1

theorem Reads.run_eq {document : Registry} {signatures : List Signature} {read : List TypeTable} {left : List Path}
    (h : p.Reads store others cache document signatures read left p' own) :
    (p'.run store .empty).1 = (own.tablesIn store left).1 >>= fun more =>
      p.conclude document signatures (read ++ more) := by
  obtain ⟨done, hpaths, hdone⟩ := h.tablesRead
  rw [run_alone_eq, h.respelled.selection, h.respelled.maxVersion, h.respelled.conclude, h.registryRead, hpaths,
    Cache.tablesIn_append hdone]
  dsimp only [bind, Except.bind]
  rw [h.signaturesRead]
  cases (own.tablesIn store left).1 <;> rfl

theorem Reads.follows {document : Registry} {signatures : List Signature} {read : List TypeTable}
    {left : List Path} (h : p.Reads store others cache document signatures read left p' own) :
    p.Follows store others cache (p.afterTables document signatures read left) := by
  cases left with
  | nil =>
    refine ⟨p', h.respelled, h.misses, ?_⟩
    rw [h.run_eq, Cache.tablesIn]
    dsimp only [bind, Except.bind]
    rw [List.append_nil]
  | cons path left => exact ⟨p', own, h, trivial⟩

/-! ## One step -/

theorem follows_afterRegistry {document : Registry} (hrespelled : p.Respelled store others p')
    (hmisses : p' = p ∨ p.Misses store) (hpaths : p'.typeTables = p.typeTables)
    (hread : Registry.read store p'.registry p.selection = .ok document)
    (hcovered : Cache.empty.tables.CoveredBy (Cache.TableOf store others) cache.tables) :
    p.Follows store others cache (p.afterRegistry document) := by
  unfold afterRegistry
  split
  · rename_i fault hsignatures
    refine ⟨p', hrespelled, hmisses, ?_⟩
    rw [run_alone_eq, hrespelled.selection, hrespelled.maxVersion, hread]
    dsimp only [bind, Except.bind]
    rw [hsignatures]
  · rename_i signatures hsignatures
    exact Reads.follows ⟨hrespelled, hmisses, hread, hsignatures, ⟨[], hpaths, rfl⟩, hcovered⟩

theorem follows_registry {fetching : Fetching Registry}
    (h : p.Follows store others cache (.registry fetching)) (hcache : cache.Sourced store)
    (hback : (Stage.registry fetching).Backed store p) :
    p.Follows store others (p.advance store cache (.registry fetching)).2
      (p.advance store cache (.registry fetching)).1 := by
  obtain ⟨hregistries, htables⟩ := h
  have hfresh : fetching.Fresh (p.registry.parts, p.selection) Cache.empty.registries := by
    cases fetching <;> first | trivial | exact List.not_mem_nil
  unfold advance
  dsimp only
  cases hstep : cache.registries.advance (p.registry.parts, p.selection)
    (Registry.read store p.registry p.selection) fetching with
  | mk progress after =>
    cases progress with
    | pending next => exact ⟨(hregistries.of_pending hfresh hstep).2, htables⟩
    | failed fault =>
      obtain ⟨hfault, -⟩ := Shelf.fetch_of_failed hfresh hstep
      refine ⟨p, .refl store others p, .inl rfl, ?_⟩
      rw [run_alone_eq, hfault]
      rfl
    | done document =>
      obtain ⟨load, kept, hfetch, rfl, -, hload⟩ := hregistries.of_done hfresh hback nofun
        (fun document hread => ⟨p.registry, rfl, hread⟩)
        (fun kept document hkept hmine => (hcache.registries _ (Shelf.mem_of_kept? hkept)).unique hmine) hstep
      have hok : load = .ok kept.value :=
        (Shelf.fetch_eq_ok (congrArg Prod.fst hfetch)).resolve_left List.not_mem_nil
      rcases hload with hload | ⟨-, ⟨q, hq, hkey, hread⟩, fault, hfault, -⟩
      · exact follows_afterRegistry (.refl store others p) (.inl rfl) rfl (hload.symm.trans hok) htables
      · obtain ⟨hparts, hselection⟩ := Prod.mk.inj hkey
        rw [hselection] at hread
        obtain ⟨hrespelling, rfl⟩ := FileStore.respelling_of_readAs hparts hread hfault
        have hrespelled : p.Respelled store others { p with registry := q.registry } :=
          ⟨rfl, .inr ⟨hrespelling, q, hq, hselection, rfl⟩, (Respelled.refl store others p).typeTables⟩
        have hmisses : p.Misses store := by
          refine ⟨p.registry, ?_⟩
          rw [run_alone_eq, hfault]
          rfl
        exact follows_afterRegistry hrespelled (.inr hmisses) rfl hread htables

/-- One more table is read, of `p''` as it would be read alone. -/
theorem Reads.table {p'' : Profile} {document : Registry} {signatures : List Signature} {read : List TypeTable}
    {path : Path} {left : List Path} (h : p.Reads store others cache document signatures read (path :: left) p' own)
    {done : List Path} (hdone : Cache.empty.tablesIn store done = (.ok read, own)) {other : Path}
    (hrespelled : p.Respelled store others p'') (hmisses : p'' = p ∨ p.Misses store)
    (hregistry : p''.registry = p'.registry) (hpaths : p''.typeTables = done ++ other :: left)
    {kept : Kept TypeTable} {mine after : Shelf Path.Parts TypeTable}
    (hfetch : own.tables.fetch other.parts (TypeTable.read store other) = (.ok kept, mine))
    (hcovered : mine.CoveredBy (Cache.TableOf store others) after) :
    p.Reads store others { cache with tables := after } document signatures (read ++ [kept.value]) left p''
      { own with tables := mine } := by
  have htable : own.table store other = (.ok kept, { own with tables := mine }) := by
    unfold Cache.table
    rw [hfetch]
  refine ⟨hrespelled, hmisses, by rw [hregistry]; exact h.registryRead, h.signaturesRead, ⟨done ++ [other], ?_, ?_⟩,
    hcovered⟩
  · rw [hpaths, List.append_assoc]
    rfl
  · rw [Cache.tablesIn_append hdone, Cache.tablesIn, htable]
    rfl

theorem follows_tables {document : Registry} {signatures : List Signature} {read : List TypeTable} {path : Path}
    {left : List Path} {fetching : Fetching TypeTable}
    (h : p.Follows store others cache (.tables document signatures read path left fetching))
    (hcache : cache.Sourced store) (hback : fetching.Backed (TypeTable.read store path)) :
    p.Follows store others (p.advance store cache (.tables document signatures read path left fetching)).2
      (p.advance store cache (.tables document signatures read path left fetching)).1 := by
  obtain ⟨p', own, hreads, hfresh⟩ := h
  obtain ⟨done, hpaths, hdone⟩ := hreads.tablesRead
  have hown : own.tables.From (TypeTable.Source store) := by
    have hempty : Cache.empty.tables.From (TypeTable.Source store) := nofun
    have htables := Cache.tables_tablesIn hempty done
    rwa [hdone] at htables
  unfold advance
  dsimp only
  cases hstep : cache.tables.advance path.parts (TypeTable.read store path) fetching with
  | mk progress after =>
    cases progress with
    | pending next =>
      obtain ⟨hnext, hcovered⟩ := hreads.covered.of_pending hfresh hstep
      exact ⟨p', own, { hreads with covered := hcovered }, hnext⟩
    | failed fault =>
      obtain ⟨-, hfault⟩ := Shelf.fetch_of_failed hfresh hstep
      have htable : (own.table store path).1 = .error fault := hfault
      refine ⟨p', hreads.respelled, hreads.misses, ?_⟩
      rw [hreads.run_eq, Cache.tablesIn_cons, htable]
      rfl
    | done table =>
      obtain ⟨load, kept, hfetch, rfl, hcovered, hload⟩ := hreads.covered.of_done hfresh hback hown
        (fun table hread => ⟨path, rfl, hread⟩)
        (fun kept table hkept hmine => (hcache.tables _ (Shelf.mem_of_kept? hkept)).unique hmine) hstep
      rcases hload with rfl | ⟨rfl, ⟨q, hq, other, hother, hparts, hread⟩, fault, hfault, hmine⟩
      · exact (hreads.table hdone hreads.respelled hreads.misses rfl hpaths hfetch hcovered).follows
      · obtain ⟨hrespelling, rfl⟩ := FileStore.respelling_of_readAs hparts hread hfault
        rw [← hread, ← hparts] at hfetch
        refine (hreads.table hdone (hreads.respelled.table hpaths hrespelling ⟨q, hq, hother⟩) ?_ rfl rfl hfetch
          (by rwa [hread, hparts])).follows
        -- alone, the first path that is respelled is not found
        rcases hreads.misses with rfl | hmisses
        · have htable : (own.table store path).1 = .error (.documentNotFound path) := hmine
          refine .inr ⟨path, ?_⟩
          rw [hreads.run_eq, Cache.tablesIn_cons, htable]
          rfl
        · exact .inr hmisses

/-- A run that takes a step among others is on its way still. -/
theorem Follows.advance {stage : Stage} (h : p.Follows store others cache stage) (hcache : cache.Sourced store)
    (hback : stage.Backed store p) :
    p.Follows store others (p.advance store cache stage).2 (p.advance store cache stage).1 := by
  cases stage with
  | registry fetching => exact follows_registry h hcache hback
  | tables document signatures read path left fetching => exact follows_tables h hcache hback.2
  | finished result => exact h

/-- So is every other run. -/
theorem Follows.advance_other {q : Profile} {stage turn : Stage} (h : p.Follows store others cache stage)
    (hq : q ∈ others) (hback : turn.Backed store q) :
    p.Follows store others (q.advance store cache turn).2 stage := by
  have hregistries : ∀ {own : Shelf (Path.Parts × Selection) Registry},
      own.CoveredBy (Cache.RegistryOf store others) cache.registries →
      own.CoveredBy (Cache.RegistryOf store others) (q.advance store cache turn).2.registries := by
    intro own hown
    cases turn with
    | registry fetching => exact hown.advance_other hback fun document hread => ⟨q, hq, rfl, hread⟩
    | _ => exact hown
  have htables : ∀ {own : Shelf Path.Parts TypeTable}, own.CoveredBy (Cache.TableOf store others) cache.tables →
      own.CoveredBy (Cache.TableOf store others) (q.advance store cache turn).2.tables := by
    intro own hown
    cases turn with
    | tables document signatures read path left fetching =>
      exact hown.advance_other hback.2 fun table hread => ⟨q, hq, path, hback.1 path (.head left), rfl, hread⟩
    | _ => exact hown
  cases stage with
  | registry fetching => exact ⟨hregistries h.1, htables h.2⟩
  | tables document signatures read path left fetching =>
    obtain ⟨p', own, hreads, hfresh⟩ := h
    exact ⟨p', own, { hreads with covered := htables hreads.covered }, hfresh⟩
  | finished result => exact h

end Profile
end ApiProfile
