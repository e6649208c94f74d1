import ApiProfile.Proofs.Profile.Findings
import ApiProfile.Proofs.Registry.Faults
/-!
# How a profile fails

A run over an empty cache fails with the first fault that it meets: of the registry's document, of the first type
without a base name among the commands that are alive, of the first type table, or of all types that no table
has under the strict policy. `run_eq_error_iff` says so, and what each of them looks like: a file is named once, a line
at most once and inside of its file. A path that spells an earlier one otherwise is not read again, so it
cannot fail (`run_passes_respelled`).
-/

namespace ApiProfile

variable {ε α β : Type}

/-! ## Files -/

/-- What a file is reported with when it cannot be read: that it is not there, or a fault inside of it. -/
inductive Failure.OfFile (path : Path) : Failure → Prop
  | missing : OfFile path (.documentNotFound path)
  | inside {cause : Failure} (h : cause.OfText) : OfFile path (.inFile path cause)

theorem FileStore.ofFile_of_readAs {store : FileStore} {parse : String → Except Failure α} {path : Path}
    {fault : Failure} (hparse : ∀ text cause, parse text = .error cause → cause.OfText)
    (h : store.readAs parse path = .error fault) : fault.OfFile path := by
  rcases bind_eq_error.1 h with h | ⟨text, -, h⟩
  · unfold readDocument at h
    split at h
    · cases h
      exact .missing
    · split at h <;> cases h
      exact .inside (.fault rfl)
  · cases hcause : parse text with
    | ok value =>
      rw [hcause] at h
      cases h
    | error cause =>
      have hplace := hparse text cause hcause
      rw [hcause] at h
      cases h
      have hlabelled : cause.inFileOnce path = .inFile path cause := by
        cases hplace with
        | fault hplain => cases cause <;> first | rfl | cases hplain
        | atLine line hplain => rfl
      rw [hlabelled]
      exact .inside hplace

theorem Registry.ofFile_of_read {store : FileStore} {path : Path} {selection : Selection} {fault : Failure}
    (h : Registry.read store path selection = .error fault) : fault.OfFile path :=
  FileStore.ofFile_of_readAs (fun _ _ => ofText_of_ofDocument) h

theorem TypeTable.ofFile_of_read {store : FileStore} {path : Path} {fault : Failure}
    (h : TypeTable.read store path = .error fault) : fault.OfFile path :=
  FileStore.ofFile_of_readAs (fun _ _ => ofText_of_parse) h

/-! ## Types -/

/-- Whether a text has a word that names the base of a type. -/
def CType.hasBase (text : String) : Bool :=
  baseWords (splitArray (Text.trim text.toList)).1 ≠ []

theorem CType.fault?_parse (text : String) :
    fault? (parse text) = if hasBase text then none else some (.emptyType text) := by
  unfold parse hasBase
  generalize splitArray (Text.trim text.toList) = pieces
  obtain ⟨body, isArray⟩ := pieces
  dsimp only
  cases baseWords body <;> rfl

/-- The texts of a command's types: those of its parameters, then that of its result. -/
def Command.typeTexts (command : Command) : List String :=
  command.parameters.map (·.type.text) ++ [command.result.text]

/-- The texts of the types of all commands, in the order of their keys. -/
def Registry.typeTexts (r : Registry) : List String :=
  r.commands.values.flatMap Command.typeTexts

theorem fault?_bind_pure (x : Except ε α) (f : α → β) : fault? (x >>= fun a => .ok (f a)) = fault? x := by
  cases x <;> rfl

theorem findSome?_flatMap {γ : Type} (l : List α) (g : α → List β) (f : β → Option γ) :
    (l.flatMap g).findSome? f = l.findSome? fun a => (g a).findSome? f := by
  induction l with
  | nil => rfl
  | cons a l ih =>
    rw [List.flatMap_cons, List.findSome?_append, List.findSome?_cons, ih]
    cases (g a).findSome? f <;> rfl

theorem DeclaredType.fault?_read (type : DeclaredType) : fault? type.read = fault? (CType.parse type.text) := by
  unfold DeclaredType.read
  cases CType.parse type.text <;> rfl

theorem DeclaredParameter.fault?_read (p : DeclaredParameter) : fault? p.read = fault? (CType.parse p.type.text) := by
  rw [← p.type.fault?_read]
  unfold DeclaredParameter.read
  cases p.type.read <;> rfl

theorem Command.fault?_signature (command : Command) :
    fault? command.signature = command.typeTexts.findSome? fun text => fault? (CType.parse text) := by
  have hparameters := fault?_mapM DeclaredParameter.read command.parameters
  simp only [DeclaredParameter.fault?_read] at hparameters
  unfold Command.signature Command.typeTexts
  rw [List.findSome?_append, List.findSome?_map, Function.comp_def, List.findSome?_singleton,
    ← DeclaredType.fault?_read, ← hparameters]
  cases command.parameters.mapM DeclaredParameter.read with
  | error fault => rfl
  | ok parameters => cases command.result.read <;> rfl

theorem Registry.fault?_signatures (r : Registry) :
    fault? r.signatures = r.typeTexts.findSome? fun text => fault? (CType.parse text) := by
  unfold signatures typeTexts
  rw [fault?_mapM, findSome?_flatMap]
  simp only [Command.fault?_signature]

/-- The first type without a base name is the fault of a registry. -/
theorem Registry.signatures_eq_error_iff {r : Registry} {fault : Failure} :
    r.signatures = .error fault ↔ ∃ before text after, r.typeTexts = before ++ text :: after ∧
      (∀ t ∈ before, CType.hasBase t) ∧ CType.hasBase text = false ∧ fault = .emptyType text := by
  rw [← fault?_eq_some, fault?_signatures, List.findSome?_eq_some_iff]
  simp only [CType.fault?_parse]
  constructor
  · rintro ⟨before, text, after, htexts, htext, hbefore⟩
    refine ⟨before, text, after, htexts, fun t ht => ?_, ?_⟩
    · by_contra hbase
      have hnone := hbefore t ht
      rw [if_neg hbase] at hnone
      cases hnone
    · split at htext <;> cases htext
      rename_i hbase
      exact ⟨by simpa using hbase, rfl⟩
  · rintro ⟨before, text, after, htexts, hbefore, htext, rfl⟩
    exact ⟨before, text, after, htexts, by rw [htext]; rfl, fun t ht => by rw [hbefore t ht]; rfl⟩

/-! ## Type tables -/

/-- Each path once, in its first spelling: the files that are read. -/
def firstSpellings (paths : List Path) : List Path :=
  paths.eraseDupsBy fun path first => path.parts == first.parts

theorem Cache.fault?_tablesIn (store : FileStore) (cache : Cache) (paths : List Path) :
    fault? (cache.tablesIn store paths).1 =
      (firstSpellings (paths.filter fun path => (cache.tables.kept? path.parts).isNone)).findSome? fun path =>
        fault? (TypeTable.read store path) := by
  induction paths generalizing cache with
  | nil => rfl
  | cons path paths ih =>
    have hrest := ih (cache.table store path).2
    have hsnd : (cache.table store path).2.tables = (cache.tables.fetch path.parts (TypeTable.read store path)).2 := rfl
    have hfst : (cache.table store path).1 = (cache.tables.fetch path.parts (TypeTable.read store path)).1 := rfl
    rw [tablesIn_cons, hfst]
    rw [hsnd] at hrest
    rcases cache.tables.fetch_cases path.parts (TypeTable.read store path) with ⟨kept, hkept, heq⟩ |
      ⟨fault, hkept, hload, heq⟩ | ⟨kept, hkept, hload, heq⟩
    · rw [heq] at hrest ⊢
      rw [List.filter_cons_of_neg (by simp [hkept]), ← hrest]
      exact fault?_bind_pure _ _
    · rw [heq, List.filter_cons_of_pos (by simp [hkept])]
      unfold firstSpellings
      rw [List.eraseDupsBy_cons, List.findSome?_cons, hload]
      rfl
    · rw [heq] at hrest ⊢
      rw [List.filter_cons_of_pos (by simp [hkept])]
      unfold firstSpellings at hrest ⊢
      have hfilter : (paths.filter fun q => (cache.tables.kept? q.parts).isNone).filter
          (fun q => decide ((q.parts == path.parts) = false)) =
          paths.filter fun q => (Shelf.kept? ⟨cache.tables.entries ++ [(path.parts, kept)],
            cache.tables.nextSerial + 1⟩ q.parts).isNone := by
        rw [List.filter_filter]
        refine List.filter_congr fun q _ => ?_
        rw [Shelf.kept?_append]
        cases cache.tables.kept? q.parts <;> cases q.parts == path.parts <;> rfl
      rw [List.eraseDupsBy_cons, List.findSome?_cons, hload, hfilter]
      exact (fault?_bind_pure _ _).trans hrest

theorem Cache.tablesIn_eq_error_iff {store : FileStore} {paths : List Path} {fault : Failure} :
    (Cache.empty.tablesIn store paths).1 = .error fault ↔
      ∃ before path after, firstSpellings paths = before ++ path :: after ∧
        (∀ q ∈ before, ∃ t, TypeTable.read store q = .ok t) ∧ TypeTable.read store path = .error fault := by
  have hall : paths.filter (fun path => (Cache.empty.tables.kept? path.parts).isNone) = paths :=
    List.filter_eq_self.2 fun _ _ => rfl
  rw [← fault?_eq_some, fault?_tablesIn, hall, List.findSome?_eq_some_iff]
  simp only [fault?_eq_some, fault?_eq_none, and_comm]

/-! ## Types that no table has -/

/-- The types in signatures that none of the tables has, each once. -/
def unmappedTypes (tables : List TypeTable) (signatures : List Signature) : List String :=
  (((signatures.flatMap Signature.uses).filter fun use => ∀ t ∈ tables, ¬t.knows use.name).map (·.name)).eraseDups

theorem representAll_eq_error_iff {tables : List TypeTable} {policy : UnmappedPolicy} {signatures : List Signature}
    {fault : Failure} :
    (TypeTable.chain tables).representAll policy signatures = .error fault ↔
      policy = .strict ∧ unmappedTypes tables signatures ≠ [] ∧
        fault = .unmappedTypes (unmappedTypes tables signatures) := by
  have hitems := Profile.foldl_noteUnmapped_chain tables signatures
  have hsubjects : ((signatures.foldl (Signature.noteUnmapped (TypeTable.chain tables)) .empty).withCode
      .unmappedType).map (·.subject) = unmappedTypes tables signatures := by
    unfold Diagnostics.withCode
    rw [hitems]
    exact subjects_findingsOfUses _
  unfold TypeTable.representAll
  dsimp only
  rw [hsubjects]
  by_cases h : policy = .strict ∧ unmappedTypes tables signatures ≠ []
  · rw [if_pos h]
    exact ⟨fun heq => ⟨h.1, h.2, (Except.error.inj heq).symm⟩, fun heq => by rw [heq.2.2]⟩
  · rw [if_neg h]
    exact ⟨nofun, fun heq => absurd ⟨heq.1, heq.2.1⟩ h⟩

namespace Profile

/-! ## Runs -/

/-- How a run over an empty cache fails. Each way presumes that what comes before it goes well. -/
inductive FailsWith (store : FileStore) (p : Profile) : Failure → Prop
  /-- The document cannot be read. -/
  | document {fault : Failure} (h : Registry.read store p.registry p.selection = .error fault)
      (hfile : fault.OfFile p.registry) : FailsWith store p fault
  /-- A type of a command that is alive has no base name, and it is the first one. -/
  | type {document : Registry} {before after : List String} {text : String}
      (hdocument : Registry.read store p.registry p.selection = .ok document)
      (htexts : (document.resolve p.maxVersion).typeTexts = before ++ text :: after)
      (hbefore : ∀ t ∈ before, CType.hasBase t) (htext : CType.hasBase text = false)
      (halive : ∃ name command, document.commands.get? name = some command ∧ text ∈ command.typeTexts ∧
        document.LastAdded p.maxVersion ⟨name, .command⟩) :
      FailsWith store p (.emptyType text)
  /-- A type table cannot be read, and it is the first one. -/
  | table {document : Registry} {before after : List Path} {path : Path} {fault : Failure}
      (hdocument : Registry.read store p.registry p.selection = .ok document)
      (htypes : ∀ text ∈ (document.resolve p.maxVersion).typeTexts, CType.hasBase text)
      (hpaths : firstSpellings p.typeTables = before ++ path :: after)
      (hbefore : ∀ q ∈ before, ∃ t, TypeTable.read store q = .ok t) (h : TypeTable.read store path = .error fault)
      (hfile : fault.OfFile path) : FailsWith store p fault
  /-- Types have no entry in any table. -/
  | unmapped {document : Registry} {signatures : List Signature} {tables : List TypeTable}
      (hdocument : Registry.read store p.registry p.selection = .ok document)
      (hsignatures : (document.resolve p.maxVersion).signatures = .ok signatures)
      (htables : (Cache.empty.tablesIn store p.typeTables).1 = .ok tables) (hstrict : p.unmapped = .strict)
      (hne : unmappedTypes tables signatures ≠ []) (hnodup : (unmappedTypes tables signatures).Nodup) :
      FailsWith store p (.unmappedTypes (unmappedTypes tables signatures))

theorem registry_empty (store : FileStore) (path : Path) (selection : Selection) :
    (Cache.empty.registry store path selection).1 = (Registry.read store path selection).map fun r => ⟨r, 0⟩ := by
  rw [Cache.registry_fst]
  unfold Shelf.fetch
  rw [show Cache.empty.registries.kept? (path.parts, selection) = none from rfl]
  cases Registry.read store path selection <;> rfl

/-- A run over an empty cache, with the registry before its groups are pruned: pruning leaves the commands. -/
theorem run_empty_eq (store : FileStore) (p : Profile) :
    (p.run store .empty).1 = (do
      let document ← Registry.read store p.registry p.selection
      let signatures ← (document.resolve p.maxVersion).signatures
      let tables ← (Cache.empty.tablesIn store p.typeTables).1
      let (represented, findings) ← (TypeTable.chain tables).representAll p.unmapped signatures
      return p.model document represented findings) := by
  rw [run_eq, registry_empty, Cache.chain_eq_map]
  cases Registry.read store p.registry p.selection with
  | error fault => rfl
  | ok document => cases (Cache.empty.tablesIn store p.typeTables).1 <;> rfl

theorem exists_alive_of_mem_typeTexts {document : Registry} {limit : Option Version} {text : String}
    (h : text ∈ (document.resolve limit).typeTexts) :
    ∃ name command, document.commands.get? name = some command ∧ text ∈ command.typeTexts ∧
      document.LastAdded limit ⟨name, .command⟩ := by
  obtain ⟨command, hcommand, htext⟩ := List.mem_flatMap.1 h
  obtain ⟨name, hget⟩ := (Table.mem_values_iff _).1 hcommand
  rw [Registry.resolve_eq, Table.get?_filter_eq_some, decide_eq_true_iff] at hget
  exact ⟨name, command, hget.1, htext, hget.2⟩

theorem fault?_signatures_eq_none {r : Registry} :
    fault? r.signatures = none ↔ ∀ text ∈ r.typeTexts, CType.hasBase text := by
  rw [Registry.fault?_signatures, List.findSome?_eq_none_iff]
  refine forall₂_congr fun text _ => ?_
  rw [CType.fault?_parse]
  split <;> simp [*]

/-- A run over an empty cache fails as `FailsWith` says, and in no other way. -/
theorem run_eq_error_iff (store : FileStore) (p : Profile) (fault : Failure) :
    (p.run store .empty).1 = .error fault ↔ FailsWith store p fault := by
  rw [run_empty_eq]
  constructor
  · intro h
    rcases bind_eq_error.1 h with h | ⟨document, hdocument, h⟩
    · exact .document h (Registry.ofFile_of_read h)
    rcases bind_eq_error.1 h with h | ⟨signatures, hsignatures, h⟩
    · obtain ⟨before, text, after, htexts, hbefore, htext, rfl⟩ := Registry.signatures_eq_error_iff.1 h
      exact .type hdocument htexts hbefore htext (exists_alive_of_mem_typeTexts (by simp [htexts]))
    rcases bind_eq_error.1 h with h | ⟨tables, htables, h⟩
    · obtain ⟨before, path, after, hpaths, hbefore, h⟩ := Cache.tablesIn_eq_error_iff.1 h
      exact .table hdocument (fault?_signatures_eq_none.1 (fault?_eq_none.2 ⟨_, hsignatures⟩)) hpaths hbefore h
        (TypeTable.ofFile_of_read h)
    rcases bind_eq_error.1 h with h | ⟨represented, hrepresented, h⟩
    · obtain ⟨hstrict, hne, rfl⟩ := representAll_eq_error_iff.1 h
      exact .unmapped hdocument hsignatures htables hstrict hne (nodup_eraseDups _)
    · cases h
  · intro h
    cases h with
    | document h _ => rw [h]; rfl
    | type hdocument htexts hbefore htext _ =>
      refine bind_eq_error.2 (.inr ⟨_, hdocument, bind_eq_error.2 (.inl ?_)⟩)
      exact Registry.signatures_eq_error_iff.2 ⟨_, _, _, htexts, hbefore, htext, rfl⟩
    | table hdocument htypes hpaths hbefore h _ =>
      obtain ⟨signatures, hsignatures⟩ := fault?_eq_none.1 (fault?_signatures_eq_none.2 htypes)
      refine bind_eq_error.2 (.inr ⟨_, hdocument, bind_eq_error.2 (.inr ⟨signatures, hsignatures, ?_⟩)⟩)
      exact bind_eq_error.2 (.inl (Cache.tablesIn_eq_error_iff.2 ⟨_, _, _, hpaths, hbefore, h⟩))
    | unmapped hdocument hsignatures htables hstrict hne _ =>
      refine bind_eq_error.2 (.inr ⟨_, hdocument, bind_eq_error.2 (.inr ⟨_, hsignatures, ?_⟩)⟩)
      refine bind_eq_error.2 (.inr ⟨_, htables, bind_eq_error.2 (.inl ?_)⟩)
      exact representAll_eq_error_iff.2 ⟨hstrict, hne, rfl⟩

/-- A type table under two spellings, of which the second leads to no file, and one that is missing. -/
def respelledProfile : Profile :=
  ⟨"respelled", ⟨"gl", none⟩, none, ⟨"gl.xml"⟩, [⟨"types"⟩, ⟨"types/"⟩, ⟨"missing"⟩], .strict⟩

def respelledFiles : FileStore :=
  ⟨[], [(["gl.xml"], .file "<registry/>".toUTF8), (["types"], .file "GLenum, u32".toUTF8)]⟩

theorem run_passes_respelled :
    (∃ t, TypeTable.read respelledFiles ⟨"types"⟩ = .ok t) ∧
      TypeTable.read respelledFiles ⟨"types/"⟩ = .error (.documentNotFound ⟨"types/"⟩) ∧
      (respelledProfile.run respelledFiles .empty).1 = .error (.documentNotFound ⟨"missing"⟩) := by
  refine ⟨fault?_eq_none.1 ?_, ?_, ?_⟩
  · decide +kernel
  · decide +kernel
  · decide +kernel

end Profile
end ApiProfile
