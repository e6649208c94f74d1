import ApiProfile.Profile.Run
import ApiProfile.Proofs.Markup.Building
import ApiProfile.Proofs.Profile.Cache
import ApiProfile.Proofs.Registry.Keyed
import ApiProfile.Proofs.TypeTable.Chain
/-!
# What a profile's model holds

A run passes a registry through five stages: it is read, cut down to what is alive, its groups are
pruned, the types of its commands are read, and these are rewritten by the chain of type tables.
`run_coherent` says what generators may rely on at the end: groups name live constants only, entries
are stored under their own names, and the signatures are those of the commands left, one by one.
-/

namespace ApiProfile

/-! ## Signatures -/

/-- A declared type as a model has it: its text read and rewritten by a table, under the same group. -/
structure Represents (t : TypeTable) (declared : DeclaredType) (grouped : GroupedType) : Prop where
  type : ∃ read, CType.parse declared.text = .ok read ∧ grouped.type = t.rewrite read
  group : grouped.group = declared.group

/-- A declared parameter as a model has it. -/
structure RepresentsParameter (t : TypeTable) (declared : DeclaredParameter) (p : Parameter) : Prop where
  name : p.name = declared.name
  type : Represents t declared.type p.type
  flow : p.flow = Flow.ofText declared.type.text

/-- A command as a model has it: its parameters in order, each with its type and flow. -/
structure RepresentsCommand (t : TypeTable) (command : Command) (s : Signature) : Prop where
  name : s.name = command.name
  result : Represents t command.result s.result
  parameters : List.Forall₂ (RepresentsParameter t) command.parameters s.parameters

theorem represents_of_read {declared : DeclaredType} {grouped : GroupedType} (h : declared.read = .ok grouped)
    (t : TypeTable) : Represents t declared (t.representGrouped grouped) := by
  obtain ⟨read, hread, h⟩ := bind_eq_ok.1 h
  cases h
  exact ⟨⟨read, hread, t.getD_map? read⟩, rfl⟩

theorem representsParameter_of_read {declared : DeclaredParameter} {p : Parameter} (h : declared.read = .ok p)
    (t : TypeTable) : RepresentsParameter t declared { p with type := t.representGrouped p.type } := by
  obtain ⟨grouped, hgrouped, h⟩ := bind_eq_ok.1 h
  cases h
  exact ⟨rfl, represents_of_read hgrouped t, rfl⟩

theorem representsCommand_of_signature {command : Command} {s : Signature} (h : command.signature = .ok s)
    (t : TypeTable) : RepresentsCommand t command (s.represent t) := by
  obtain ⟨parameters, hparameters, h⟩ := bind_eq_ok.1 h
  obtain ⟨result, hresult, h⟩ := bind_eq_ok.1 h
  cases h
  refine ⟨rfl, represents_of_read hresult t, List.forall₂_map_right_iff.2 ?_⟩
  exact (mapM_eq_ok.1 hparameters).imp fun _ _ h => representsParameter_of_read h t

theorem represented_of_representAll {t : TypeTable} {policy : UnmappedPolicy}
    {signatures represented : List Signature} {findings : Diagnostics}
    (h : t.representAll policy signatures = .ok (represented, findings)) :
    represented = signatures.map (·.represent t) := by
  unfold TypeTable.representAll at h
  dsimp only at h
  split at h
  · cases h
  · cases h
    rfl

theorem representsCommand_all {r : Registry} {signatures : List Signature} (h : r.signatures = .ok signatures)
    (t : TypeTable) :
    List.Forall₂ (RepresentsCommand t) r.commands.values (signatures.map (·.represent t)) :=
  List.forall₂_map_right_iff.2 ((mapM_eq_ok.1 h).imp fun _ _ h => representsCommand_of_signature h t)

/-! ## Runs -/

namespace Profile

/-- A run as a chain of steps; the registry's step leaves the tables that the chain is made from. -/
theorem run_eq (store : FileStore) (cache : Cache) (p : Profile) :
    (p.run store cache).1 = (do
      let document ← (cache.registry store p.registry p.selection).1
      let signatures ← (prunedRegistry p.maxVersion document.value).signatures
      let table ← (cache.chain store p.typeTables).1
      let (represented, findings) ← table.representAll p.unmapped signatures
      return p.model document.value represented findings) := by
  rw [← Cache.chain_congr (cache.tables_registry store p.registry p.selection)]
  unfold run
  split <;> rename_i hdocument <;> rw [hdocument]
  · rfl
  · dsimp only [bind, Except.bind]
    split <;> rename_i hsignatures <;> rw [hsignatures]
    split <;> rename_i hchain <;> dsimp only <;> rw [hchain]
    split <;> rename_i hrepresented <;> dsimp only <;> rw [hrepresented]
    rfl

end Profile

/-! ## Coherence -/

/-- What generators may rely on in a model whose types were represented by a table. -/
structure ProfileModel.Coherent (table : TypeTable) (model : ProfileModel) : Prop where
  live : ∀ key group, model.registry.groups.get? key = some group →
    group.members.names ≠ [] ∧ ∀ member ∈ group.members, member ∈ model.registry.constants.keys
  keyed : model.registry.Keyed
  names : model.signatures.map (·.name) = model.registry.commands.keys
  ascending : model.signatures.Pairwise (·.name < ·.name)
  represented : List.Forall₂ (RepresentsCommand table) model.registry.commands.values model.signatures

theorem names_of_represents {table : TypeTable} {commands : Table Command} {signatures : List Signature}
    (hcommands : commands.Keyed Command.name)
    (h : List.Forall₂ (RepresentsCommand table) commands.values signatures) :
    signatures.map (·.name) = commands.keys := by
  have hall : List.Forall₂ (· = ·) (signatures.map (·.name)) (commands.values.map (·.name)) := by
    rw [List.forall₂_map_left_iff, List.forall₂_map_right_iff]
    exact h.flip.imp fun _ _ h => h.name
  rw [List.forall₂_eq_eq_eq] at hall
  rw [hall, hcommands.map_values]

/-- A run that succeeds, over any cache that calls lead to, gives a coherent model. -/
theorem Profile.run_coherent {store : FileStore} {cache : Cache} {p : Profile} {model : ProfileModel}
    (hcache : cache.Reached) (h : (p.run store cache).1 = .ok model) :
    ∃ table, (cache.chain store p.typeTables).1 = .ok table ∧ model.Coherent table := by
  rw [run_eq] at h
  obtain ⟨document, hdocument, h⟩ := bind_eq_ok.1 h
  obtain ⟨signatures, hsignatures, h⟩ := bind_eq_ok.1 h
  obtain ⟨table, htable, h⟩ := bind_eq_ok.1 h
  obtain ⟨⟨represented, findings⟩, hrepresented, h⟩ := bind_eq_ok.1 h
  cases h
  cases represented_of_representAll hrepresented
  -- a registry kept since an earlier call was read from some document then
  obtain ⟨text, htext⟩ := hcache.exists_document hdocument
  have hkeyed : (prunedRegistry p.maxVersion document.value).Keyed :=
    ((Registry.keyed_ofDocument htext).resolve p.maxVersion).pruneGroups
  have hrepresents := representsCommand_all hsignatures table
  have hnames := names_of_represents hkeyed.commands hrepresents
  refine ⟨table, htable, ⟨fun key group => Registry.live_of_get?_pruneGroups, hkeyed, hnames, ?_, hrepresents⟩⟩
  refine List.pairwise_map.1 ?_
  dsimp only [Profile.model]
  rw [hnames]
  exact Table.ascending_keys _

/-- One command and two constants, of which the only feature adds one. -/
def blendDocument : String :=
  "<registry>
    <enums><enum name='GL_ZERO' value='0'/><enum name='GL_ONE' value='1'/></enums>
    <groups><group name='Factor'><enum name='GL_ZERO'/><enum name='GL_ONE'/></group></groups>
    <commands><command><proto>void <name>glBlend</name></proto>
      <param group='Factor'>const <ptype>GLenum</ptype> *<name>factor</name></param></command></commands>
    <feature api='gl' number='1.0'><require><enum name='GL_ZERO'/><command name='glBlend'/></require></feature>
  </registry>"

def blendFiles : FileStore :=
  ⟨[], [(["gl.xml"], .file blendDocument.toUTF8), (["types"], .file "GLenum, u32".toUTF8)]⟩

def blendProfile : Profile :=
  ⟨"blend", ⟨"gl", none⟩, none, ⟨"gl.xml"⟩, [⟨"types"⟩], .lenient⟩

set_option maxRecDepth 10000 in
theorem Profile.run_coherent_blend :
    ∃ model table, (blendProfile.run blendFiles .empty).1 = .ok model ∧
      (Cache.empty.chain blendFiles blendProfile.typeTables).1 = .ok table ∧
      model.Coherent table ∧ model.signatures.map (·.name) = ["glBlend"] := by
  have hfile : blendFiles.file? blendProfile.registry = some blendDocument.toUTF8 := rfl
  have hnames : (blendProfile.run blendFiles .empty).1.map (·.signatures.map (·.name)) = .ok ["glBlend"] := by
    rw [run_eq, Cache.registry_fst, Registry.read_of_file _ hfile]
    unfold Registry.ofDocument
    -- the characters are spelled out, since evaluation is slow at finding them in a literal
    rw [Markup.Element.ofDocument_of_toList (show blendDocument.toList = _ from String.toList_ofList)]
    decide +kernel
  cases hrun : (blendProfile.run blendFiles .empty).1 with
  | error fault =>
    rw [hrun] at hnames
    cases hnames
  | ok model =>
    rw [hrun] at hnames
    obtain ⟨table, htable, hmodel⟩ := run_coherent .empty hrun
    exact ⟨model, table, rfl, htable, hmodel, Except.ok.inj hnames⟩

end ApiProfile
