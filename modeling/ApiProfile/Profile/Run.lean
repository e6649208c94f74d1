import ApiProfile.Profile.Cache
import ApiProfile.Registry.Resolution
import ApiProfile.Representation
/-!
# Profiles

A profile is one API at one version, with the type tables that represent its types. Running it reads
the registry, resolves features, prunes groups, reads the signatures and represents their types; the
result is the model that generators start from. Profiles share the cache of sources and nothing else,
so one that fails leaves the others as they are.
-/

namespace ApiProfile

/-- What a profile is made from. -/
structure Profile where
  name : String
  selection : Selection
  maxVersion : Option Version
  registry : Path
  typeTables : List Path
  unmapped : UnmappedPolicy
  deriving DecidableEq, Repr, Inhabited

/-- What a profile comes to: the entries alive in it, the signatures of its commands by name, and the
findings made on the way. -/
structure ProfileModel where
  name : String
  selection : Selection
  maxVersion : Option Version
  registry : Registry
  signatures : List Signature
  diagnostics : Diagnostics
  deriving DecidableEq, Inhabited

namespace Profile

/-- The registry of a profile, cut down to what is alive. -/
def prunedRegistry (limit : Option Version) (document : Registry) : Registry :=
  (document.resolve limit).pruneGroups

/-- The findings about a registry: dangling references, then dropped groups. -/
def registryFindings (limit : Option Version) (document : Registry) : Diagnostics :=
  let dangling := (document.danglingReferences limit).map fun (feature, mention) =>
    Diagnostic.danglingReference mention.name feature.version.render
  let dropped := (document.resolve limit).droppedGroups (prunedRegistry limit document)
  ⟨dangling ++ dropped.map Diagnostic.droppedGroup⟩

/-- The model of a profile whose registry has been read and whose types have been represented. -/
def model (p : Profile) (document : Registry) (signatures : List Signature) (findings : Diagnostics) :
    ProfileModel where
  name := p.name
  selection := p.selection
  maxVersion := p.maxVersion
  registry := prunedRegistry p.maxVersion document
  signatures := signatures
  diagnostics := (registryFindings p.maxVersion document).extend findings

/-- Runs a profile. Type tables are read once the signatures have been. -/
def run (store : FileStore) (cache : Cache) (p : Profile) : Except Failure ProfileModel × Cache :=
  match cache.registry store p.registry p.selection with
  | (.error fault, cache) => (.error fault, cache)
  | (.ok document, cache) =>
    match (prunedRegistry p.maxVersion document.value).signatures with
    | .error fault => (.error fault, cache)
    | .ok signatures =>
      match cache.chain store p.typeTables with
      | (.error fault, cache) => (.error fault, cache)
      | (.ok table, cache) =>
        match table.representAll p.unmapped signatures with
        | .error fault => (.error fault, cache)
        | .ok (represented, findings) => (.ok (p.model document.value represented findings), cache)

/-- Runs profiles over one cache. Results come in the order of the profiles, each with its name. -/
def runAll (store : FileStore) : Cache → List Profile →
    List (String × Except Failure ProfileModel) × Cache
  | cache, [] => ([], cache)
  | cache, p :: ps =>
    let (result, cache) := p.run store cache
    let (results, cache) := runAll store cache ps
    ((p.name, result) :: results, cache)

end Profile
end ApiProfile
