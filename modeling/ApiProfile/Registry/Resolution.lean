import ApiProfile.Registry.Basic
/-!
# Resolving features and pruning groups

Which constants and commands exist at a version: the features up to it are replayed in ascending
order of version, those of one version in document order. A feature adds its names first and then
removes. Names that the registry does not declare change nothing; `danglingReferences` lists them.
After that, groups are cut down to the constants that are left, and a group without any is dropped. Every
group that is left is stored under its own name.
-/

namespace ApiProfile.Registry

/-! ## Features -/

/-- Whether a feature counts below a maximum version; without one, all do. -/
def applies (limit : Option Version) (feature : Feature) : Bool :=
  limit.all fun version => feature.version.atMost version

/-- The features that count, in document order. -/
def applicable (limit : Option Version) (r : Registry) : List Feature :=
  r.features.filter (applies limit)

/-- The features that count, in the order in which they are replayed. -/
def replayed (limit : Option Version) (r : Registry) : List Feature :=
  (applicable limit r).mergeSort fun f g => f.version.atMost g.version

/-- The entries alive at some point of a replay. -/
structure Live where
  constants : Table Constant
  commands : Table Command
  deriving DecidableEq, Inhabited

namespace Live

/-- Nothing is alive before the first feature. -/
def none : Live := ⟨.empty, .empty⟩

/-- Brings an entry to life as the registry declares it. -/
def add (r : Registry) (live : Live) (mention : Mention) : Live :=
  match mention.kind with
  | .constant =>
    match r.constants.get? mention.name with
    | some entry => { live with constants := live.constants.insertNew mention.name entry }
    | .none => live
  | .command =>
    match r.commands.get? mention.name with
    | some entry => { live with commands := live.commands.insertNew mention.name entry }
    | .none => live

def remove (live : Live) (mention : Mention) : Live :=
  match mention.kind with
  | .constant => { live with constants := live.constants.erase mention.name }
  | .command => { live with commands := live.commands.erase mention.name }

/-- Replays a feature: additions before removals. -/
def apply (r : Registry) (live : Live) (feature : Feature) : Live :=
  feature.removals.foldl remove (feature.additions.foldl (add r) live)

end Live

/-- The entries alive after the last feature that counts. -/
def live (limit : Option Version) (r : Registry) : Live :=
  (replayed limit r).foldl (Live.apply r) Live.none

/-- The registry cut down to the constants and commands that are alive. -/
def resolve (limit : Option Version) (r : Registry) : Registry :=
  { r with constants := (live limit r).constants, commands := (live limit r).commands }

/-- The names that features mention and the registry does not declare: feature by feature in document
order, in each the additions before the removals. -/
def danglingReferences (limit : Option Version) (r : Registry) : List (Feature × Mention) :=
  (applicable limit r).flatMap fun feature =>
    ((feature.additions ++ feature.removals).filter fun mention => !r.declares mention).map
      fun mention => (feature, mention)

/-! ## Groups -/

/-- The group with those members that the registry has as constants, unless none is left. -/
def prunedGroup (r : Registry) (group : Group) : Option Group :=
  let members := group.members.filter r.constants.contains
  if members.names = [] then none else some ⟨group.name, members⟩

/-- The registry with every group cut down to its constants. Of several groups that have one name, the
one with the greatest key is kept. -/
def pruneGroups (r : Registry) : Registry :=
  { r with groups := .ofList ((r.groups.values.filterMap (prunedGroup r)).map fun g => (g.name, g)) }

/-- The keys of groups that a pruned registry has no group under. -/
def droppedGroups (r pruned : Registry) : List String :=
  r.groups.keys.filter fun key => !pruned.groups.contains key

end ApiProfile.Registry
