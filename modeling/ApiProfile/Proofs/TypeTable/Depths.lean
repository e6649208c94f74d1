import ApiProfile.Proofs.TypeTable.Baking
import ApiProfile.Representation
/-!
# Depths along a chain

Depths are numbers of 32 bits. Baking adds those of one table to those of the next, and representing signatures adds
those of the signatures to them. The runs that end in `?` check each of these additions and give nothing if one of
them overflows. None does while the greatest depths of all tables and of the signatures together stay below 2^32: at
every step of a chain, the depths in the table baked so far are at most the sum of the greatest ones in the tables up to
there.
-/

namespace ApiProfile

/-! ## Greatest depths -/

namespace CType

/-- The greatest depth among types, and 0 if there are none. -/
def greatestDepth (types : List CType) : Nat :=
  (types.map (·.depth.toNat)).foldr max 0

variable {type : CType} {types : List CType}

theorem greatestDepth_le_iff {n : Nat} : greatestDepth types ≤ n ↔ ∀ type ∈ types, type.depth.toNat ≤ n := by
  induction types with
  | nil => exact iff_of_true (Nat.zero_le n) nofun
  | cons type types ih =>
    have hcons : greatestDepth (type :: types) = max type.depth.toNat (greatestDepth types) := rfl
    rw [hcons, Nat.max_le, ih, List.forall_mem_cons]

theorem depth_le_greatestDepth (h : type ∈ types) : type.depth.toNat ≤ greatestDepth types :=
  greatestDepth_le_iff.1 (Nat.le_refl _) type h

end CType

def TypeTable.greatestDepth (t : TypeTable) : Nat :=
  CType.greatestDepth t.entries.values

theorem TypeTable.depth_le_greatestDepth {t : TypeTable} {name : String} {entry : CType}
    (h : t.entries.get? name = some entry) : entry.depth.toNat ≤ t.greatestDepth :=
  CType.depth_le_greatestDepth (t.entries.mem_values_iff.2 ⟨name, h⟩)

/-! ## Checked runs -/

/-- More levels of indirection on top of a type, unless that overflows. -/
def CType.indirected? (type : CType) (levels : UInt32) : Option CType :=
  if type.depth.toNat + levels.toNat < UInt32.size then some (type.indirected levels) else none

def Table.mapM? {α β : Type} (change : α → Option β) (t : Table α) : Option (Table β) := do
  let entries ← t.entries.mapM fun e => (change e.2).map (e.1, ·)
  return .ofList entries

namespace TypeTable

def represent? (t : TypeTable) (type : CType) : Option CType :=
  match t.entries.get? type.base with
  | some entry => entry.indirected? type.depth
  | none => some type

def bake? (t next : TypeTable) : Option TypeTable := do
  let mapped ← t.entries.mapM? next.represent?
  return next.entries.entries.foldl (fun baked (name, type) => ⟨baked.entries.insertNew name type⟩) ⟨mapped⟩

def chain? : List TypeTable → Option TypeTable
  | [] => some empty
  | first :: more => more.foldlM bake? first

def representGrouped? (t : TypeTable) (grouped : GroupedType) : Option GroupedType := do
  return ⟨← t.represent? grouped.type, grouped.group⟩

end TypeTable

def Signature.represent? (t : TypeTable) (s : Signature) : Option Signature := do
  let parameters ← s.parameters.mapM fun p => do return { p with type := ← t.representGrouped? p.type }
  return ⟨s.name, ← t.representGrouped? s.result, parameters⟩

/-! ## One addition -/

theorem CType.toNat_depth_indirected {type : CType} {levels : UInt32}
    (h : type.depth.toNat + levels.toNat < UInt32.size) :
    (type.indirected levels).depth.toNat = type.depth.toNat + levels.toNat := by
  unfold indirected
  rw [UInt32.toNat_add]
  exact Nat.mod_eq_of_lt h

namespace TypeTable

variable {t next : TypeTable} {type : CType}

theorem represent?_eq_some (h : t.greatestDepth + type.depth.toNat < UInt32.size) :
    t.represent? type = some (t.represent type) := by
  unfold represent? represent map?
  cases hget : t.entries.get? type.base with
  | none => rfl
  | some entry =>
    have hentry := depth_le_greatestDepth hget
    exact if_pos (by omega)

/-- A type keeps its indirections and gets no more than the table has. -/
theorem depth_represent (h : t.greatestDepth + type.depth.toNat < UInt32.size) :
    type.depth ≤ (t.represent type).depth ∧
      (t.represent type).depth.toNat ≤ t.greatestDepth + type.depth.toNat := by
  rw [UInt32.le_iff_toNat_le]
  unfold represent map?
  cases hget : t.entries.get? type.base with
  | none => exact ⟨Nat.le_refl _, Nat.le_add_left ..⟩
  | some entry =>
    have hentry := depth_le_greatestDepth hget
    have hsum : entry.depth.toNat + type.depth.toNat < UInt32.size := by omega
    rw [Option.map_some, Option.getD_some, CType.toNat_depth_indirected hsum]
    omega

end TypeTable

/-! ## Chains -/

theorem Table.mapM?_eq_some {α β : Type} {check : α → Option β} {change : α → β} {t : Table α}
    (h : ∀ value ∈ t.values, check value = some (change value)) : t.mapM? check = some (t.map change) := by
  have hentries : (t.entries.mapM fun e => (check e.2).map (e.1, ·)) = some (t.map change).entries := by
    refine mapM_eq_some_map fun e he => ?_
    rw [h e.2 (List.mem_map_of_mem he), Option.map_some]
  unfold mapM?
  rw [hentries]
  exact congrArg some (ofList_of_perm (.refl _))

namespace TypeTable

variable {t next : TypeTable}

theorem bake?_eq_some (h : t.greatestDepth + next.greatestDepth < UInt32.size) :
    t.bake? next = some (t.bake next) := by
  have hmapped : t.entries.mapM? next.represent? = some (t.entries.map next.represent) := by
    refine Table.mapM?_eq_some fun type htype => represent?_eq_some ?_
    have hle : type.depth.toNat ≤ t.greatestDepth := CType.depth_le_greatestDepth htype
    omega
  unfold bake?
  rw [hmapped]
  rfl

/-- The step: entries that are mapped and entries that are carried over stay within both tables together. -/
theorem greatestDepth_bake_le (h : t.greatestDepth + next.greatestDepth < UInt32.size) :
    (t.bake next).greatestDepth ≤ t.greatestDepth + next.greatestDepth := by
  refine CType.greatestDepth_le_iff.2 fun entry hentry => ?_
  obtain ⟨name, hget⟩ := (t.bake next).entries.mem_values_iff.1 hentry
  rw [get?_bake, Option.or_eq_some_iff, Option.map_eq_some_iff] at hget
  rcases hget with ⟨type, htype, rfl⟩ | ⟨-, hcarried⟩
  · have hle := depth_le_greatestDepth htype
    have hfits : next.greatestDepth + type.depth.toNat < UInt32.size := by omega
    have hdepth := (depth_represent hfits).2
    unfold represent at hdepth
    rw [getD_map?] at hdepth
    omega
  · have hle := depth_le_greatestDepth hcarried
    omega

/-- The run: the sum over the tables so far bounds what has been baked of them. -/
theorem foldlM_bake? {first : TypeTable} {more : List TypeTable}
    (h : first.greatestDepth + (more.map greatestDepth).sum < UInt32.size) :
    more.foldlM bake? first = some (more.foldl bake first) ∧
      (more.foldl bake first).greatestDepth ≤ first.greatestDepth + (more.map greatestDepth).sum := by
  induction more generalizing first with
  | nil => exact ⟨rfl, Nat.le_refl _⟩
  | cons next more ih =>
    rw [List.map_cons, List.sum_cons] at h ⊢
    have hpair : first.greatestDepth + next.greatestDepth < UInt32.size := by omega
    have hstep := greatestDepth_bake_le hpair
    have hrest : (first.bake next).greatestDepth + (more.map greatestDepth).sum < UInt32.size := by omega
    obtain ⟨hrun, hbound⟩ := ih hrest
    rw [List.foldlM_cons, bake?_eq_some hpair, List.foldl_cons]
    exact ⟨hrun, by omega⟩

theorem chain?_eq_some {tables : List TypeTable} (h : (tables.map greatestDepth).sum < UInt32.size) :
    chain? tables = some (chain tables) ∧ (chain tables).greatestDepth ≤ (tables.map greatestDepth).sum := by
  cases tables with
  | nil => exact ⟨rfl, Nat.le_refl _⟩
  | cons first more => exact foldlM_bake? h

end TypeTable

/-! ## Signatures -/

theorem Signature.represent?_eq_some {t : TypeTable} {s : Signature}
    (h : ∀ type ∈ s.types, t.represent? type = some (t.represent type)) : s.represent? t = some (s.represent t) := by
  have hgrouped : ∀ grouped : GroupedType, grouped.type ∈ s.types →
      t.representGrouped? grouped = some (t.representGrouped grouped) := by
    intro grouped hmem
    unfold TypeTable.representGrouped?
    rw [h _ hmem]
    rfl
  have hparameters : (s.parameters.mapM fun p => do return { p with type := ← t.representGrouped? p.type }) =
      some (s.represent t).parameters := by
    refine mapM_eq_some_map fun p hp => ?_
    rw [hgrouped p.type (List.mem_append_left _ (List.mem_map_of_mem hp))]
    rfl
  unfold represent?
  rw [hparameters, hgrouped s.result (List.mem_append_right _ (.head _))]
  rfl

theorem Signature.types_represent (t : TypeTable) (s : Signature) :
    (s.represent t).types = s.types.map t.represent := by
  unfold types represent
  rw [List.map_append, List.map_map, List.map_map]
  rfl

/-! ## The whole run -/

namespace TypeTable

/-- While the greatest depths of all tables and of the signatures add up to less than 2^32, no addition overflows in the
chain of the tables, nor when the signatures are represented by it. The depths in the baked table are at most the sum of
the greatest ones in the tables. And no type loses an indirection: neither those of the signatures nor the entries
that a part of the chain has so far. -/
theorem additions_fit {tables : List TypeTable} {signatures : List Signature}
    (h : CType.greatestDepth (signatures.flatMap Signature.types) + (tables.map greatestDepth).sum < UInt32.size) :
    chain? tables = some (chain tables) ∧
    signatures.mapM (Signature.represent? (chain tables)) = some (signatures.map (·.represent (chain tables))) ∧
    (∀ entry ∈ (chain tables).entries.values, entry.depth.toNat ≤ (tables.map greatestDepth).sum) ∧
    (∀ s ∈ signatures,
      List.Forall₂ (fun type mapped => type.depth ≤ mapped.depth) s.types (s.represent (chain tables)).types) ∧
    ∀ front back, tables = front ++ back → ∀ name entry, (chain front).entries.get? name = some entry →
      ∃ baked, (chain tables).entries.get? name = some baked ∧ entry.depth ≤ baked.depth := by
  have htables : (tables.map greatestDepth).sum < UInt32.size := by omega
  obtain ⟨hchain, hbound⟩ := chain?_eq_some htables
  have hfits : ∀ s ∈ signatures, ∀ type ∈ s.types,
      (chain tables).greatestDepth + type.depth.toNat < UInt32.size := by
    intro s hs type htype
    have hle := CType.depth_le_greatestDepth (List.mem_flatMap_of_mem hs htype)
    omega
  refine ⟨hchain, mapM_eq_some_map fun s hs => ?_, CType.greatestDepth_le_iff.1 hbound, fun s hs => ?_, ?_⟩
  · exact Signature.represent?_eq_some fun type htype => represent?_eq_some (hfits s hs type htype)
  · rw [Signature.types_represent, List.forall₂_map_right_iff, List.forall₂_same]
    exact fun type htype => (depth_represent (hfits s hs type htype)).1
  · rintro front back rfl name entry hentry
    rw [List.map_append, List.sum_append] at htables
    have hfront : (chain front).greatestDepth ≤ (front.map greatestDepth).sum := (chain?_eq_some (by omega)).2
    have hback : (chain back).greatestDepth ≤ (back.map greatestDepth).sum := (chain?_eq_some (by omega)).2
    have hle := depth_le_greatestDepth hentry
    refine ⟨(chain back).represent entry, ?_, (depth_represent (by omega)).1⟩
    unfold represent
    rw [chain_append, get?_bake, hentry, getD_map?]
    rfl

/-- Two tables that add an indirection each. -/
def stringTables : List TypeTable :=
  [ofList [("GLstring", ⟨"GLchar", 1⟩)], ofList [("GLchar", ⟨"byte", 1⟩), ("void", ⟨"void", 0⟩)]]

/-- A command with a type of two indirections. -/
def stringSignatures : List Signature :=
  [⟨"glShaderSource", ⟨⟨"void", 0⟩, none⟩, [⟨"string", ⟨⟨"GLstring", 2⟩, none⟩, .output⟩]⟩]

theorem additions_fit_strings :
    CType.greatestDepth (stringSignatures.flatMap Signature.types) + (stringTables.map greatestDepth).sum = 4 ∧
    ∃ baked, chain? stringTables = some baked ∧
      baked.entries.entries = [("GLchar", ⟨"byte", 1⟩), ("GLstring", ⟨"byte", 2⟩), ("void", ⟨"void", 0⟩)] ∧
      stringSignatures.mapM (Signature.represent? baked) =
        some [⟨"glShaderSource", ⟨⟨"void", 0⟩, none⟩, [⟨"string", ⟨⟨"byte", 4⟩, none⟩, .output⟩]⟩] := by
  have hsum : CType.greatestDepth (stringSignatures.flatMap Signature.types) +
      (stringTables.map greatestDepth).sum = 4 := by decide +kernel
  have hfits : CType.greatestDepth (stringSignatures.flatMap Signature.types) +
      (stringTables.map greatestDepth).sum < UInt32.size := by rw [hsum]; decide
  obtain ⟨hchain, hsignatures, -⟩ := additions_fit hfits
  exact ⟨hsum, _, hchain, by decide +kernel, hsignatures.trans (by decide +kernel)⟩

example : CType.indirected? ⟨"void", 4294967295⟩ 1 = none := by decide +kernel

end TypeTable
end ApiProfile
