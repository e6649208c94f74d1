import ApiProfile.Proofs.Profile.Cache
import ApiProfile.Proofs.Table
/-!
# Chains of type tables

A chain is baked into one table ahead of time. We show that looking a type up in it comes to rewriting
the type by every table of the chain, one after another, where a table that has no entry for the base
name at hand leaves the type as it is.
-/

namespace ApiProfile.TypeTable

/-- A type with the entry of its base name in place of that name, under the indirections of both. -/
def rewrite (t : TypeTable) (type : CType) : CType :=
  match t.entries.get? type.base with
  | some entry => ⟨entry.base, entry.depth + type.depth⟩
  | none => type

/-- A type rewritten by tables in order. -/
def rewriteAll (tables : List TypeTable) (type : CType) : CType :=
  tables.foldl (fun type t => t.rewrite type) type

/-- Whether a table has an entry for a name. -/
def knows (t : TypeTable) (name : String) : Bool :=
  t.entries.contains name

theorem map?_eq (t : TypeTable) (type : CType) :
    t.map? type = if t.knows type.base then some (t.rewrite type) else none := by
  unfold map? knows rewrite Table.contains
  cases t.entries.get? type.base <;> rfl

theorem getD_map? (t : TypeTable) (type : CType) : (t.map? type).getD type = t.rewrite type := by
  unfold map? rewrite
  cases t.entries.get? type.base <;> rfl

/-! ## Baking two tables -/

theorem get?_bake (t next : TypeTable) (name : String) :
    (t.bake next).entries.get? name =
      ((t.entries.get? name).map next.rewrite).or (next.entries.get? name) := by
  have hfold : (t.bake next).entries = next.entries.entries.foldl (fun entries e => entries.insertNew e.1 e.2)
      (t.entries.map fun type => (next.map? type).getD type) :=
    (List.foldl_hom TypeTable.entries fun _ _ => rfl).symm
  -- names that only `next` has come in afterwards and replace nothing
  rw [hfold, Table.get?_foldl_insertNew, Table.get?_map]
  simp only [getD_map?]
  rfl

theorem knows_bake (t next : TypeTable) (name : String) :
    (t.bake next).knows name = (t.knows name || next.knows name) := by
  unfold knows Table.contains
  rw [get?_bake, Option.isSome_or, Option.isSome_map]

/-- One baked table rewrites as the two do one after the other. -/
theorem rewrite_bake (t next : TypeTable) (type : CType) :
    (t.bake next).rewrite type = next.rewrite (t.rewrite type) := by
  unfold rewrite
  rw [get?_bake]
  cases t.entries.get? type.base with
  | none => rfl
  | some entry =>
    -- the depths of both entries and of the type itself add up alike
    simp only [Option.map_some, Option.some_or, rewrite]
    cases next.entries.get? entry.base with
    | none => rfl
    | some target => simp only [UInt32.add_assoc]

/-! ## Whole chains -/

theorem knows_foldl_bake (first : TypeTable) (more : List TypeTable) (name : String) :
    (more.foldl bake first).knows name = (first :: more).any (·.knows name) := by
  induction more generalizing first with
  | nil => simp
  | cons next more ih =>
    rw [List.foldl_cons, ih, List.any_cons, knows_bake, List.any_cons, List.any_cons, Bool.or_assoc]

theorem knows_chain (tables : List TypeTable) (name : String) :
    (chain tables).knows name = tables.any (·.knows name) := by
  cases tables with
  | nil => rfl
  | cons first more => exact knows_foldl_bake first more name

theorem rewrite_foldl_bake (first : TypeTable) (more : List TypeTable) (type : CType) :
    (more.foldl bake first).rewrite type = rewriteAll (first :: more) type := by
  induction more generalizing first type with
  | nil => rfl
  | cons next more ih =>
    rw [List.foldl_cons, ih]
    unfold rewriteAll
    rw [List.foldl_cons, List.foldl_cons, List.foldl_cons, rewrite_bake]

/-- The chain of tables has a type if some table has its base name, and then gives what rewriting by all
tables in order does. A chain read from files is the chain of the tables in them. -/
theorem map?_chain (tables : List TypeTable) (type : CType) :
    ((chain tables).map? type =
      if tables.any (·.knows type.base) then some (rewriteAll tables type) else none) ∧
    ∀ store (cache : Cache) paths, (cache.chain store paths).1 = (cache.tablesIn store paths).1.map chain := by
  refine ⟨?_, Cache.chain_eq_map⟩
  cases tables with
  | nil => rfl
  | cons first more =>
    unfold chain
    rw [map?_eq, knows_foldl_bake, rewrite_foldl_bake]

example : (chain [ofList [("GLenum", ⟨"u32", 0⟩)], ofList [("u32", ⟨"Int", 1⟩), ("u8", ⟨"Byte", 0⟩)]]).map?
    ⟨"GLenum", 2⟩ = some ⟨"Int", 3⟩ := by decide +kernel

end ApiProfile.TypeTable
