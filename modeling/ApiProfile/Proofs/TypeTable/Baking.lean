import ApiProfile.Proofs.Profile.History
import ApiProfile.Proofs.Profile.Respelling
import ApiProfile.Proofs.TypeTable.Chain
/-!
# Regrouping chains

Baking two tables is associative, and the empty table changes nothing on either side. So a chain can be cut
anywhere: both parts are baked apart and then with each other. For files this holds whatever was looked up in them
before, as long as each of them can be read.
-/

namespace ApiProfile

/-! ## Tables -/

namespace TypeTable

theorem ext_get? {s t : TypeTable} (h : ∀ name, s.entries.get? name = t.entries.get? name) : s = t := by
  cases s
  cases t
  exact congrArg mk (Table.ext_get? h)

theorem empty_bake (t : TypeTable) : empty.bake t = t :=
  ext_get? fun name => get?_bake empty t name

theorem bake_empty (t : TypeTable) : t.bake empty = t := by
  have hrewrite : empty.rewrite = id := rfl
  refine ext_get? fun name => ?_
  rw [get?_bake, hrewrite, Option.map_id_fun, id, show empty.entries.get? name = none from rfl, Option.or_none]

theorem bake_assoc (a b c : TypeTable) : (a.bake b).bake c = a.bake (b.bake c) := by
  -- whether `b` maps an entry or carries it over, `c` is applied to it once
  have hrewrite : c.rewrite ∘ b.rewrite = (b.bake c).rewrite := funext fun type => (rewrite_bake b c type).symm
  refine ext_get? fun name => ?_
  rw [get?_bake, get?_bake, get?_bake, get?_bake, Option.map_or, Option.map_map, hrewrite, Option.or_assoc]

instance : Std.Associative bake := ⟨bake_assoc⟩

theorem chain_eq_foldl (tables : List TypeTable) : chain tables = tables.foldl bake empty := by
  cases tables with
  | nil => rfl
  | cons first more => rw [List.foldl_cons, empty_bake, chain]

theorem chain_append (front back : List TypeTable) : chain (front ++ back) = (chain front).bake (chain back) := by
  calc
    chain (front ++ back) = back.foldl bake (chain front) := by
      rw [chain_eq_foldl, List.foldl_append, ← chain_eq_foldl]
    _ = back.foldl bake ((chain front).bake empty) := by rw [bake_empty]
    _ = (chain front).bake (back.foldl bake empty) := List.foldl_assoc
    _ = (chain front).bake (chain back) := by rw [← chain_eq_foldl]

end TypeTable

/-! ## Files -/

namespace Cache

variable {store : FileStore} {cache : Cache}

/-- A file that can be read is looked up as it is read, if everything kept comes from the same files. -/
theorem table_of_read (hcache : cache.tables.From (TypeTable.Source store)) {path : Path} {t : TypeTable}
    (h : TypeTable.read store path = .ok t) : ∃ kept, (cache.table store path).1 = .ok kept ∧ kept.value = t := by
  unfold table
  dsimp only
  rcases cache.tables.fetch_cases path.parts (TypeTable.read store path) with ⟨kept, hkept, heq⟩ |
    ⟨fault, -, hfault, -⟩ | ⟨kept, -, hread, heq⟩
  · rw [heq]
    exact ⟨kept, rfl, (hcache _ (Shelf.mem_of_kept? hkept)).unique ⟨path, rfl, h⟩⟩
  · rw [h] at hfault
    cases hfault
  · rw [heq]
    exact ⟨kept, rfl, Except.ok.inj (hread.symm.trans h)⟩

theorem tablesIn_of_reads (hcache : cache.tables.From (TypeTable.Source store)) {paths : List Path}
    {tables : List TypeTable} (h : paths.mapM (TypeTable.read store) = .ok tables) :
    (cache.tablesIn store paths).1 = .ok tables := by
  induction paths generalizing cache tables with
  | nil =>
    cases h
    rfl
  | cons path paths ih =>
    rw [List.mapM_cons] at h
    obtain ⟨first, hfirst, h⟩ := bind_eq_ok.1 h
    obtain ⟨more, hmore, h⟩ := bind_eq_ok.1 h
    cases h
    obtain ⟨kept, hkept, rfl⟩ := table_of_read hcache hfirst
    rw [tablesIn_cons, hkept, ih (tables_table hcache path) hmore]
    rfl

theorem chain_of_reads (hcache : cache.tables.From (TypeTable.Source store)) {paths : List Path}
    {tables : List TypeTable} (h : paths.mapM (TypeTable.read store) = .ok tables) :
    (cache.chain store paths).1 = .ok (TypeTable.chain tables) := by
  rw [chain_eq_map, tablesIn_of_reads hcache h]
  rfl

/-- The step: a call keeps nothing but what the files are read as. -/
theorem tables_perform (hcache : cache.tables.From (TypeTable.Source store)) (call : Call) :
    (cache.perform store call).tables.From (TypeTable.Source store) := by
  cases call with
  | registry path selection => exact hcache
  | table path => exact tables_table hcache path
  | chain paths =>
    change (cache.chain store paths).2.tables.From _
    rw [chain_snd]
    exact tables_tablesIn hcache paths
  | clear => exact nofun

/-- The run: neither do any calls while the files stay as they are. -/
theorem tables_after (store : FileStore) (calls : List Call) :
    (after (calls.map (store, ·))).tables.From (TypeTable.Source store) := by
  induction calls using List.reverseRecOn with
  | nil => exact nofun
  | append_singleton calls call ih =>
    unfold after at ih ⊢
    rw [List.map_append, List.foldl_append]
    exact tables_perform ih call

end Cache

/-- Baking may be regrouped, and the empty table may be left out on either side. So the chain of two lists of files that
can all be read is the chain of the first list baked with that of the second, whatever was looked up before. -/
theorem TypeTable.chain_regrouped :
    (∀ a b c : TypeTable, (a.bake b).bake c = a.bake (b.bake c)) ∧
    (∀ t : TypeTable, empty.bake t = t ∧ t.bake empty = t) ∧
    ∀ (store : FileStore) (front back : List Path),
      (∀ path ∈ front ++ back, ∃ t, TypeTable.read store path = .ok t) →
        ∃ first second, ∀ calls : List Cache.Call,
          ((Cache.after (calls.map (store, ·))).chain store front).1 = .ok first ∧
          ((Cache.after (calls.map (store, ·))).chain store back).1 = .ok second ∧
          ((Cache.after (calls.map (store, ·))).chain store (front ++ back)).1 = .ok (first.bake second) := by
  refine ⟨bake_assoc, fun t => ⟨empty_bake t, bake_empty t⟩, fun store front back hread => ?_⟩
  obtain ⟨fronts, hfronts⟩ := exists_mapM_eq_ok fun path hpath => hread path (List.mem_append_left back hpath)
  obtain ⟨backs, hbacks⟩ := exists_mapM_eq_ok fun path hpath => hread path (List.mem_append_right front hpath)
  have hboth : (front ++ back).mapM (TypeTable.read store) = .ok (fronts ++ backs) :=
    mapM_eq_ok.2 (List.rel_append (mapM_eq_ok.1 hfronts) (mapM_eq_ok.1 hbacks))
  refine ⟨chain fronts, chain backs, fun calls => ?_⟩
  have hcache := Cache.tables_after store calls
  rw [← chain_append]
  exact ⟨Cache.chain_of_reads hcache hfronts, Cache.chain_of_reads hcache hbacks, Cache.chain_of_reads hcache hboth⟩

/-- A table for the names of an interface, one for those of a language, and one that has no rows yet. -/
def chainFiles : FileStore :=
  ⟨[], [(["api.tm"], .file "GLenum, unsigned int\nGLstring, GLchar*".toUTF8),
    (["lang.tm"], .file "unsigned int, uint\nGLchar, byte\nvoid, void".toUTF8),
    (["none.tm"], .file "# nothing yet".toUTF8)]⟩

theorem TypeTable.chain_regrouped_files :
    (∀ path ∈ [⟨"api.tm"⟩] ++ [⟨"none.tm"⟩, ⟨"lang.tm"⟩], ∃ t, TypeTable.read chainFiles path = .ok t) ∧
    ∃ first second, (Cache.empty.chain chainFiles [⟨"api.tm"⟩]).1 = .ok first ∧
      (Cache.empty.chain chainFiles [⟨"none.tm"⟩, ⟨"lang.tm"⟩]).1 = .ok second ∧
      (Cache.empty.chain chainFiles [⟨"api.tm"⟩, ⟨"none.tm"⟩, ⟨"lang.tm"⟩]).1 = .ok (first.bake second) ∧
      (first.bake second).entries.entries = [("GLchar", ⟨"byte", 0⟩), ("GLenum", ⟨"uint", 0⟩),
        ("GLstring", ⟨"byte", 1⟩), ("unsigned int", ⟨"uint", 0⟩), ("void", ⟨"void", 0⟩)] := by
  have hread : ∀ path ∈ [⟨"api.tm"⟩] ++ [⟨"none.tm"⟩, ⟨"lang.tm"⟩], ∃ t, TypeTable.read chainFiles path = .ok t := by
    have hfaults : ∀ path ∈ [⟨"api.tm"⟩] ++ [⟨"none.tm"⟩, ⟨"lang.tm"⟩],
        fault? (TypeTable.read chainFiles path) = none := by decide +kernel
    exact fun path hpath => fault?_eq_none.1 (hfaults path hpath)
  have hwhole : (Cache.empty.chain chainFiles [⟨"api.tm"⟩, ⟨"none.tm"⟩, ⟨"lang.tm"⟩]).1.map (·.entries.entries) =
      .ok [("GLchar", ⟨"byte", 0⟩), ("GLenum", ⟨"uint", 0⟩), ("GLstring", ⟨"byte", 1⟩),
        ("unsigned int", ⟨"uint", 0⟩), ("void", ⟨"void", 0⟩)] := by decide +kernel
  obtain ⟨first, second, hall⟩ := chain_regrouped.2.2 chainFiles _ _ hread
  obtain ⟨hfirst, hsecond, hboth⟩ := hall []
  refine ⟨hread, first, second, hfirst, hsecond, hboth, ?_⟩
  have hentries := congrArg (Except.map fun t : TypeTable => t.entries.entries) hboth
  exact Except.ok.inj (hentries.symm.trans hwhole)

end ApiProfile
