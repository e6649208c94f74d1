import ApiProfile.Proofs.Fallible
import ApiProfile.Proofs.Table
import ApiProfile.Proofs.Toml.Statement
import ApiProfile.Toml.Document
/-!
# Written files are read back

The statements of a file build its entries one after another: settings before any title come first, a table is put
behind what is there, and so is a list of tables, which grows with each item. No name is written twice in one place, so
no statement is refused.
-/

namespace ApiProfile.Toml

/-- The settings of a section, as they stand in a table. -/
def settingEntries (settings : List (String × Written)) : List (String × Toml) :=
  settings.map fun (name, value) => (name, value.value)

/-- The settings of a section, as they stand in a table under construction. -/
def settingItems (settings : List (String × Written)) : Entries :=
  settings.map fun (name, value) => (name, .value value.value)

/-! ## One statement -/

variable {entries inner : Entries} {key : String}

theorem alter?_new (hkey : key ∉ entries.map (·.1)) (change : Option Item → Option Item) :
    alter? key change entries = (change none).map fun item => entries ++ [(key, item)] := by
  induction entries with
  | nil => rfl
  | cons entry entries ih =>
    obtain ⟨k, item⟩ := entry
    rw [List.map_cons, List.mem_cons, not_or] at hkey
    rw [alter?, if_neg (Ne.symm hkey.1), ih hkey.2, Option.map_map]
    rfl

theorem alter?_last (hkey : key ∉ entries.map (·.1)) (item : Item) (change : Option Item → Option Item) :
    alter? key change (entries ++ [(key, item)]) = (change (some item)).map fun item => entries ++ [(key, item)] := by
  induction entries with
  | nil => simp [alter?]
  | cons entry entries ih =>
    obtain ⟨k, old⟩ := entry
    rw [List.map_cons, List.mem_cons, not_or] at hkey
    rw [List.cons_append, alter?, if_neg (Ne.symm hkey.1), ih hkey.2, Option.map_map]
    rfl

theorem assign?_new (hkey : key ∉ entries.map (·.1)) (value : Toml) :
    assign? [key] value entries = some (entries ++ [(key, .value value)]) := by
  have hnew := alter?_new hkey fun old => if old.isSome then none else some (.value value)
  exact hnew

namespace Draft

variable {name : String} {current : Key}

theorem take?_setting (hname : name ∉ entries.map (·.1)) (value : Toml) :
    take? ⟨entries, []⟩ (.assignment [name] value) = some ⟨entries ++ [(name, .value value)], []⟩ := by
  have hassigned := assign?_new hname value
  change (assign? [name] value entries).bind (fun entries => some (Draft.mk entries [])) = _
  rw [hassigned]
  rfl

theorem take?_header (hname : name ∉ entries.map (·.1)) :
    take? ⟨entries, current⟩ (.header [name]) = some ⟨entries ++ [(name, .table false false [])], [name]⟩ := by
  have hfilter : entries.filter (fun entry => decide (entry.1 ≠ name)) = entries :=
    List.filter_eq_self.2 fun entry hentry =>
      decide_eq_true fun heq => hname (List.mem_map.2 ⟨entry, hentry, heq⟩)
  change ((started? (entries.lookup name)).bind fun inner =>
    some (entries.filter (fun entry => decide (entry.1 ≠ name)) ++ [(name, .table false false inner)])).bind
      (fun entries => some (Draft.mk entries [name])) = _
  rw [Table.lookup_eq_none hname, hfilter]
  rfl

theorem take?_inTable (hname : name ∉ entries.map (·.1)) (hkey : key ∉ inner.map (·.1)) (value : Toml) :
    take? ⟨entries ++ [(name, .table false false inner)], [name]⟩ (.assignment [key] value) =
      some ⟨entries ++ [(name, .table false false (inner ++ [(key, .value value)]))], [name]⟩ := by
  have hassigned := assign?_new hkey value
  change (alter? name _ (entries ++ [(name, .table false false inner)])).bind
    (fun entries => some (Draft.mk entries [name])) = _
  rw [alter?_last hname]
  change (((assign? [key] value inner).map (Item.table false false)).map _).bind _ = _
  rw [hassigned]
  rfl

theorem take?_firstItem (hname : name ∉ entries.map (·.1)) :
    take? ⟨entries, current⟩ (.itemHeader [name]) = some ⟨entries ++ [(name, .tables [] [])], [name]⟩ := by
  change (alter? name _ entries).bind (fun entries => some (Draft.mk entries [name])) = _
  rw [alter?_new hname]
  rfl

theorem take?_nextItem (hname : name ∉ entries.map (·.1)) (earlier : List Entries) (last : Entries) :
    take? ⟨entries ++ [(name, .tables earlier last)], current⟩ (.itemHeader [name]) =
      some ⟨entries ++ [(name, .tables (earlier ++ [last]) [])], [name]⟩ := by
  change (alter? name _ (entries ++ [(name, .tables earlier last)])).bind
    (fun entries => some (Draft.mk entries [name])) = _
  rw [alter?_last hname]
  rfl

theorem take?_inItem (hname : name ∉ entries.map (·.1)) (hkey : key ∉ inner.map (·.1)) (earlier : List Entries)
    (value : Toml) :
    take? ⟨entries ++ [(name, .tables earlier inner)], [name]⟩ (.assignment [key] value) =
      some ⟨entries ++ [(name, .tables earlier (inner ++ [(key, .value value)]))], [name]⟩ := by
  have hassigned := assign?_new hkey value
  change (alter? name _ (entries ++ [(name, .tables earlier inner)])).bind
    (fun entries => some (Draft.mk entries [name])) = _
  rw [alter?_last hname]
  change (((assign? [key] value inner).map (Item.tables earlier)).map _).bind _ = _
  rw [hassigned]
  rfl

/-! ## Sections -/

/-- Settings go one after another to where assignments go, if no name is there twice. -/
theorem foldlM_settings (state : Entries → Draft)
    (hstep : ∀ inner key value, key ∉ inner.map (·.1) →
      take? (state inner) (.assignment [key] value) = some (state (inner ++ [(key, .value value)])))
    (inner : Entries) (settings : List (String × Written))
    (hnodup : (inner.map (·.1) ++ settings.map (·.1)).Nodup) :
    (settings.map fun (name, value) => Statement.assignment [name] value.value).foldlM take? (state inner) =
      some (state (inner ++ settingItems settings)) := by
  induction settings generalizing inner with
  | nil => simp [settingItems]
  | cons setting settings ih =>
    obtain ⟨name, value⟩ := setting
    have hname : name ∉ inner.map (·.1) := fun h =>
      (List.nodup_append.1 hnodup).2.2 name h name (List.mem_cons_self ..) rfl
    have hrest := ih (inner ++ [(name, .value value.value)]) (by simpa using hnodup)
    rw [List.map_cons, List.foldlM_cons, hstep inner name value.value hname]
    change (settings.map _).foldlM take? (state (inner ++ [(name, .value value.value)])) = _
    rw [hrest]
    simp [settingItems]

variable {settings : List (String × Written)}

theorem foldlM_file (hnodup : (settings.map (·.1)).Nodup) :
    (Section.statements ⟨.none, settings⟩).foldlM take? start = some ⟨settingItems settings, []⟩ :=
  foldlM_settings (⟨·, []⟩) (fun _ _ value hkey => take?_setting hkey value) [] settings hnodup

theorem foldlM_table (hname : name ∉ entries.map (·.1)) (hnodup : (settings.map (·.1)).Nodup) :
    (Section.statements ⟨.table name, settings⟩).foldlM take? ⟨entries, current⟩ =
      some ⟨entries ++ [(name, .table false false (settingItems settings))], [name]⟩ := by
  have hsettings := foldlM_settings (fun inner => ⟨entries ++ [(name, .table false false inner)], [name]⟩)
    (fun _ _ value hkey => take?_inTable hname hkey value) [] settings hnodup
  change (take? ⟨entries, current⟩ (.header [name])).bind (fun draft => (settings.map _).foldlM take? draft) = _
  rw [take?_header hname]
  exact hsettings

/-- Tables go one after another behind what is there, if no name is there twice. -/
theorem foldlM_tables {tables : List (String × List (String × Written))}
    (hnames : (entries.map (·.1) ++ tables.map (·.1)).Nodup)
    (hnodup : ∀ table ∈ tables, (table.2.map (·.1)).Nodup) (current : Key) :
    ∃ current', ((tables.map fun (name, settings) => Section.mk (.table name) settings).flatMap
        Section.statements).foldlM take? ⟨entries, current⟩ =
      some ⟨entries ++ tables.map fun (name, settings) => (name, .table false false (settingItems settings)),
        current'⟩ := by
  induction tables generalizing entries current with
  | nil => exact ⟨current, by simp⟩
  | cons table tables ih =>
    obtain ⟨name, settings⟩ := table
    have hname : name ∉ entries.map (·.1) := fun h =>
      (List.nodup_append.1 hnames).2.2 name h name (List.mem_cons_self ..) rfl
    obtain ⟨current', hrest⟩ := @ih (entries ++ [(name, .table false false (settingItems settings))])
      (by simpa using hnames) (fun table htable => hnodup table (.tail _ htable)) [name]
    refine ⟨current', ?_⟩
    rw [List.map_cons, List.flatMap_cons, List.foldlM_append, foldlM_table hname (hnodup _ (.head _))]
    change List.foldlM take? _ _ = _ at hrest ⊢
    rw [hrest]
    simp

/-- The settings of an item go into the table that its title has started. -/
theorem foldlM_item (hname : name ∉ entries.map (·.1)) (hnodup : (settings.map (·.1)).Nodup) {draft : Draft}
    {earlier : List Entries}
    (hopen : draft.take? (.itemHeader [name]) = some ⟨entries ++ [(name, .tables earlier [])], [name]⟩) :
    (Section.statements ⟨.item name, settings⟩).foldlM take? draft =
      some ⟨entries ++ [(name, .tables earlier (settingItems settings))], [name]⟩ := by
  have hsettings := foldlM_settings (fun inner => ⟨entries ++ [(name, .tables earlier inner)], [name]⟩)
    (fun _ _ value hkey => take?_inItem hname hkey earlier value) [] settings hnodup
  change (draft.take? (.itemHeader [name])).bind (fun draft => (settings.map _).foldlM take? draft) = _
  rw [hopen]
  exact hsettings

/-- A list of tables that is there goes on with one table for each section. -/
theorem foldlM_nextItems (hname : name ∉ entries.map (·.1)) {items : List (List (String × Written))}
    (hnodup : ∀ settings ∈ items, (settings.map (·.1)).Nodup) (earlier : List Entries) (last : Entries)
    (current : Key) :
    ∃ earlier' last' current', ((items.map (Section.mk (.item name))).flatMap Section.statements).foldlM take?
        ⟨entries ++ [(name, .tables earlier last)], current⟩ =
          some ⟨entries ++ [(name, .tables earlier' last')], current'⟩ ∧
      earlier' ++ [last'] = earlier ++ last :: items.map settingItems := by
  induction items generalizing earlier last current with
  | nil => exact ⟨earlier, last, current, rfl, rfl⟩
  | cons settings items ih =>
    obtain ⟨earlier', last', current', hrest, hitems⟩ :=
      ih (fun s hs => hnodup s (.tail settings hs)) (earlier ++ [last]) (settingItems settings) [name]
    refine ⟨earlier', last', current', ?_, by simp [hitems]⟩
    rw [List.map_cons, List.flatMap_cons, List.foldlM_append,
      foldlM_item hname (hnodup settings (.head items)) (take?_nextItem hname earlier last)]
    exact hrest

theorem foldlM_items (hname : name ∉ entries.map (·.1)) {items : List (List (String × Written))}
    (hnodup : ∀ s ∈ items, (s.map (·.1)).Nodup) (hne : items ≠ []) (current : Key) :
    ∃ earlier last current', ((items.map (Section.mk (.item name))).flatMap Section.statements).foldlM take?
        ⟨entries, current⟩ = some ⟨entries ++ [(name, .tables earlier last)], current'⟩ ∧
      earlier ++ [last] = items.map settingItems := by
  obtain ⟨settings, items, rfl⟩ := List.exists_cons_of_ne_nil hne
  obtain ⟨earlier, last, current', hrest, hitems⟩ :=
    foldlM_nextItems hname (fun s hs => hnodup s (.tail settings hs)) [] (settingItems settings) [name]
  refine ⟨earlier, last, current', ?_, hitems⟩
  rw [List.map_cons, List.flatMap_cons, List.foldlM_append,
    foldlM_item hname (hnodup settings (.head items)) (take?_firstItem hname)]
  exact hrest

end Draft

/-! ## Finished tables -/

theorem finishEntries_append (entries more : Entries) :
    finishEntries (entries ++ more) = finishEntries entries ++ finishEntries more := by
  induction entries with
  | nil => rfl
  | cons entry entries ih => exact congrArg ((entry.1, entry.2.finish) :: ·) ih

theorem finishEntries_settingItems (settings : List (String × Written)) :
    finishEntries (settingItems settings) = settingEntries settings := by
  induction settings with
  | nil => rfl
  | cons setting settings ih => exact congrArg ((setting.1, setting.2.value) :: ·) ih

theorem finish_tables {earlier : List Entries} {last : Entries} {items : List (List (String × Written))}
    (h : earlier ++ [last] = items.map settingItems) :
    (Item.tables earlier last).finish = .array (items.map fun settings => .table (settingEntries settings)) := by
  have htables : ∀ tables : List Entries,
      finishTables tables = tables.map fun entries => .table (finishEntries entries) := by
    intro tables
    induction tables with
    | nil => rfl
    | cons entries tables ih => exact congrArg (Toml.table (finishEntries entries) :: ·) ih
  have hfinish : (Item.tables earlier last).finish =
      .array ((earlier ++ [last]).map fun entries => .table (finishEntries entries)) := by
    rw [Item.finish, htables, List.map_append]
    rfl
  rw [hfinish, h, List.map_map]
  congr 1
  refine List.map_congr_left fun settings _ => ?_
  exact congrArg Toml.table (finishEntries_settingItems settings)

/-! ## Dates -/

/-- Values that hold no table for a date. -/
def Dateless (value : Toml) : Prop :=
  value.withDates? = some value

theorem dateless_array {items : List Toml} (h : ∀ item ∈ items, Dateless item) : Dateless (.array items) := by
  have hitems : itemsWithDates? items = some items := by
    induction items with
    | nil => rfl
    | cons item items ih =>
      have hfirst : item.withDates? = some item := h item (.head items)
      rw [itemsWithDates?, hfirst, ih fun i hi => h i (.tail item hi)]
      rfl
  unfold Dateless
  rw [withDates?, hitems]
  rfl

theorem dateless_table {entries : List (String × Toml)} (hkeys : dateKey ∉ entries.map (·.1))
    (h : ∀ entry ∈ entries, Dateless entry.2) : Dateless (.table entries) := by
  have hentries : entriesWithDates? entries = some entries := by
    clear hkeys
    induction entries with
    | nil => rfl
    | cons entry entries ih =>
      obtain ⟨key, value⟩ := entry
      have hfirst : value.withDates? = some value := h (key, value) (.head entries)
      rw [entriesWithDates?, hfirst, ih fun e he => h e (.tail _ he)]
      rfl
  unfold Dateless
  cases entries with
  | nil => rfl
  | cons entry entries =>
    obtain ⟨key, value⟩ := entry
    have hkey : key ≠ dateKey := by
      rintro rfl
      exact hkeys (.head _)
    rw [withDates?, List.head?_cons]
    dsimp only
    rw [if_neg hkey, hentries]
    rfl

theorem dateless_value (value : Written) : Dateless value.value := by
  cases value with
  | text value => rfl
  | texts values =>
    refine dateless_array fun item hitem => ?_
    obtain ⟨value, -, rfl⟩ := List.mem_map.1 hitem
    rfl

theorem dateless_settingEntries {settings : List (String × Written)} (h : ∀ s ∈ settings, IsBare s.1) :
    Dateless (.table (settingEntries settings)) := by
  refine dateless_table (fun hkey => ?_) fun entry hentry => ?_
  · obtain ⟨entry, hentry, hkey⟩ := List.mem_map.1 hkey
    obtain ⟨setting, hsetting, rfl⟩ := List.mem_map.1 hentry
    have hbare := (h setting hsetting).2
    rw [show setting.1 = dateKey from hkey] at hbare
    exact absurd hbare (by decide)
  · obtain ⟨setting, -, rfl⟩ := List.mem_map.1 hentry
    exact dateless_value setting.2

/-! ## Files -/

theorem head?_intercalate_cons (first : List Char) (more : List (List Char)) :
    (['\n'].intercalate (first :: more)).head? = first.head? ∨ first = [] ∧
      (['\n'].intercalate (first :: more)).head? ∈ [none, some '\n'] := by
  cases first with
  | cons c cs => cases more <;> exact .inl rfl
  | nil => cases more <;> exact .inr ⟨rfl, by simp [List.intercalate]⟩

/-- A file starts with a name, a bracket or a line end, and so with no byte order mark. -/
theorem dropByteOrderMark_render {sections : List Section} (hbare : ∀ s ∈ sections, s.IsBare) :
    Text.dropByteOrderMark (render sections).toList = (render sections).toList := by
  have hhead : (render sections).toList.head? ≠ some '\uFEFF' := by
    unfold render
    rw [String.toList_ofList]
    cases sections with
    | nil => simp [List.intercalate]
    | cons s sections =>
      rw [List.map_cons]
      rcases head?_intercalate_cons s.render (sections.map Section.render) with heq | ⟨-, hmem⟩
      · rw [heq]
        obtain ⟨title, settings⟩ := s
        have hs := hbare _ (.head sections)
        cases title with
        | table name => simp [Section.render, Title.render]
        | item name => simp [Section.render, Title.render]
        | none =>
          cases settings with
          | nil => simp [Section.render, Title.render]
          | cons setting settings =>
            obtain ⟨c, cs, hcs, hc⟩ := isBareChar_head (hs.settings setting (.head settings))
            simp only [Section.render, Title.render, List.nil_append, List.flatMap_cons, hcs, List.cons_append,
              List.head?_cons]
            rintro ⟨⟩
            exact absurd hc (by decide)
      · intro heq
        rw [heq] at hmem
        simp at hmem
  exact Text.dropByteOrderMark_of_head? hhead

/-- A file is read as the entries that its statements build. -/
theorem parse?_render {sections : List Section} {entries : Entries} {current : Key} (hbare : ∀ s ∈ sections, s.IsBare)
    (hfold : (sections.flatMap Section.statements).foldlM Draft.take? .start = some ⟨entries, current⟩)
    (hdates : Dateless (.table (finishEntries entries))) : parse? (render sections) = some (finishEntries entries) := by
  unfold parse?
  rw [dropByteOrderMark_render hbare, statements?_render hbare]
  change ((sections.flatMap Section.statements).foldlM Draft.take? .start).bind _ = _
  rw [hfold]
  change ((Toml.table (finishEntries entries)).withDates?).bind _ = _
  rw [hdates]
  rfl

end ApiProfile.Toml
