import ApiProfile.Configuration.Basic
import ApiProfile.Proofs.Toml.Document
/-!
# What a written configuration holds

The file of a configuration is read as three tables of settings and the list of profiles, each with the settings that it
has. An empty list of profiles is written as well, before the tables.
-/

namespace ApiProfile

open Toml

/-- A profile as its configuration's file is read. -/
def ProfileSettings.toToml (p : ProfileSettings) : Toml :=
  .table (settingEntries (Configuration.profileSection p).settings)

namespace Configuration

variable (c : Configuration)

def inputSettings : List (String × Written) :=
  [("root", .text c.input.root.text), ("registry", .text c.input.registry.text)]

def outputSettings : List (String × Written) :=
  [("dir", .text c.output.directory.text), ("format", .text c.output.format.text)]

def mappingSettings : List (String × Written) :=
  [("unmapped", .text c.unmapped.text)]

/-- The tables of a configuration's file, without the profiles. -/
def tableEntries : List (String × Toml) :=
  [("input", .table (settingEntries c.inputSettings)), ("output", .table (settingEntries c.outputSettings)),
    ("mapping", .table (settingEntries c.mappingSettings))]

/-- What the file of a configuration is read as. -/
def entries : List (String × Toml) :=
  if c.profiles = [] then ("profiles", .array []) :: c.tableEntries
  else c.tableEntries ++ [("profiles", .array (c.profiles.map ProfileSettings.toToml))]

/-! ## Names -/

def profileFields : List String :=
  ["name", "api"] ++ ["profile"] ++ ["max_version"] ++ ["registry"] ++ ["typemaps"]

theorem names_optionalSetting {α : Type} (name : String) (text : α → String) (value : Option α) :
    ((optionalSetting name text value).map (·.1)).Sublist [name] := by
  cases value with
  | none => exact List.nil_sublist _
  | some value => exact List.Sublist.refl _

/-- A profile has each of its fields at most once. -/
theorem names_profileSection (p : ProfileSettings) :
    ((profileSection p).settings.map (·.1)).Sublist profileFields := by
  unfold profileSection
  simp only [List.map_append]
  exact ((((List.Sublist.refl _).append (names_optionalSetting ..)).append (names_optionalSetting ..)).append
    (names_optionalSetting ..)).append (List.Sublist.refl _)

theorem nodup_profileSection (p : ProfileSettings) : ((profileSection p).settings.map (·.1)).Nodup :=
  (names_profileSection p).nodup (by decide +kernel)

theorem isBare_profileSection (p : ProfileSettings) : (profileSection p).IsBare where
  title name hname := by
    cases hname
    decide +kernel
  settings setting hsetting := by
    have hall : ∀ name ∈ profileFields, IsBare name := by decide +kernel
    exact hall _ ((names_profileSection p).subset (List.mem_map_of_mem hsetting))

theorem isBare_table {name : String} {settings : List (String × Written)} (hname : IsBare name)
    (hsettings : ∀ key ∈ settings.map (·.1), IsBare key) : Section.IsBare ⟨.table name, settings⟩ where
  title _ h := by
    cases h
    exact hname
  settings _ h := hsettings _ (List.mem_map_of_mem h)

theorem isBare_sections : ∀ s ∈ c.sections, s.IsBare := by
  intro s hs
  unfold sections at hs
  rw [List.mem_append, List.mem_append] at hs
  rcases hs with (hs | hs) | hs
  · split at hs
    · rw [List.mem_singleton.1 hs]
      exact ⟨nofun, fun setting h => by rw [List.mem_singleton.1 h]; decide +kernel⟩
    · cases hs
  · simp only [List.mem_cons, List.not_mem_nil, or_false] at hs
    rcases hs with rfl | rfl | rfl <;> exact isBare_table (by decide +kernel) (by simp; decide +kernel)
  · obtain ⟨p, -, rfl⟩ := List.mem_map.1 hs
    exact isBare_profileSection p

/-! ## Entries -/

/-- The tables of a configuration's file, each with its settings. -/
def tables : List (String × List (String × Written)) :=
  [("input", c.inputSettings), ("output", c.outputSettings), ("mapping", c.mappingSettings)]

/-- The tables of a configuration's file while it is read. -/
def tableItems : Entries :=
  c.tables.map fun (name, settings) => (name, .table false false (settingItems settings))

def tableSections : List Section :=
  c.tables.map fun (name, settings) => ⟨.table name, settings⟩

theorem nodup_tables : ∀ table ∈ c.tables, (table.2.map (·.1)).Nodup := by
  unfold tables inputSettings outputSettings mappingSettings
  simp

theorem finish_tableItems : finishEntries c.tableItems = c.tableEntries := by
  unfold tableItems tables tableEntries
  simp only [List.map_cons, List.map_nil, finishEntries, Item.finish, finishEntries_settingItems]

theorem dateless_entries : Dateless (.table c.entries) := by
  have htables : ∀ entry ∈ c.tableEntries, Dateless entry.2 := by
    unfold tableEntries
    simp only [List.mem_cons, List.not_mem_nil, or_false]
    rintro entry (rfl | rfl | rfl) <;> exact dateless_settingEntries (by
      simp only [inputSettings, outputSettings, mappingSettings, List.forall_mem_cons]; decide +kernel)
  unfold entries
  split
  · refine dateless_table (by simp [tableEntries]; decide +kernel) fun entry hentry => ?_
    rcases List.mem_cons.1 hentry with rfl | hentry
    · rfl
    · exact htables entry hentry
  · refine dateless_table (by simp [tableEntries]; decide +kernel) fun entry hentry => ?_
    rcases List.mem_append.1 hentry with hentry | hentry
    · exact htables entry hentry
    · rw [List.mem_singleton.1 hentry]
      refine dateless_array fun item hitem => ?_
      obtain ⟨p, -, rfl⟩ := List.mem_map.1 hitem
      exact dateless_settingEntries (isBare_profileSection p).settings

/-- What is written for a configuration is read as its entries. -/
theorem parse?_render : Toml.parse? c.render = some c.entries := by
  by_cases hnone : c.profiles = []
  · have hsections : c.sections = ⟨.none, [("profiles", .texts [])]⟩ :: c.tableSections := by
      unfold sections
      rw [if_pos hnone, hnone]
      rfl
    have hentries : finishEntries (settingItems [("profiles", .texts [])] ++ c.tableItems) = c.entries := by
      rw [finishEntries_append, finish_tableItems]
      unfold entries
      rw [if_pos hnone]
      rfl
    have hnames : ((settingItems [("profiles", .texts [])]).map (·.1) ++ c.tables.map (·.1)).Nodup := by
      simp [settingItems, tables]
    obtain ⟨current, htables⟩ := Draft.foldlM_tables hnames c.nodup_tables []
    have hread : (c.sections.flatMap Section.statements).foldlM Draft.take? .start =
        some ⟨settingItems [("profiles", .texts [])] ++ c.tableItems, current⟩ := by
      rw [hsections, List.flatMap_cons, List.foldlM_append, Draft.foldlM_file (by simp)]
      exact htables
    rw [← hentries]
    exact Toml.parse?_render c.isBare_sections hread (by rw [hentries]; exact c.dateless_entries)
  · have hsections : c.sections = c.tableSections ++
        (c.profiles.map fun p => (profileSection p).settings).map (Section.mk (.item "profiles")) := by
      unfold sections
      rw [if_neg hnone, List.map_map]
      rfl
    obtain ⟨current, htables⟩ := @Draft.foldlM_tables [] c.tables (by simp [tables]) c.nodup_tables []
    have hname : "profiles" ∉ c.tableItems.map (·.1) := by simp [tableItems, tables]
    have hnodup : ∀ settings ∈ c.profiles.map fun p => (profileSection p).settings, (settings.map (·.1)).Nodup := by
      intro settings hsettings
      obtain ⟨p, -, rfl⟩ := List.mem_map.1 hsettings
      exact nodup_profileSection p
    obtain ⟨earlier, last, current', hitems, hlist⟩ :=
      Draft.foldlM_items hname hnodup (by simpa using hnone) current
    have hentries : finishEntries (c.tableItems ++ [("profiles", .tables earlier last)]) = c.entries := by
      rw [finishEntries_append, finish_tableItems, finishEntries, finish_tables hlist, List.map_map]
      unfold entries
      rw [if_neg hnone]
      rfl
    have hread : (c.sections.flatMap Section.statements).foldlM Draft.take? .start =
        some ⟨c.tableItems ++ [("profiles", .tables earlier last)], current'⟩ := by
      rw [hsections, List.flatMap_append, List.foldlM_append, Draft.start, tableSections, htables, List.nil_append]
      exact hitems
    rw [← hentries]
    exact Toml.parse?_render c.isBare_sections hread (by rw [hentries]; exact c.dateless_entries)

end Configuration
end ApiProfile
