import ApiProfile.Configuration.Loading
import ApiProfile.Proofs.Configuration.Writing
import ApiProfile.Proofs.Table
import ApiProfile.Proofs.Version
/-!
# The layer of a written configuration

Layers are merged key by key, so what a layer says about a key hides what the layers below it say. A written
configuration says something about every key that is read, and all of it is hidden by what was written: the merged
settings are read as the configuration (`ofSettings?_merge`), whatever the layers below are.
-/

namespace ApiProfile

open Toml

namespace Layer

/-! ## Merging one key -/

/-- What a key leads to after it was set: a table is merged into what it led to before, and all else hides it. -/
def overlay : (value : Toml) → (old : Option Toml) → Toml
  | .table incoming, old => mergeInto incoming (old.getD (.table []))
  | value, _ => value

theorem assign_eq (key : String) (value : Toml) (entries : List (String × Toml)) :
    assign key value entries = upsert key.toLower (overlay value) entries := by
  cases value <;> rw [assign] <;> first | rfl | exact fun _ => nofun

theorem lookup_upsert {α : Type} (key : String) (choose : Option α → α) (entries : List (String × α)) (other : String) :
    (upsert key choose entries).lookup other =
      if other = key then some (choose (entries.lookup key)) else entries.lookup other := by
  induction entries with
  | nil => rw [upsert, Table.lookup_cons_eq, List.lookup_nil, List.lookup_nil]
  | cons entry entries ih =>
    obtain ⟨k, v⟩ := entry
    rw [upsert]
    by_cases hk : k = key
    · subst hk
      rw [if_pos rfl, Table.lookup_cons_eq, Table.lookup_cons_eq, Table.lookup_cons_eq, if_pos rfl]
      split <;> rfl
    · rw [if_neg hk, Table.lookup_cons_eq, Table.lookup_cons_eq, Table.lookup_cons_eq, ih, if_neg (Ne.symm hk)]
      by_cases h : other = key
      · subst h
        rw [if_neg (Ne.symm hk), if_pos rfl, if_pos rfl]
      · rw [if_neg h, if_neg h]

/-- Keys that lead to the setting of the same name. -/
def IsPlainKey (key : String) : Prop :=
  SettingPath.ofText key = [.key key] ∧ key.toLower = key

instance (key : String) : Decidable (IsPlainKey key) :=
  inferInstanceAs (Decidable (_ ∧ _))

theorem merge_cons {key : String} (hkey : IsPlainKey key) (value : Toml) (settings layer : List (String × Toml)) :
    merge settings ((key, value) :: layer) = merge (upsert key (overlay value) settings) layer := by
  have hassigned := assign_eq key value settings
  unfold merge
  rw [List.foldl_cons]
  dsimp only
  rw [hkey.1, assignAt]
  change layer.foldl _ (assign key value settings) = _
  rw [hassigned, hkey.2]

/-- What a key leads to in merged settings depends on the two layers' values for it alone. -/
theorem lookup_merge {layer : List (String × Toml)} (hkeys : ∀ key ∈ layer.map (·.1), IsPlainKey key)
    (hnodup : (layer.map (·.1)).Nodup) (settings : List (String × Toml)) (key : String) :
    (merge settings layer).lookup key =
      match layer.lookup key with
      | some value => some (overlay value (settings.lookup key))
      | none => settings.lookup key := by
  induction layer generalizing settings with
  | nil => rfl
  | cons entry layer ih =>
    obtain ⟨k, v⟩ := entry
    rw [List.map_cons, List.nodup_cons] at hnodup
    rw [merge_cons (hkeys k (.head _)), ih (fun key hkey => hkeys key (.tail _ hkey)) hnodup.2, List.lookup_cons,
      lookup_upsert]
    by_cases h : key = k
    · subst h
      rw [Table.lookup_eq_none hnodup.1]
      simp
    · rw [if_neg h, beq_false_of_ne h]

/-! ## Merging a table -/

theorem overlay_value (value : Written) (old : Option Toml) : overlay value.value old = value.value := by
  cases value <;> rfl

theorem mergeInto_cons (key : String) (value : Toml) (more : List (String × Toml)) (target : Toml) :
    mergeInto ((key, value) :: more) target =
      mergeInto more (.table (upsert key.toLower (overlay value) target.entries)) := by
  rw [mergeInto, assign_eq]

theorem lookup_mergeInto {settings : List (String × Written)} (hkeys : ∀ key ∈ settings.map (·.1), key.toLower = key)
    (hnodup : (settings.map (·.1)).Nodup) (target : Toml) (key : String) :
    (mergeInto (settingEntries settings) target).entries.lookup key =
      ((settingEntries settings).lookup key).or (target.entries.lookup key) := by
  induction settings generalizing target with
  | nil => rfl
  | cons setting settings ih =>
    obtain ⟨name, value⟩ := setting
    rw [List.map_cons, List.nodup_cons] at hnodup
    have hcons : settingEntries ((name, value) :: settings) = (name, value.value) :: settingEntries settings := rfl
    rw [hcons, mergeInto_cons, ih (fun key hkey => hkeys key (.tail _ hkey)) hnodup.2, List.lookup_cons,
      hkeys name (.head _)]
    change ((settingEntries settings).lookup key).or ((upsert name (overlay value.value) target.entries).lookup key) = _
    rw [lookup_upsert, overlay_value]
    by_cases h : key = name
    · subst h
      have hkey : key ∉ (settingEntries settings).map (·.1) := by
        simpa only [settingEntries, List.map_map, Function.comp_def] using hnodup.1
      rw [Table.lookup_eq_none hkey]
      simp
    · have hne : (key == name) = false := by simpa using h
      rw [if_neg h, hne]

theorem exists_mergeInto_cons (entry : String × Toml) (more : List (String × Toml)) (target : Toml) :
    ∃ entries, mergeInto (entry :: more) target = .table entries := by
  induction more generalizing entry target with
  | nil => exact ⟨_, rfl⟩
  | cons next more ih =>
    obtain ⟨key, value⟩ := entry
    rw [mergeInto_cons]
    exact ih next _

end Layer

/-! ## Reading settings back -/

namespace Configuration

open Layer

/-- A table of settings is read as if only the settings of the topmost layer were there. -/
theorem overlay_settings (settings : List (String × Written)) (hne : settings ≠ [])
    (hkeys : ∀ key ∈ settings.map (·.1), key.toLower = key) (hnodup : (settings.map (·.1)).Nodup) (old : Option Toml) :
    ∃ entries, overlay (.table (settingEntries settings)) old = .table entries ∧
      ∀ setting ∈ settings, entries.lookup setting.1 = some setting.2.value := by
  obtain ⟨first, more, rfl⟩ := List.exists_cons_of_ne_nil hne
  obtain ⟨entries, hentries⟩ := exists_mergeInto_cons (first.1, first.2.value) (settingEntries more)
    (old.getD (.table []))
  refine ⟨entries, hentries, fun setting hsetting => ?_⟩
  have hlookup := lookup_mergeInto hkeys hnodup (old.getD (.table [])) setting.1
  have hfound : (settingEntries (first :: more)).lookup setting.1 = some setting.2.value :=
    Table.lookup_of_mem (by simpa [settingEntries, Function.comp_def] using hnodup)
      (List.mem_map.2 ⟨setting, hsetting, rfl⟩)
  rw [hfound] at hlookup
  change (mergeInto ((first.1, first.2.value) :: settingEntries more) _).entries.lookup setting.1 = _ at hlookup
  rw [hentries] at hlookup
  exact hlookup

theorem ofSetting?_format (format : OutputFormat) : tag? OutputFormat.tags (.string format.text) = some format := by
  cases format <;> decide +kernel

theorem ofSetting?_policy (policy : UnmappedPolicy) : tag? UnmappedPolicy.tags (.string policy.text) = some policy := by
  cases policy <;> decide +kernel

theorem ofSetting?_input (c : Configuration) (old : Option Toml) :
    InputSettings.ofSetting? (overlay (.table (settingEntries c.inputSettings)) old) = some c.input := by
  obtain ⟨entries, hentries, hlookup⟩ := overlay_settings c.inputSettings (by simp [inputSettings])
    (by simp only [inputSettings, List.map_cons, List.map_nil, List.forall_mem_cons]; decide +kernel)
    (by simp [inputSettings]) old
  have hroot := hlookup ("root", .text c.input.root.text) (by simp [inputSettings])
  have hregistry := hlookup ("registry", .text c.input.registry.text) (by simp [inputSettings])
  rw [hentries]
  unfold InputSettings.ofSetting? record? defaulted?
  dsimp only [bind, Option.bind]
  rw [hroot, hregistry]
  rfl

theorem ofSetting?_output (c : Configuration) (old : Option Toml) :
    OutputSettings.ofSetting? (overlay (.table (settingEntries c.outputSettings)) old) = some c.output := by
  obtain ⟨entries, hentries, hlookup⟩ := overlay_settings c.outputSettings (by simp [outputSettings])
    (by simp only [outputSettings, List.map_cons, List.map_nil, List.forall_mem_cons]; decide +kernel)
    (by simp [outputSettings]) old
  have hdirectory := hlookup ("dir", .text c.output.directory.text) (by simp [outputSettings])
  have hformat := hlookup ("format", .text c.output.format.text) (by simp [outputSettings])
  have hread := ofSetting?_format c.output.format
  rw [hentries]
  unfold OutputSettings.ofSetting? record? defaulted?
  dsimp only [bind, Option.bind]
  rw [hdirectory, hformat]
  dsimp only [Written.value]
  rw [hread]
  rfl

theorem ofSetting?_mapping (c : Configuration) (old : Option Toml) :
    UnmappedPolicy.ofSetting? (overlay (.table (settingEntries c.mappingSettings)) old) = some c.unmapped := by
  obtain ⟨entries, hentries, hlookup⟩ := overlay_settings c.mappingSettings (by simp [mappingSettings])
    (by simp only [mappingSettings, List.map_cons, List.map_nil, List.forall_mem_cons]; decide +kernel)
    (by simp [mappingSettings]) old
  have hpolicy := hlookup ("unmapped", .text c.unmapped.text) (by simp [mappingSettings])
  rw [hentries]
  unfold UnmappedPolicy.ofSetting? record? defaulted?
  dsimp only [bind, Option.bind]
  rw [hpolicy]
  exact ofSetting?_policy c.unmapped

/-! ## Reading profiles back -/

/-- An optional setting is there if it has a value. -/
theorem lookup_optionalSetting {α : Type} (name : String) (text : α → String) (value : Option α)
    (more : List (String × Written)) (key : String) :
    (settingEntries (optionalSetting name text value ++ more)).lookup key =
      if key = name then (value.map fun v => .string (text v)).or ((settingEntries more).lookup key)
      else (settingEntries more).lookup key := by
  cases value with
  | none => simp [optionalSetting]
  | some v =>
    change ((name, Toml.string (text v)) :: settingEntries more).lookup key = _
    rw [Table.lookup_cons_eq]
    rfl

theorem optional?_of_lookup {α : Type} {entries : List (String × Toml)} {field : String} {value : Option α}
    (text : α → String) (value? : Toml → Option α) (hread : ∀ v, value? (.string (text v)) = some v)
    (h : entries.lookup field = value.map fun v => .string (text v)) :
    optional? entries field value? = some value := by
  unfold optional?
  rw [h]
  cases value with
  | none => rfl
  | some v => exact congrArg (Option.map some) (hread v)

theorem lookup_profileSection (p : ProfileSettings) (key : String) :
    (settingEntries (profileSection p).settings).lookup key =
      if key = "name" then some (.string p.name)
      else if key = "api" then some (.string p.api)
      else if key = "profile" then p.profile.map fun v => .string v
      else if key = "max_version" then p.maxVersion.map fun v => .string v.render
      else if key = "registry" then p.registry.map fun v => .string v.text
      else if key = "typemaps" then some (.array ((p.typeTables.map (·.text)).map .string))
      else none := by
  have hsettings : settingEntries (profileSection p).settings = ("name", .string p.name) :: ("api", .string p.api) ::
      settingEntries (optionalSetting "profile" id p.profile ++
        (optionalSetting "max_version" Version.render p.maxVersion ++
          (optionalSetting "registry" Path.text p.registry ++ [("typemaps", .texts (p.typeTables.map (·.text)))]))) := by
    simp [profileSection, settingEntries, Written.value]
  have htables : (settingEntries [("typemaps", .texts (p.typeTables.map (·.text)))]).lookup key =
      if key = "typemaps" then some (.array ((p.typeTables.map (·.text)).map .string)) else none :=
    Table.lookup_cons_eq ..
  rw [hsettings, Table.lookup_cons_eq, Table.lookup_cons_eq, lookup_optionalSetting, lookup_optionalSetting,
    lookup_optionalSetting, htables]
  by_cases hprofile : key = "profile"
  · subst hprofile
    simp
  by_cases hversion : key = "max_version"
  · subst hversion
    simp
  by_cases hregistry : key = "registry"
  · subst hregistry
    simp
  · simp [hprofile, hversion, hregistry]

theorem ofSetting?_profile (p : ProfileSettings) : ProfileSettings.ofSetting? p.toToml = some p := by
  have hlookup := lookup_profileSection p
  have htables : list? Path.ofSetting? (.array ((p.typeTables.map (·.text)).map .string)) = some p.typeTables := by
    unfold list?
    dsimp only
    rw [List.map_map, mapM_eq_some, List.forall₂_map_left_iff, List.forall₂_same]
    exact fun _ _ => rfl
  have hversion : ∀ v : Version, Version.ofSetting? (.string v.render) = some v := fun v => by
    change (Version.parse v.render).toOption = some v
    rw [Version.parse_render]
    rfl
  have hprofile := optional?_of_lookup id text? (fun _ => rfl) (hlookup "profile")
  have hmaximum := optional?_of_lookup Version.render Version.ofSetting? hversion (hlookup "max_version")
  have hregistry := optional?_of_lookup Path.text Path.ofSetting? (fun _ => rfl) (hlookup "registry")
  unfold ProfileSettings.ofSetting? ProfileSettings.toToml record? required? defaulted?
  dsimp only [bind, Option.bind]
  rw [hlookup "name", hlookup "api", hprofile, hmaximum, hregistry, hlookup "typemaps"]
  change (list? Path.ofSetting? (.array ((p.typeTables.map (·.text)).map .string))).bind _ = _
  rw [htables]
  rfl

/-! ## Reading configurations back -/

theorem names_entries (c : Configuration) :
    (c.entries.map (·.1)).Nodup ∧ ∀ key ∈ c.entries.map (·.1), IsPlainKey key := by
  unfold entries
  split
  · simp only [tableEntries, List.map_cons, List.map_nil]
    decide +kernel
  · simp only [tableEntries, List.map_append, List.map_cons, List.map_nil]
    decide +kernel

theorem lookup_entries (c : Configuration) :
    c.entries.lookup "input" = some (.table (settingEntries c.inputSettings)) ∧
      c.entries.lookup "output" = some (.table (settingEntries c.outputSettings)) ∧
      c.entries.lookup "mapping" = some (.table (settingEntries c.mappingSettings)) ∧
      c.entries.lookup "profiles" = some (.array (c.profiles.map ProfileSettings.toToml)) := by
  unfold entries tableEntries
  split
  · rename_i hnone
    rw [hnone]
    simp [Table.lookup_cons_eq]
  · simp [Table.lookup_cons_eq]

/-- Whatever layers are below it, the layer of a written configuration is read as the configuration. -/
theorem ofSettings?_merge (c : Configuration) (settings : List (String × Toml)) :
    ofSettings? (merge settings c.entries) = some c := by
  obtain ⟨hnodup, hkeys⟩ := c.names_entries
  obtain ⟨hinput, houtput, hmapping, hprofiles⟩ := c.lookup_entries
  have hlookup := lookup_merge hkeys hnodup settings
  have hlist : list? ProfileSettings.ofSetting? (.array (c.profiles.map ProfileSettings.toToml)) = some c.profiles := by
    unfold list?
    dsimp only
    rw [mapM_eq_some, List.forall₂_map_left_iff, List.forall₂_same]
    exact fun p _ => ofSetting?_profile p
  unfold ofSettings? defaulted?
  dsimp only [bind, Option.bind]
  rw [hlookup "input", hlookup "output", hlookup "mapping", hlookup "profiles", hinput, houtput, hmapping, hprofiles]
  dsimp only
  rw [ofSetting?_input, ofSetting?_output, ofSetting?_mapping]
  dsimp only [overlay]
  rw [hlist]
  rfl

end Configuration
end ApiProfile
