import ApiProfile.Proofs.Configuration.Layers
import ApiProfile.Proofs.Files.Writing
import ApiProfile.Proofs.Profile.Source
/-!
# Saved configurations are loaded back

A configuration that was written to a file with the ending of TOML is loaded from there as it was, whatever settings lie
in the usual places, and whichever other formats these may have (`load_of_write?`). The ending is what tells the format,
so a file of an unknown ending is not loaded at all (`load_other_ending`).
-/

namespace ApiProfile.Configuration

variable {formats : SettingsFormats} {store saved : FileStore} {c : Configuration} {path : Path}

/-! ## Files of settings -/

theorem ofEnding?_eq_some {ending : String} {format : SettingsFormat} (h : formats.ofEnding? ending = some format) :
    format ∈ formats.inOrder ∧ format.ending = ending :=
  ⟨List.mem_of_find?_eq_some h, by simpa using List.find?_some h⟩

theorem ofEnding?_toml (formats : SettingsFormats) :
    formats.ofEnding? SettingsFormat.toml.ending = some .toml := by
  cases hfound : formats.ofEnding? SettingsFormat.toml.ending with
  | none => exact absurd (decide_eq_true rfl) (List.find?_eq_none.1 hfound .toml formats.toml_mem)
  | some format =>
    obtain ⟨hmem, hending⟩ := ofEnding?_eq_some hfound
    rw [formats.eq_toml format hmem hending]

theorem settingsFile?_of_file {content : ByteArray} (hfile : store.file? path = some content)
    (hending : path.ending? = some SettingsFormat.toml.ending) :
    settingsFile? formats store path = some (.toml, content) := by
  unfold settingsFile?
  rw [hfile, hending, Option.bind_some, ofEnding?_toml]
  rfl

theorem settingsText?_of_render (h : settingsFile? formats store path = some (.toml, c.render.toUTF8)) :
    settingsText? formats store path = some (.toml, c.render) := by
  have hdecoded : String.fromUTF8? c.render.toUTF8 = some c.render := dif_pos c.render.isValidUTF8
  unfold settingsText?
  rw [h, Option.bind_some]
  dsimp only
  rw [hdecoded]
  rfl

/-- If entries come to what they came to, or else to one thing, then so does the first find. -/
theorem findSome?_cases {α β : Type} {f g : α → Option β} {l : List α} {b : β} (h : ∀ a ∈ l, f a = g a ∨ f a = some b) :
    l.findSome? f = l.findSome? g ∨ l.findSome? f = some b := by
  induction l with
  | nil => exact .inl rfl
  | cons a l ih =>
    rw [List.findSome?_cons, List.findSome?_cons]
    rcases h a (.head l) with ha | ha
    · rw [ha]
      cases g a with
      | some found => exact .inl rfl
      | none => exact ih fun a ha => h a (.tail _ ha)
    · rw [ha]
      exact .inr rfl

/-- The file that was written is only found by the ending of TOML. -/
theorem eq_toml_of_place? {content : ByteArray} (hwrote : FileStore.Wrote path content store saved)
    (hending : path.ending? = some SettingsFormat.toml.ending) {format : SettingsFormat}
    (hformat : format ∈ formats.inOrder) {other : Path} (hother : other.HasEnding format.ending)
    (hplace : store.place? other = store.place? path) : format = .toml := by
  obtain ⟨place, hwritten, -⟩ := hwrote.place
  refine formats.eq_toml format hformat ?_
  exact FileStore.ending_unique hother format.plain.1 (Path.hasEnding_of_ending? hending) SettingsFormat.toml.plain.1
    (hplace.trans hwritten) hwritten

/-- After a file was written, a place leads to it, or to a file of an unknown format, or to what it led to before. -/
theorem settingsFile?_of_wrote {content : ByteArray} (hwrote : FileStore.Wrote path content store saved)
    (hending : path.ending? = some SettingsFormat.toml.ending) (place : Path) :
    settingsFile? formats saved place = some (.toml, content) ∨ settingsFile? formats saved place = none ∨
      store.place? place ≠ store.place? path ∧
        settingsFile? formats saved place = settingsFile? formats store place := by
  unfold settingsFile?
  rw [hwrote.file?]
  by_cases hplace : store.place? place = store.place? path
  · rw [if_pos hplace]
    cases hformat : place.ending?.bind formats.ofEnding? with
    | none => exact .inr (.inl rfl)
    | some format =>
      obtain ⟨ending, hplaceEnding, hfound⟩ := Option.bind_eq_some_iff.1 hformat
      obtain ⟨hmem, rfl⟩ := ofEnding?_eq_some hfound
      rw [eq_toml_of_place? hwrote hending hmem (Path.hasEnding_of_ending? hplaceEnding) hplace]
      exact .inl rfl
  · rw [if_neg hplace]
    cases store.file? place with
    | some other => exact .inr (.inr ⟨hplace, rfl⟩)
    | none =>
      have hformats : ∀ format ∈ formats.inOrder,
          (saved.file? (place.withEnding format.ending)).map (format, ·) =
            (store.file? (place.withEnding format.ending)).map (format, ·) ∨
          (saved.file? (place.withEnding format.ending)).map (format, ·) = some (.toml, content) := by
        intro format hmem
        rw [hwrote.file?]
        split
        · rename_i hlonger
          rcases Path.hasEnding_withEnding format.plain.2.1 format.plain.2.2 place with hsame | hlast
          · rw [hsame] at hlonger
            contradiction
          · rw [eq_toml_of_place? hwrote hending hmem hlast hlonger]
            exact .inr rfl
        · exact .inl rfl
      rcases findSome?_cases hformats with hsame | hfound
      · exact .inr (.inr ⟨hplace, hsame⟩)
      · exact .inl hfound

/-! ## Layers after a write -/

theorem requiredLayer_of_file (hfile : store.file? path = some c.render.toUTF8)
    (hending : path.ending? = some SettingsFormat.toml.ending) : requiredLayer formats store path = some c.entries := by
  unfold requiredLayer
  rw [settingsText?_of_render (settingsFile?_of_file hfile hending)]
  exact c.parse?_render

/-- A place that gives a layer goes on to do so after a configuration was written, and so does the place where it was
written. -/
theorem isSome_optionalLayer (hwrote : FileStore.Wrote path c.render.toUTF8 store saved)
    (hending : path.ending? = some SettingsFormat.toml.ending) {place : Path}
    (h : (optionalLayer formats store place).isSome ∨ store.place? place = store.place? path) :
    (optionalLayer formats saved place).isSome := by
  unfold optionalLayer at h ⊢
  rcases settingsFile?_of_wrote hwrote hending place with hfound | hfound | ⟨hplace, hfound⟩
  · rw [settingsText?_of_render hfound]
    exact Option.isSome_iff_exists.2 ⟨_, c.parse?_render⟩
  · rw [settingsText?, hfound]
    rfl
  · rw [settingsText?, hfound]
    exact h.resolve_right hplace

/-- The user's file counts only if it is there, so it may count because it was written. -/
theorem mem_searched_of_wrote {content : ByteArray} (hwrote : FileStore.Wrote path content store saved)
    {environment : Environment} {place : Path} (h : place ∈ searched saved environment) :
    place ∈ searched store environment ∨ store.place? place = store.place? path := by
  unfold searched at h ⊢
  rcases List.mem_append.1 h with h | h
  · exact .inl (List.mem_append_left _ h)
  · obtain ⟨huser, hexists⟩ := List.mem_filter.1 h
    obtain ⟨written, hwritten, hat⟩ := hwrote.place
    by_cases hplace : store.place? place = store.place? path
    · exact .inr hplace
    · refine .inl (List.mem_append_right _ (List.mem_filter.2 ⟨huser, ?_⟩))
      unfold FileStore.pathExists FileStore.entry? at hexists ⊢
      rw [hwrote.places] at hexists
      cases hfound : store.place? place with
      | none =>
        rw [hfound] at hexists
        cases hexists
      | some found =>
        have hne : found ≠ written := by
          rintro rfl
          exact hplace (hfound.trans hwritten.symm)
        rw [hfound, Option.bind_some, hat, if_neg hne] at hexists
        exact hexists

/-! ## Loading -/

/-- No variable of an environment is a setting. -/
def SetsNothing (environment : Environment) : Prop :=
  ∀ entry ∈ environment, "bind__".toList.isPrefixOf entry.1.toLower.toList = false

theorem ofEnvironment_of_setsNothing {environment : Environment} (h : SetsNothing environment) :
    Layer.ofEnvironment environment = [] := by
  unfold Layer.ofEnvironment
  rw [List.filterMap_eq_nil_iff]
  intro entry hentry
  have hbegins := h entry hentry
  obtain ⟨name, text⟩ := entry
  dsimp only at hbegins ⊢
  rw [if_neg (by rw [hbegins]; decide)]

/-- A configuration that was saved is loaded as it was, whatever settings are in the usual places and in which formats,
as long as they are well formed and no variable sets anything. -/
theorem load_of_write? {environment : Environment} (hending : path.ending? = some "toml")
    (hsaved : store.write? path c.render.toUTF8 = some saved)
    (hplaces : ∀ place ∈ searched store environment, (optionalLayer formats store place).isSome)
    (hvariables : SetsNothing environment) : loadIn formats saved environment (some path) = .ok c := by
  have hname := (Path.hasEnding_of_ending? hending).endsInName SettingsFormat.toml.plain.1
  have hwrote := FileStore.wrote_of_write? hname hsaved
  have hfile : saved.file? path = some c.render.toUTF8 := by rw [hwrote.file?, if_pos rfl]
  obtain ⟨files, hfiles⟩ : ∃ files, (searched saved environment).mapM (optionalLayer formats saved) = some files := by
    cases hfiles : (searched saved environment).mapM (optionalLayer formats saved) with
    | some files => exact ⟨files, rfl⟩
    | none =>
      obtain ⟨place, hplace, hnone⟩ := exists_of_mapM_eq_none hfiles
      have hsome := isSome_optionalLayer hwrote hending ((mem_searched_of_wrote hwrote hplace).imp_left (hplaces place))
      rw [hnone] at hsome
      cases hsome
  have hlayers : layers? formats saved environment (some path) = some (files ++ [c.entries] ++ [[]]) := by
    unfold layers?
    rw [hfiles, ofEnvironment_of_setsNothing hvariables, Option.toList_some, List.mapM_cons, List.mapM_nil,
      requiredLayer_of_file hfile hending]
    rfl
  have hread : ((layers? formats saved environment (some path)).map (·.foldl Layer.merge [])).bind ofSettings? =
      some c := by
    rw [hlayers, Option.map_some, List.foldl_append, List.foldl_append]
    exact c.ofSettings?_merge (files.foldl Layer.merge [])
  unfold loadIn
  dsimp only
  rw [hread]

/-- The usual place holds a configuration of other profiles. -/
def usualFiles : FileStore :=
  ⟨[], [(["bind.toml"], .file (render {}).toUTF8)]⟩

def oneProfile : Configuration where
  output := { directory := ⟨"out"⟩, format := .compact }
  profiles := [{ name := "gles2", api := "gles2", typeTables := [] }]

theorem load_of_write?_over_usual :
    ∃ saved, usualFiles.write? ⟨"saved.toml"⟩ oneProfile.render.toUTF8 = some saved ∧
      load saved [] (some ⟨"saved.toml"⟩) = .ok oneProfile := by
  have hwritten : (usualFiles.write? ⟨"saved.toml"⟩ oneProfile.render.toUTF8).isSome := by decide +kernel
  obtain ⟨saved, hsaved⟩ := Option.isSome_iff_exists.1 hwritten
  refine ⟨saved, hsaved, load_of_write? (by decide +kernel) hsaved (fun place hplace => ?_) nofun⟩
  have hsearched : searched usualFiles [] = defaultPlaces := rfl
  rw [hsearched] at hplace
  unfold optionalLayer
  simp only [defaultPlaces, List.mem_cons, List.not_mem_nil, or_false] at hplace
  rcases hplace with rfl | rfl | rfl
  · have hfile : usualFiles.file? ⟨"bind.toml"⟩ = some (render {}).toUTF8 := rfl
    rw [settingsText?_of_render (settingsFile?_of_file hfile (by decide +kernel))]
    exact Option.isSome_iff_exists.2 ⟨_, parse?_render {}⟩
  · rw [show settingsText? .tomlOnly usualFiles ⟨".bind.toml"⟩ = none from rfl]
    rfl
  · rw [show settingsText? .tomlOnly usualFiles ⟨"config/bind.toml"⟩ = none from rfl]
    rfl

theorem load_other_ending :
    (∀ place ∈ searched (.emptyAt []) [], (optionalLayer .tomlOnly (.emptyAt []) place).isSome) ∧ SetsNothing [] ∧
      ((FileStore.emptyAt []).write? ⟨"settings.conf"⟩ oneProfile.render.toUTF8).map
        (fun saved => load saved [] (some ⟨"settings.conf"⟩)) = some (.error .badConfiguration) := by
  refine ⟨?_, nofun, ?_⟩
  · decide +kernel
  · decide +kernel

end ApiProfile.Configuration
