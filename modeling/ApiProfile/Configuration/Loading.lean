import ApiProfile.Configuration.Basic
import ApiProfile.Configuration.Layer
/-!
# Loading configurations

Settings come from files in fixed places, from the user's configuration directory, from a file that is
named explicitly, and from the environment. A file in a fixed place need not be there; the explicit
one must. Every text that is there must be well formed in its format. TOML is the format of configurations
that are written here; others are known by how they read alone. The merged settings are then read as a
configuration, where numbers and truth values may stand for texts.
-/

namespace ApiProfile

/-! ## Reading settings -/

namespace Toml

/-- A text; numbers, truth values, dates and times are read as their texts. -/
def text? : Toml → Option String
  | string value => some value
  | integer value => some value.repr
  | float value => some value.text
  | boolean value => some (if value then "true" else "false")
  | datetime text => some text
  | missing | array _ | table _ => none

/-- A tag out of a list, in any case: its text, or a table with the text as only key. -/
def tag? {α : Type} (tags : List (String × α)) : Toml → Option α
  | string text => (tags.find? fun tag => tag.1 = text.toLower).map (·.2)
  | table [(text, _)] => (tags.find? fun tag => tag.1 = text.toLower).map (·.2)
  | _ => none

def list? {α : Type} (item? : Toml → Option α) : Toml → Option (List α)
  | array items => items.mapM item?
  | _ => none

/-- The entries of a record: a table, or a list that gives the first fields in order. -/
def record? (fields : List String) : Toml → Option (List (String × Toml))
  | table entries => some entries
  | array items => some (fields.zip items)
  | _ => none

def required? {α : Type} (entries : List (String × Toml)) (field : String)
    (value? : Toml → Option α) : Option α :=
  (entries.lookup field).bind value?

/-- An entry that may be left out or missing. -/
def optional? {α : Type} (entries : List (String × Toml)) (field : String)
    (value? : Toml → Option α) : Option (Option α) :=
  match entries.lookup field with
  | none | some missing => some none
  | some value => (value? value).map some

def defaulted? {α : Type} (entries : List (String × Toml)) (field : String)
    (default : α) (value? : Toml → Option α) : Option α :=
  match entries.lookup field with
  | none => some default
  | some value => value? value

end Toml

open Toml

def Path.ofSetting? (t : Toml) : Option Path :=
  t.text?.map Path.mk

def Version.ofSetting? (t : Toml) : Option Version :=
  t.text?.bind fun text => (Version.parse text).toOption

def InputSettings.ofSetting? (t : Toml) : Option InputSettings := do
  let entries ← t.record? ["root", "registry"]
  let standard : InputSettings := {}
  return ⟨← defaulted? entries "root" standard.root Path.ofSetting?,
    ← defaulted? entries "registry" standard.registry Path.ofSetting?⟩

def OutputSettings.ofSetting? (t : Toml) : Option OutputSettings := do
  let entries ← t.record? ["dir", "format"]
  let standard : OutputSettings := {}
  return ⟨← defaulted? entries "dir" standard.directory Path.ofSetting?,
    ← defaulted? entries "format" standard.format (tag? OutputFormat.tags)⟩

/-- Reads the settings for mapping, which are the policy alone. -/
def UnmappedPolicy.ofSetting? (t : Toml) : Option UnmappedPolicy := do
  let entries ← t.record? ["unmapped"]
  defaulted? entries "unmapped" .lenient (tag? UnmappedPolicy.tags)

def ProfileSettings.ofSetting? (t : Toml) : Option ProfileSettings := do
  let entries ← t.record? ["name", "api", "profile", "max_version", "registry", "typemaps"]
  let name ← required? entries "name" text?
  let api ← required? entries "api" text?
  let standard : ProfileSettings := { name, api }
  return ⟨name, api, ← optional? entries "profile" text?,
    ← optional? entries "max_version" Version.ofSetting?,
    ← optional? entries "registry" Path.ofSetting?,
    ← defaulted? entries "typemaps" standard.typeTables (list? Path.ofSetting?)⟩

namespace Configuration

def ofSettings? (entries : List (String × Toml)) : Option Configuration := do
  let standard : Configuration := {}
  return ⟨← defaulted? entries "input" standard.input InputSettings.ofSetting?,
    ← defaulted? entries "output" standard.output OutputSettings.ofSetting?,
    ← defaulted? entries "mapping" standard.unmapped UnmappedPolicy.ofSetting?,
    ← defaulted? entries "profiles" standard.profiles (list? ProfileSettings.ofSetting?)⟩

end Configuration

/-! ## Files of settings -/

/-- A format of settings files: the ending that their names have, and how the settings are read from the text of one. -/
structure SettingsFormat where
  ending : String
  plain : ending ≠ "" ∧ '.' ∉ ending.toList ∧ '/' ∉ ending.toList
  read? : String → Option (List (String × Toml))

def SettingsFormat.toml : SettingsFormat := ⟨"toml", by decide, Toml.parse?⟩

/-- The formats of settings files, in the order in which they are tried. TOML is one of them and the only one of its
ending; which others there are, and how they are read, is left open. -/
structure SettingsFormats where
  inOrder : List SettingsFormat
  toml_mem : .toml ∈ inOrder
  eq_toml : ∀ format ∈ inOrder, format.ending = SettingsFormat.toml.ending → format = .toml

def SettingsFormats.tomlOnly : SettingsFormats :=
  ⟨[.toml], .head _, fun _ hformat _ => List.mem_singleton.1 hformat⟩

def SettingsFormats.ofEnding? (formats : SettingsFormats) (ending : String) : Option SettingsFormat :=
  formats.inOrder.find? (·.ending = ending)

namespace Configuration

/-- The settings file of a path: the one at the path, in the format that its ending tells, or else the first one at the
path with the ending of a format added. -/
def settingsFile? (formats : SettingsFormats) (store : FileStore) (path : Path) : Option (SettingsFormat × ByteArray) :=
  match store.file? path with
  | some content => (path.ending?.bind formats.ofEnding?).map (·, content)
  | none => formats.inOrder.findSome? fun format =>
    (store.file? (path.withEnding format.ending)).map (format, ·)

/-- The text of the settings file of a path, if that is a text, with its format. -/
def settingsText? (formats : SettingsFormats) (store : FileStore) (path : Path) : Option (SettingsFormat × String) :=
  (settingsFile? formats store path).bind fun (format, content) => (String.fromUTF8? content).map (format, ·)

/-! ## Layers -/

/-- The settings of a file that need not be there, or be of use. -/
def optionalLayer (formats : SettingsFormats) (store : FileStore) (path : Path) : Option (List (String × Toml)) :=
  match settingsText? formats store path with
  | some (format, text) => format.read? text
  | none => some []

def requiredLayer (formats : SettingsFormats) (store : FileStore) (path : Path) : Option (List (String × Toml)) :=
  (settingsText? formats store path).bind fun (format, text) => format.read? text

/-- The places of configuration files below the working directory. -/
def defaultPlaces : List Path :=
  [⟨"bind.toml"⟩, ⟨".bind.toml"⟩, ⟨"config/bind.toml"⟩]

/-- The user's configuration file: in the directory for such files that the environment names, or in
the usual one below the user's home. -/
def userPlace? (environment : Environment) : Option Path :=
  let inDirectory := fun (directory : Path) => directory.join ⟨"registry-bind/bind.toml"⟩
  match (environment.lookup "XDG_CONFIG_HOME").map Path.mk with
  | some directory =>
    if directory.isAbsolute then some (inDirectory directory) else home? environment inDirectory
  | none => home? environment inDirectory
where
  home? (environment : Environment) (inDirectory : Path → Path) : Option Path :=
    match environment.lookup "HOME" with
    | some home => if home = "" then none else some (inDirectory ((Path.mk home).join ⟨".config"⟩))
    | none => none

/-- Every place of a configuration file that need not be there, in the order of layers. -/
def places (environment : Environment) : List Path :=
  defaultPlaces ++ (userPlace? environment).toList

/-- The places that files are looked for at: the user's one only if there is something. -/
def searched (store : FileStore) (environment : Environment) : List Path :=
  defaultPlaces ++ (userPlace? environment).toList.filter store.pathExists

/-- The settings of all layers, in the order of layers. -/
def layers? (formats : SettingsFormats) (store : FileStore) (environment : Environment) (explicit : Option Path) :
    Option (List (List (String × Toml))) := do
  let files ← (searched store environment).mapM (optionalLayer formats store)
  let named ← explicit.toList.mapM (requiredLayer formats store)
  return files ++ named ++ [Layer.ofEnvironment environment]

/-- The configuration that is read from files in some formats. -/
def loadIn (formats : SettingsFormats) (store : FileStore) (environment : Environment) (explicit : Option Path) :
    Except Failure Configuration :=
  let settings? := (layers? formats store environment explicit).map (·.foldl Layer.merge [])
  match settings?.bind ofSettings? with
  | some configuration => .ok configuration
  | none => .error .badConfiguration

def load : FileStore → Environment → Option Path → Except Failure Configuration :=
  loadIn .tomlOnly

end Configuration
end ApiProfile
