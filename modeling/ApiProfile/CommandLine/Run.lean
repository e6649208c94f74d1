import ApiProfile.CommandLine.Arguments
import ApiProfile.Configuration.Loading
import ApiProfile.Json.Profile
import ApiProfile.Json.Text
/-!
# Runs of the program

Carries out what the command line asks for, over files as a value. A run prints lines, may complain at
its end, and leaves files behind. A profile or a type table that fails does not keep the others from
being done; a file that cannot be written ends the run, and what was printed and written before stays.
-/

namespace ApiProfile.CommandLine

/-- Why a run ends without success. -/
inductive Complaint
  | notLoaded
  | unknownProfile (name : String)
  | directoryNotMade (path : Path)
  | fileNotWritten (path : Path)
  | alreadyThere (path : Path)
  | profilesFailed (failed total : Nat)
  | tablesFailed (failed total : Nat)
  deriving DecidableEq, Repr, Inhabited

def Complaint.message : Complaint → String
  | notLoaded => "Failed to load configuration"
  | unknownProfile name => "No profile named '" ++ name ++ "' is configured"
  | directoryNotMade path => "Failed to create " ++ path.text
  | fileNotWritten path => "Failed to write " ++ path.text
  | alreadyThere path => path.text ++ " already exists"
  | profilesFailed failed total => failed.repr ++ " of " ++ total.repr ++ " profiles failed"
  | tablesFailed failed total => failed.repr ++ " of " ++ total.repr ++ " typemaps failed to parse"

/-- What a run comes to: what it prints, its complaint, and the files after it. -/
structure Outcome where
  output : String
  complaint : Option Complaint
  store : FileStore
  deriving Inhabited

namespace Outcome

/-- A run that has done nothing yet. -/
def start (store : FileStore) : Outcome := ⟨"", none, store⟩

def print (outcome : Outcome) (line : String) : Outcome :=
  { outcome with output := outcome.output ++ line ++ "\n" }

def complain (outcome : Outcome) (complaint : Complaint) : Outcome :=
  { outcome with complaint := some complaint }

/-- Complains if any part of the run failed. -/
def complainIf (outcome : Outcome) (failed : Nat) (complaint : Complaint) : Outcome :=
  if failed = 0 then outcome else outcome.complain complaint

/-- What is printed apart from the output: the complaint. -/
def errorOutput (outcome : Outcome) : String :=
  match outcome.complaint with
  | some complaint => "Error: " ++ complaint.message ++ "\n"
  | none => ""

/-- The status that the program ends with. -/
def status (outcome : Outcome) : UInt32 :=
  if outcome.complaint.isSome then 1 else 0

end Outcome

/-! ## Profiles -/

def modelPath (output : OutputSettings) (name : String) : Path :=
  output.directory.join ⟨name ++ ".json"⟩

def modelText (output : OutputSettings) (model : ProfileModel) : String :=
  match output.format with
  | .pretty => model.toJson.pretty
  | .compact => model.toJson.compact

/-- The version that a model is shown with: its limit, or else the latest one that it has. -/
def shownVersion (model : ProfileModel) : String :=
  match model.maxVersion <|> model.registry.latestVersion? with
  | some version => version.render
  | none => "-"

def modelLine (output : OutputSettings) (model : ProfileModel) : String :=
  "✅ " ++ model.name ++ " (up to " ++ shownVersion model ++ ") - "
    ++ model.registry.constants.size.repr ++ " enums, "
    ++ model.registry.groups.size.repr ++ " groups, "
    ++ model.signatures.length.repr ++ " functions -> " ++ (modelPath output model.name).text

/-- Writes models in order and prints a line about each, with its warnings below it. -/
def writeModels (output : OutputSettings) (total : Nat) :
    Outcome → (failed : Nat) → List (String × Except Failure ProfileModel) → Outcome
  | outcome, failed, [] => outcome.complainIf failed (.profilesFailed failed total)
  | outcome, failed, (name, .error fault) :: rest =>
    writeModels output total (outcome.print ("❌ " ++ name ++ " - " ++ fault.message)) (failed + 1) rest
  | outcome, failed, (_, .ok model) :: rest =>
    let path := modelPath output model.name
    match outcome.store.write? path (modelText output model).toUTF8 with
    | none => outcome.complain (.fileNotWritten path)
    | some store =>
      let warnings := model.diagnostics.warnings.map fun d => "   " ++ d.render
      let printed := (modelLine output model :: warnings).foldl Outcome.print { outcome with store }
      writeModels output total printed failed rest

/-- The configured profiles that are asked for by name, in the order of the configuration; no names ask
for all of them. -/
def selectedProfiles (configuration : Configuration) (names : List String) : List Profile :=
  configuration.resolvedProfiles.filter fun p => names.isEmpty || names.contains p.name

/-- Runs the profiles asked for and writes their models. -/
def runProfiles (store : FileStore) (configuration : Configuration) (names : List String) : Outcome :=
  let outcome := Outcome.start store
  match names.find? fun name => (configuration.profile? name).isNone with
  | some name => outcome.complain (.unknownProfile name)
  | none =>
    let profiles := selectedProfiles configuration names
    let (results, _) := Profile.runAll store .empty profiles
    let output := configuration.output
    match store.makeDirectories? output.directory with
    | none => outcome.complain (.directoryNotMade output.directory)
    | some store => writeModels output profiles.length { outcome with store } 0 results

/-! ## Type tables -/

def tableLine (file : Path) : Except Failure TypeTable → String
  | .ok table => "✅ " ++ file.text ++ " - " ++ table.entries.size.repr ++ " entries"
  | .error fault => "❌ " ++ fault.message

def checkTables (store : FileStore) (files : List Path) : Outcome :=
  let results := files.map fun file => (file, TypeTable.read store file)
  let failed := results.countP fun (_, result) => result.toOption.isNone
  let lines := results.map fun (file, result) => tableLine file result
  (lines.foldl Outcome.print (.start store)).complainIf failed (.tablesFailed failed files.length)

/-! ## Configurations -/

/-- Prints a configuration as its file has it. -/
def showConfiguration (store : FileStore) (configuration : Configuration) : Outcome :=
  { Outcome.start store with output := configuration.render }

/-- Writes the configuration of defaults to a file that is not there yet. -/
def createConfiguration (store : FileStore) (path : Path) : Outcome :=
  let outcome := Outcome.start store
  if store.pathExists path then outcome.complain (.alreadyThere path)
  else match store.write? path (Configuration.render {}).toUTF8 with
    | none => outcome.complain (.fileNotWritten path)
    | some store => { outcome with store }.print ("Wrote " ++ path.text)

/-! ## Requests -/

/-- The configuration with what the command line says about running profiles. -/
def adjusted (configuration : Configuration) (directory : Option Path) (strict : Bool) :
    Configuration :=
  { configuration with
    output := { configuration.output with directory := directory.getD configuration.output.directory }
    unmapped := if strict then .strict else configuration.unmapped }

/-- Goes on with the configuration, or complains that there is none. -/
def withConfiguration (formats : SettingsFormats) (store : FileStore) (environment : Environment) (path : Option Path)
    (next : Configuration → Outcome) : Outcome :=
  match Configuration.loadIn formats store environment path with
  | .error _ => (Outcome.start store).complain .notLoaded
  | .ok configuration => next configuration

/-- Carries out a request, with configurations that are read from files in some formats. -/
def Invocation.runIn (formats : SettingsFormats) (store : FileStore) (environment : Environment)
    (invocation : Invocation) : Outcome :=
  let configured := withConfiguration formats store environment invocation.configuration
  match invocation.request with
  | .runProfiles names directory strict =>
    configured fun configuration =>
      CommandLine.runProfiles store (adjusted configuration directory strict) names
  | .checkTables files => CommandLine.checkTables store files
  | .showConfiguration => configured (CommandLine.showConfiguration store)
  | .createConfiguration path => CommandLine.createConfiguration store path

def Invocation.run (store : FileStore) (environment : Environment) (invocation : Invocation) : Outcome :=
  invocation.runIn .tomlOnly store environment

/-! ## Files that count -/

def sourcePaths (profiles : List Profile) : List Path :=
  profiles.flatMap fun p => p.registry :: p.typeTables

/-- The paths that models are written to, and their directory. -/
def modelPaths (output : OutputSettings) (profiles : List Profile) : List Path :=
  output.directory :: profiles.map fun p => modelPath output p.name

/-- The paths whose files a request can depend on, as far as the files known so far tell: what a
configuration names shows only when the files that it is loaded from are known. -/
def Invocation.consulted (formats : SettingsFormats) (store : FileStore) (environment : Environment)
    (invocation : Invocation) : List Path :=
  let places := Configuration.places environment ++ invocation.configuration.toList
  let files := places ++ formats.inOrder.flatMap fun format => places.map (·.withEnding format.ending)
  match invocation.request with
  | .checkTables paths => paths
  | .createConfiguration path => [path]
  | .showConfiguration => files
  | .runProfiles _ directory strict =>
    match Configuration.loadIn formats store environment invocation.configuration with
    | .error _ => files
    | .ok configuration =>
      let output := (adjusted configuration directory strict).output
      files ++ sourcePaths configuration.resolvedProfiles
        ++ modelPaths output configuration.resolvedProfiles

end ApiProfile.CommandLine
