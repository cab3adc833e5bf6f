import ScriptHost.Config.Environment
import ScriptHost.Config.FileConfig
import ScriptHost.File
import ScriptHost.Toml.Document

/-! Loading a configuration. Its layers, from the weakest on, are the built-in defaults, the file of the
user, the file of the project, the file that the command line names and the environment. -/

namespace ScriptHost

inductive ConfigError
  | notFound (path : String)
  /-- A file is no document, or the layers together are no configuration. -/
  | malformed
  deriving DecidableEq

def ConfigError.message : ConfigError → String
  | notFound path => "configuration file not found: " ++ path
  | malformed => "failed to load configuration"

/-- What one source of settings says: a tree of values under the names of sections. -/
abbrev ConfigLayer := List (String × RawTree)

namespace ConfigLayer

def defaults : ConfigLayer := Tree.rawEntries FileConfig.default.toEntries

/-- Layers put together, where a later one counts over an earlier one. -/
def merged (layers : List ConfigLayer) : ConfigLayer := layers.foldl Tree.mergeEntries []

/-- The layer of a file, which is empty if there is no such file. -/
def ofFile? : FileText → Option ConfigLayer
  | .ok text => Toml.Document.read? text
  | .error f => if f.isAbsence then some [] else none

end ConfigLayer

/-- Everything that a configuration is loaded from. -/
structure ConfigInputs where
  user : FileText
  project : FileText
  /-- The file that the command line names, and its path. -/
  named : Option (String × FileText)
  environment : List (String × String)

namespace ConfigInputs

/-- The layers from the weakest on, if every file is a document. -/
def layers? (i : ConfigInputs) : Option (List ConfigLayer) := do
  let user ← ConfigLayer.ofFile? i.user
  let project ← ConfigLayer.ofFile? i.project
  let named ← match i.named with
    | some (_, file) => ConfigLayer.ofFile? file
    | none => some []
  return [ConfigLayer.defaults, user, project, named, Environment.overrides i.environment]

/-- The path that the command line names, if nothing has it. -/
def absent? (i : ConfigInputs) : Option String := do
  let (path, file) ← i.named
  if file.exists then none else some path

end ConfigInputs

namespace FileConfig

/-- The configuration of all inputs together. Spellings of a section that differ in case are united in
the end. -/
def load (i : ConfigInputs) : Except ConfigError FileConfig :=
  match i.absent? with
  | some path => .error (.notFound path)
  | none =>
    match i.layers?.bind fun layers => ofEntries? (ConfigLayer.merged layers) with
    | some c => .ok c.foldCase
    | none => .error .malformed

/-- The configuration of one file over the defaults. -/
def loadFile (path : String) (file : FileText) : Except ConfigError FileConfig :=
  if !file.exists then .error (.notFound path)
  else
    match (ConfigLayer.ofFile? file).bind fun layer =>
        ofEntries? (ConfigLayer.merged [ConfigLayer.defaults, layer]) with
    | some c => .ok c
    | none => .error .malformed

end FileConfig

/-! ### Where inputs are found -/

namespace ConfigInputs

/-- The names of the file of a project, of which the first that is there counts. -/
def projectFiles : List String := ["sandscript.toml", ".sandscript.toml"]

/-- A path within a directory. -/
def joinPath (directory file : String) : String :=
  if directory.isEmpty || directory.endsWith "/" then directory ++ file else directory ++ "/" ++ file

/-- The file of the user, within the directory of configurations if it is an absolute path and otherwise
within the home directory. -/
def userFile? (configHome home : Option String) : Option String := do
  let directory ← match configHome.filter (·.startsWith "/") with
    | some d => some d
    | none => (home.filter (!·.isEmpty)).map (joinPath · ".config")
  return joinPath (joinPath directory "sandscript") "config.toml"

/-- What tells a user where settings come from: the path that the command line names, the file of the
project that is there, and the file of the user and whether it is there. -/
def describe (named project : Option String) (user : Option (String × Bool)) : List String :=
  ["Configuration sources (in priority order):",
    "  [ENV  ] " ++ Environment.lead ++ "<SECTION>__<KEY>"] ++
  (named.map fun path => "  [FOUND] Explicit: " ++ path).toList ++
  [match project with
    | some path => "  [FOUND] Project: " ++ path
    | none => "  [     ] Project: ./" ++ " or ./".intercalate projectFiles] ++
  (user.map fun (path, found) =>
    "  [" ++ (if found then "FOUND" else "     ") ++ "] Global:  " ++ path).toList ++
  ["  [     ] Default: built-in defaults"]

end ConfigInputs

end ScriptHost
