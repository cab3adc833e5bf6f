import Std.Time.Format
import ScriptHost.CommandLine.Commands
import ScriptHost.CommandLine.Usage

/-! The program: reads what a command needs, has the command do its work, and writes what comes of it. -/

namespace ScriptHost.CommandLine

/-- A file as it is read. -/
def readFile (path : String) : IO FileText := do
  try
    return .ok (← IO.FS.readFile path)
  catch e =>
    return .error (match e with
      | .noFileOrDirectory .. => .missing
      | .inappropriateType _ code _ => if code == 21 || code + 21 == 0 then .isDirectory else .notDirectory
      | .userError _ => .notText
      | e => .other (toString e))

/-- The variables of the environment. -/
def environment : IO (List (String × String)) := do
  match ← readFile "/proc/self/environ" with
  | .ok text => return (Text.split '\x00' text).filterMap fun entry =>
      match Text.splitFirst '=' entry with
      | (name, some value) => some (name, value)
      | _ => none
  | .error _ => return []

/-- The files that settings come from. -/
structure Found where
  user : Option (String × FileText)
  project : Option (String × FileText)
  named : Option (String × FileText)

def findFirst : List String → IO (Option (String × FileText))
  | [] => return none
  | path :: rest => do
    let file ← readFile path
    if file.exists then return some (path, file) else findFirst rest

def read (path : Option String) : IO (Option (String × FileText)) :=
  path.mapM fun path => do return (path, ← readFile path)

def findFiles (named : Option String) : IO Found := do
  let user := ConfigInputs.userFile? (← IO.getEnv "XDG_CONFIG_HOME") (← IO.getEnv "HOME")
  return ⟨← read user, ← findFirst ConfigInputs.projectFiles, ← read named⟩

def Found.inputs (f : Found) (environment : List (String × String)) : ConfigInputs where
  user := (f.user.map (·.2)).getD (.error .missing)
  project := (f.project.map (·.2)).getD (.error .missing)
  named := f.named
  environment := environment

/-- An id that nobody has had before, with the marks of a random one. -/
def freshId : IO ObjectId := do
  let bytes ← IO.getRandomBytes 16
  let hex := bytes.toList.zipIdx.flatMap fun (b, i) =>
    let n := b.toNat
    Text.hexDigits 2 (if i = 6 then 64 + n % 16 else if i = 8 then 128 + n % 64 else n)
  return (ObjectId.parse? (String.ofList hex)).getD .nil

def perform (i : Invocation) (c : FileConfig) (f : Found) : IO Outcome := do
  match i.command with
  | .engines => return listEngines c
  | .compile file json =>
    let now ← Std.Time.Timestamp.now
    let time := (Std.Time.DateTime.ofTimestamp now .UTC).toISO8601String
    return compileFile c file (← readFile file) json (← freshId) time
  | .run file options =>
    let ids : RunIds := ⟨← freshId, ← freshId, ← freshId, ← freshId⟩
    return runFile c file (← readFile file) options ids
  | .config validate =>
    let user := f.user.map fun (path, file) => (path, file.exists)
    return showConfig c (ConfigInputs.describe i.config (f.project.map (·.1)) user) validate

/-- A record in one line. -/
def recordLine (r : LogRecord) : String :=
  " ".intercalate (r.level.name.toUpper :: r.message :: r.fields.map fun (k, v) => k ++ "=" ++ v)

/-- The records that are wanted. -/
def wanted (verbosity : Nat) (r : LogRecord) : Bool := verbosity > 0 || r.level != .info

def report (i : Invocation) (o : Outcome) : IO UInt32 := do
  let logs := ((o.logs.filter (wanted i.verbosity)).map recordLine)
  logs.forM (fun line => IO.eprintln line)
  if let some directory := i.logDirectory then
    IO.FS.createDirAll directory
    IO.FS.withFile (ConfigInputs.joinPath directory "sandscript.log") .append fun h =>
      logs.forM (fun line => h.putStrLn line)
  o.output.forM (fun line => IO.println line)
  o.complaints.forM (fun line => IO.eprintln line)
  match o.failure with
  | none => return 0
  | some f =>
    IO.eprintln ("Error: " ++ f.message)
    if let some cause := f.cause then IO.eprintln ("\nCaused by:\n    " ++ cause)
    return 1

def start (i : Invocation) : IO UInt32 := do
  let f ← findFiles i.config
  let env ← environment
  let loaded := if i.noConfig then .ok .default else FileConfig.load (f.inputs env)
  match loaded with
  | .error e => report i (.failed e.message)
  | .ok c => report i (← perform i c f)

end ScriptHost.CommandLine

open ScriptHost.CommandLine in
def main (args : List String) : IO UInt32 := do
  match Invocation.parse args with
  | .error e =>
    if e.isRequest then
      IO.println e.message
      return 0
    else
      IO.eprintln e.message
      return 2
  | .ok i => start i
