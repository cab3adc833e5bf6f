import ScriptHost.CommandLine.Option

/-! The arguments of the program: options for the whole program, the name of a command, and the options of
the command. Options for the whole program may also follow the name. -/

namespace ScriptHost.CommandLine

/-- How a script is run. -/
structure RunOptions where
  events : List String
  region : String
  privileged : Bool
  /-- How many seconds the script may take to handle its events. -/
  timeout : Nat
  deriving DecidableEq

inductive Command
  /-- Lists the engines. -/
  | engines
  /-- Compiles a file and shows the outcome. -/
  | compile (file : String) (json : Bool)
  /-- Loads a file into a region of its own and posts events to it. -/
  | run (file : String) (options : RunOptions)
  /-- Shows the configuration and where it comes from. -/
  | config (validate : Bool)
  deriving DecidableEq

/-- Everything that the arguments say. -/
structure Invocation where
  /-- How much to log. -/
  verbosity : Nat
  config : Option String
  noConfig : Bool
  logDirectory : Option String
  command : Command
  deriving DecidableEq

namespace Invocation

def helpOption : OptionSpec := ⟨"help", some 'h', .help⟩

/-- The options that may stand before and after the name of a command. -/
def commonOptions : List OptionSpec :=
  [⟨"verbose", some 'v', .counter⟩, ⟨"config", none, .path⟩, ⟨"no-config", none, .switch⟩,
    ⟨"log-dir", none, .path⟩, helpOption]

def fileName : String := "file"

def defaultRegion : String := "Sandbox"

/-- How many seconds a script may take to handle its events if nothing else is said. -/
def defaultTimeout : Nat := 10

/-- The commands, and what each takes besides the common options. -/
def commands : List (String × Level) :=
  [("engines", ⟨commonOptions, none, []⟩),
    ("compile", ⟨⟨"json", none, .switch⟩ :: commonOptions, some fileName, []⟩),
    ("run", ⟨[⟨"event", some 'e', .texts⟩, ⟨"region", none, .text⟩, ⟨"privileged", none, .switch⟩,
      ⟨"timeout", none, .seconds⟩] ++ commonOptions, some fileName, []⟩),
    ("config", ⟨⟨"validate", none, .switch⟩ :: commonOptions, none, []⟩)]

def helpCommand : String := "help"

/-- What stands before the name of a command. -/
def program : Level :=
  ⟨⟨"version", some 'V', .version⟩ :: commonOptions, none, commands.map (·.1) ++ [helpCommand]⟩

/-- The request for help on a command. -/
def helpOn : List String → UsageError
  | [] => .help
  | [name] => if program.commands.contains name then .help else .unknownCommand name
  | name :: next :: _ =>
    if program.commands.contains name then .unknownCommand next else .unknownCommand name

/-- The command of a name from the options that it has been given. -/
def commandOf (name : String) (g : Given) : Command :=
  let file := (g.values fileName).headD ""
  match name with
  | "engines" => .engines
  | "compile" => .compile file (g.has "json")
  | "run" => .run file ⟨g.values "event", (g.values "region").headD defaultRegion, g.has "privileged",
      ((g.values "timeout").head?.bind Text.word64?).elim defaultTimeout UInt64.toNat⟩
  | _ => .config (g.has "validate")

/-- The values of a common option. Those after the name of the command take the place of those before. -/
def common (before after : Given) (name : String) : List String :=
  if after.has name then after.values name else before.values name

/-- Reads what follows the name of a command. -/
def readCommand (l : Level) (args : List String) : Except UsageError Given := do
  let (p, _) ← Progress.read l {} args
  let p ← p.resolve
  if l.file.isSome && !p.hasFile then .error .missingFile else .ok p.given

/-- Tells arguments without a command from none at all. -/
def withoutCommand (p : Progress) : Except UsageError Invocation := do
  let p ← p.resolve
  .error (if p.given.isEmpty then .noArguments else .noCommand)

def parse (args : List String) : Except UsageError Invocation := do
  let (p, command) ← Progress.read program {} args
  match command with
  | none => withoutCommand p
  | some (name, rest) =>
    if name = helpCommand then .error (helpOn rest)
    else
      let after ← readCommand ((commands.lookup name).getD program) rest
      let before := (← p.resolve).given
      let common := common before after
      return {
        verbosity := min 255 (common "verbose").length
        config := (common "config").head?
        noConfig := !(common "no-config").isEmpty
        logDirectory := (common "log-dir").head?
        command := commandOf name after }

end Invocation

end ScriptHost.CommandLine
