import ScriptHost.Text.Leading
import ScriptHost.Text.Lines
import ScriptHost.Text.Number

/-! The options of a command line and of its commands: what each takes, and how a list of arguments is
told apart into options, positional arguments and the name of a command. -/

namespace ScriptHost.CommandLine

/-- Why arguments are no use of the program. The first two ask for something else than a command. -/
inductive UsageError
  | help
  | version
  | noArguments
  | noCommand
  | unknownCommand (name : String)
  | missingFile
  | unknownArgument (arg : String)
  /-- An option or a path without a value. -/
  | missingValue (name : String)
  | malformedValue (name value : String)
  /-- An option that may be given only once. -/
  | repeated (name : String)
  /-- A value for an option that takes none. -/
  | unexpectedValue (name value : String)
  deriving DecidableEq

/-- What an option takes. -/
inductive OptionKind
  | help
  | version
  /-- Nothing; it counts how often it is given. -/
  | counter
  /-- Nothing; it is given or not. -/
  | switch
  | path
  | text
  /-- A text for every time it is given. -/
  | texts
  | seconds
  deriving DecidableEq

structure OptionSpec where
  name : String
  letter : Option Char
  kind : OptionKind
  deriving DecidableEq

def OptionSpec.takesValue (o : OptionSpec) : Bool :=
  match o.kind with
  | .path | .text | .texts | .seconds => true
  | .help | .version | .counter | .switch => false

/-- The options of the program or of one of its commands, and what else may follow. -/
structure Level where
  options : List OptionSpec
  /-- The name of the one positional argument, which is a path. -/
  file : Option String
  commands : List String

namespace Level

def named? (l : Level) (name : String) : Option OptionSpec := l.options.find? (·.name == name)

def lettered? (l : Level) (c : Char) : Option OptionSpec := l.options.find? (·.letter == some c)

end Level

/-- The options met so far, each with the values it has been given. -/
abbrev Given := List (String × List String)

namespace Given

def values (g : Given) (name : String) : List String := (g.lookup name).getD []

def has (g : Given) (name : String) : Bool := (g.lookup name).isSome

/-- One more value for an option. -/
def add (g : Given) (name value : String) : Given :=
  (name, g.values name ++ [value]) :: g.filter (·.1 != name)

/-- Takes an option with its value, if it has one. -/
def accept (g : Given) (o : OptionSpec) (value : Option String) : Except UsageError Given :=
  match o.kind, value with
  | .help, _ => .error .help
  | .version, _ => .error .version
  | .counter, _ => .ok (g.add o.name "")
  | .switch, _ => if g.has o.name then .error (.repeated o.name) else .ok (g.add o.name "")
  | _, none => .error (.missingValue o.name)
  | .texts, some v => .ok (g.add o.name v)
  | kind, some v =>
    if g.has o.name then .error (.repeated o.name)
    else if kind = .path && v.isEmpty then .error (.missingValue o.name)
    else if kind = .seconds && (Text.word64? v).isNone then .error (.malformedValue o.name v)
    else .ok (g.add o.name v)

end Given

/-- How far a list of arguments has been read. -/
structure Progress where
  given : Given := []
  /-- An option that has not been taken yet, as its value may follow or has just been met. -/
  pending : Option (OptionSpec × Option String) := none
  /-- Whether the positional argument has been met. -/
  hasFile : Bool := false
  /-- Whether only positional arguments can follow. -/
  trailing : Bool := false

namespace Progress

/-- Whether the next argument is the value of an option. -/
def awaits (p : Progress) : Bool :=
  match p.pending with
  | some (_, none) => !p.trailing
  | _ => false

/-- Takes the pending option. -/
def resolve (p : Progress) : Except UsageError Progress :=
  match p.pending with
  | none => .ok p
  | some (o, value) => do return { p with given := ← p.given.accept o value, pending := none }

/-- Meets an option whose value may follow. -/
def await (p : Progress) (o : OptionSpec) (value : Option String) : Except UsageError Progress := do
  return { ← p.resolve with pending := some (o, value) }

/-- Takes an option at once. -/
def take (p : Progress) (o : OptionSpec) (value : Option String) : Except UsageError Progress := do
  let p ← p.resolve
  return { p with given := ← p.given.accept o value }

/-- An option by its name, with its value after an equals sign if there is one. -/
def long (p : Progress) (l : Level) (body : List Char) : Except UsageError Progress :=
  let name := String.ofList (body.takeWhile (· != '='))
  let value := match body.dropWhile (· != '=') with
    | _ :: v => some (String.ofList v)
    | [] => none
  match l.named? name with
  | none => .error (.unknownArgument ("--" ++ name))
  | some o =>
    if o.takesValue then if value.isSome then p.take o value else p.await o none
    else match value with
      | some v => .error (.unexpectedValue name v)
      | none => p.take o none

/-- Options by their letters. What follows the letter of an option that takes a value is the value. -/
def letters (p : Progress) (l : Level) : List Char → Except UsageError Progress
  | [] => .ok p
  | c :: rest =>
    match l.lettered? c with
    | none => .error (.unknownArgument (String.ofList ['-', c]))
    | some o =>
      if o.takesValue then
        match rest with
        | [] => p.await o none
        | '=' :: v => p.take o (some (String.ofList v))
        | v => p.take o (some (String.ofList v))
      else do (← p.take o none).letters l rest

/-- An argument that belongs to no option. -/
def positional (p : Progress) (l : Level) (arg : String) : Except UsageError Progress :=
  match l.file with
  | some name =>
    if p.hasFile then .error (.unknownArgument arg)
    else do return { ← p.await ⟨name, none, .path⟩ (some arg) with hasFile := true }
  | none =>
    if l.commands.isEmpty || (p.trailing && l.commands.contains arg) then .error (.unknownArgument arg)
    else .error (.unknownCommand arg)

/-- One argument that is not the name of a command. -/
def step (p : Progress) (l : Level) (arg : String) : Except UsageError Progress :=
  if p.trailing then p.positional l arg
  else
    match arg.toList with
    | ['-', '-'] => .ok { p with trailing := true }
    | '-' :: '-' :: body => p.long l body
    | '-' :: c :: rest => p.letters l (c :: rest)
    | _ =>
      match p.pending with
      | some (o, none) => .ok { p with pending := some (o, some arg) }
      | _ => p.positional l arg

/-- Reads arguments up to the name of a command, which is given with those after it. -/
def read (l : Level) (p : Progress) :
    List String → Except UsageError (Progress × Option (String × List String))
  | [] => .ok (p, none)
  | arg :: rest =>
    if !p.trailing && !p.awaits && l.commands.contains arg then .ok (p, some (arg, rest))
    else do read l (← p.step l arg) rest

end Progress

end ScriptHost.CommandLine
