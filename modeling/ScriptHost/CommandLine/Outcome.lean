import ScriptHost.Artifact
import ScriptHost.Log
import ScriptHost.Text.Json

/-! What a command leaves behind, and how it words compiled scripts and their errors. -/

namespace ScriptHost.CommandLine

/-- Why a command fails, and what lies behind it if that is told apart. -/
structure Failure where
  message : String
  cause : Option String := none

/-- What a command writes, line by line, and whether it fails. -/
structure Outcome where
  output : List String := []
  /-- Lines for the error stream. -/
  complaints : List String := []
  logs : List LogRecord := []
  failure : Option Failure := none

namespace Outcome

def failed (message : String) (cause : Option String := none) : Outcome :=
  { failure := some ⟨message, cause⟩ }

end Outcome

/-- A compiled script in one line. -/
def unitLine (file : String) (u : CompiledUnit) : String :=
  let digest := String.ofList (u.artifact.digest.toList.take 16)
  s!"compiled {file} ({u.source.tag} -> {u.artifact.language.tag}) digest {digest}"

/-- A compiled script and the time of its compilation. -/
def unitJson (u : CompiledUnit) (time : String) : Text.Json :=
  .object [("script_id", .string (toString u.script)), ("source_language", .string u.source.tag),
    ("artifact", .object [("backend_language", .string u.artifact.language.tag),
      ("code", .string u.artifact.code), ("digest", .string u.artifact.digest)]),
    ("compiled_at", .string time)]

/-- An error of a file in one line. -/
def errorLine (file : String) (e : CompileError) : String :=
  let place := match e.line with
    | some n => s!"{file}:{n}"
    | none => file
  s!"{place}: {e.language.tag} {e.stage.name} error: {e.message}"

def errorJson (e : CompileError) : Text.Json :=
  .object [("error", .object [("language", .string e.language.tag),
    ("line", (e.line.map Text.Json.number).getD .null), ("message", .string e.message),
    ("stage", .string e.stage.name)])]

def compilationFailed : Failure := ⟨"compilation failed", none⟩

end ScriptHost.CommandLine
