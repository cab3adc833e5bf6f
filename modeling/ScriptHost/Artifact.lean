import ScriptHost.Digest.Blake3
import ScriptHost.Language
import ScriptHost.ObjectId

/-! What a compilation yields: executable code with the script it belongs to, or the error that is
reported to the script's owner. -/

namespace ScriptHost

/-- Code that the back end accepted. -/
structure Artifact where
  language : Language
  code : String
  deriving DecidableEq, Inhabited

/-- The hash of the code, by which artifacts are told apart in listings. -/
def Artifact.digest (a : Artifact) : String := Digest.Blake3.hex a.code

/-- A compiled script: whose it is, the language its author wrote, and the code. -/
structure CompiledUnit where
  script : ObjectId
  source : Language
  artifact : Artifact
  deriving DecidableEq, Inhabited

/-- Where a compilation failed: while the language was found out and the source translated, or in
the back end. -/
inductive CompileStage
  | translate
  | backend
  deriving DecidableEq

def CompileStage.name : CompileStage → String
  | translate => "translate"
  | backend => "backend"

structure CompileError where
  language : Language
  stage : CompileStage
  line : Option Nat
  message : String
  deriving DecidableEq

/-- The error in one line, with the line of the source when it is known. -/
def CompileError.text (e : CompileError) : String :=
  let place := match e.line with
    | some n => s!" at line {n}"
    | none => ""
  s!"{e.language.tag} {e.stage.name} error{place}: {e.message}"

end ScriptHost
