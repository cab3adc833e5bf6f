/-! Files as a host reads them: a text, or why there is none. -/

namespace ScriptHost

inductive FileFault
  | missing
  /-- A part of the path is a file and no directory. -/
  | notDirectory
  | isDirectory
  /-- The bytes are no text. -/
  | notText
  | other (reason : String)
  deriving DecidableEq

namespace FileFault

def message : FileFault → String
  | missing => "No such file or directory (os error 2)"
  | notDirectory => "Not a directory (os error 20)"
  | isDirectory => "Is a directory (os error 21)"
  | notText => "stream did not contain valid UTF-8"
  | other reason => reason

/-- Whether nothing has the path. -/
def isAbsence : FileFault → Bool
  | missing | notDirectory => true
  | _ => false

end FileFault

/-- What reading a file gives. -/
abbrev FileText := Except FileFault String

/-- Whether something has the path. -/
def FileText.exists : FileText → Bool
  | .ok _ => true
  | .error f => !f.isAbsence

end ScriptHost
