import ScriptHost.CommandLine.Outcome
import ScriptHost.File
import ScriptHost.Text.Lines

/-! Scripts in files: the name that a script takes from its path, and what is said of one that cannot be
read. -/

namespace ScriptHost.CommandLine

/-- The last name of a path, if it is none of the dots that stand for directories. -/
def fileName? (path : String) : Option String :=
  match ((Text.split '/' path).filter fun p => p != "" && p != ".").getLast? with
  | some name => if name == ".." then none else some name
  | none => none

/-- A file name without what follows its last dot, unless the dot is its beginning. -/
def stem (name : String) : String :=
  match (name.toList.reverse.dropWhile (· != '.')) with
  | _ :: c :: before => String.ofList (c :: before).reverse
  | _ => name

/-- The name of the script in a file. -/
def scriptName (path : String) : String := ((fileName? path).map stem).getD "script"

/-- Goes on with the name and the source of the script in a file. -/
def withScript (path : String) (content : FileText) (go : (name source : String) → Outcome) : Outcome :=
  match content with
  | .ok source => go (scriptName path) source
  | .error f => .failed ("failed to read " ++ path) (some f.message)

end ScriptHost.CommandLine
