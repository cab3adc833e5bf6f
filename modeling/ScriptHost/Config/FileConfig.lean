import ScriptHost.Config.Startup
import ScriptHost.Config.Tree

/-! Configurations as files hold them: sections of trees. Readers see a section as texts under dotted
keys and find it whatever the case of its name; a spelling that is met exactly comes first. -/

namespace ScriptHost

/-- What a section of a file holds. -/
abbrev FileSection := Dict (Tree Scalar)

structure FileConfig where
  sections : Dict FileSection

namespace FileConfig

/-- The configuration without any file. -/
def default : FileConfig := ⟨Dict.ofList [(Startup.sectionName, Dict.ofList
  [(Startup.engineKey, .leaf (.string Startup.defaultEngine)),
    (Startup.enabledKey, .leaf (.boolean true))])]⟩

def names (c : FileConfig) : List String := c.sections.keys

/-- The section of a name, or else the first one whose name differs from it only in case. -/
def find? (c : FileConfig) (name : String) : Option FileSection :=
  match c.sections.get? name with
  | some s => some s
  | none => (c.sections.entries.find? fun e => Text.sameIgnoringCase e.1 name).map (·.2)

/-- A section as texts under dotted keys. Of two values for one key the later one counts. -/
def flatten (s : FileSection) : Section := Dict.ofList (Tree.flattenEntries "" s.entries)

def keyValues? (c : FileConfig) (name : String) : Option Section := (c.find? name).map flatten

/-- A section of texts as files hold it. -/
def unflattened (s : Section) : FileSection := s.mapValues fun _ v => .leaf (.string v)

/-- Replaces the first section whose name differs from the given one at most in case, or adds one. -/
def setKeyValues (c : FileConfig) (name : String) (s : Section) : FileConfig :=
  let spelling := (c.names.find? fun k => Text.sameIgnoringCase k name).getD name
  ⟨c.sections.insert spelling (unflattened s)⟩

/-- The entries of a section, and over them those of another. -/
def extend (s later : FileSection) : FileSection :=
  later.entries.foldl (fun s e => s.insert e.1 e.2) s

/-- Unites the section of a lower-case name with the first other spelling of it, if there is one. The
lower-case section wins entry by entry, as that is how overrides from the environment arrive. -/
def foldName (c : FileConfig) (lower : String) : FileConfig :=
  let other := c.names.find? fun k => k != lower && Text.sameIgnoringCase k lower
  match other, c.sections.get? lower with
  | some name, some later =>
    let sections := c.sections.erase lower
    match sections.get? name with
    | some s => ⟨sections.insert name (extend s later)⟩
    | none => ⟨sections⟩
  | _, _ => c

/-- Unites every lower-case section with another spelling of its name. -/
def foldCase (c : FileConfig) : FileConfig :=
  (c.names.filter fun k => k == Text.lower k).foldl foldName c

instance : ConfigSource FileConfig where
  read? := keyValues?
  write := setKeyValues
  sectionNames := names

/-- The configuration of a tree, if its entries are tables of scalars and tables. -/
def ofEntries? (es : List (String × Tree (Option Scalar))) : Option FileConfig := do
  let sections ← es.mapM fun e =>
    match e.2 with
    | .leaf _ => none
    | .table inner => (Tree.solidEntries? inner).map fun s => (e.1, Dict.ofList s)
  return ⟨Dict.ofList sections⟩

/-- The configuration as the entries of a tree. -/
def toEntries (c : FileConfig) : List (String × Tree Scalar) :=
  c.sections.entries.map fun e => (e.1, .table e.2.entries)

end FileConfig

end ScriptHost
