import ScriptHost.Text.Blank

/-! The languages in which scripts are written. Lua is the one that runs; every other language is
lowered to it. -/

namespace ScriptHost

/-- A language of scripts: Lua 5.4, or Slang, which is Lua with the operators `!=`, `&&`, `||`, `!`
and with `//` and `/* */` comments. -/
inductive Language
  | lua
  | slang
  deriving DecidableEq, Hashable, Inhabited

namespace Language

/-- The tag of a language in source headers and in the configuration. -/
def tag : Language → String
  | lua => "lua"
  | slang => "slang"

instance : ToString Language := ⟨tag⟩

/-- All languages, in the order in which they are listed. -/
def all : List Language := [lua, slang]

/-- A tag that names no language, in lower case. -/
structure Unsupported where
  tag : String
  deriving DecidableEq

def Unsupported.message (e : Unsupported) : String := s!"unsupported script language: '{e.tag}'"

/-- The language that a text names, whatever the case of its letters and the blanks around it. -/
def parse (s : String) : Except Unsupported Language :=
  let name := Text.lower (Text.trim s)
  match all.find? (·.tag == name) with
  | some l => .ok l
  | none => .error ⟨name⟩

theorem mem_all (l : Language) : l ∈ all := by cases l <;> decide

end Language

end ScriptHost
