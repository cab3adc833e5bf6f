import ScriptHost.Compile.Chain
import ScriptHost.Compile.Diagnostic
import ScriptHost.Lua.Chunk

/-! The back end for Lua: it accepts a source that Lua can parse, without running it, and keeps its
text as the code. -/

namespace ScriptHost.Compile.LuaBackend

def compile (m : Metadata) (source : String) : Except CompileError Artifact :=
  match Lua.Chunk.load m.name source with
  | .ok _ => .ok ⟨.lua, source⟩
  | .error e => .error (Diagnostic.compileError .lua e.text)

/-- The back end for Lua. -/
def backend : Backend := ⟨.lua, compile⟩

end ScriptHost.Compile.LuaBackend
