import ScriptHost.Lua.SyntaxError

/-! Names of chunks as they stand in error messages. -/

namespace ScriptHost.Lua

/-- How many bytes of a name a message holds. -/
def chunkNameLimit : Nat := 59

/-- The name of a chunk in messages: its first bytes. -/
def chunkId (name : String) : Bytes := (Bytes.ofString name).extract 0 chunkNameLimit

/-- A place in a chunk, before the message about it. -/
def position (id : Bytes) (line : Nat) : Bytes := id ++ .ofString s!":{line}: "

/-- The text of a syntax error in a chunk. -/
def SyntaxError.report (id : Bytes) (e : SyntaxError) : Bytes := position id e.line ++ e.message

end ScriptHost.Lua
