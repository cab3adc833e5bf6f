import ScriptHost.Lua.ChunkName
import ScriptHost.Lua.Parser

/-! Loading of chunks. A source becomes the body of a function under the name of its chunk; a name may
not hold a zero byte, and sources that begin like a compiled chunk are refused. -/

namespace ScriptHost.Lua

/-- Why a chunk cannot be loaded. -/
inductive LoadError
  /-- Lua cannot be asked to parse it. -/
  | runtime (message : String)
  /-- Lua refuses the source. -/
  | refused (message : String)
  deriving DecidableEq

namespace LoadError

def message : LoadError → String
  | runtime m | refused m => m

/-- The message with the kind of the error, where that is not the usual one. -/
def text : LoadError → String
  | runtime m => "runtime error: " ++ m
  | refused m => m

end LoadError

namespace Chunk

/-- What compiled chunks of this version have after their format: a sample of bytes that transmissions
tend to damage. -/
def headerData : List UInt8 := [0x19, 0x93, 0x0D, 0x0A, 0x1A, 0x0A]

/-- Why the bytes after the mark of a compiled chunk are refused. A text never holds the sample. -/
def headerFault : List UInt8 → String
  | [] => "truncated chunk"
  | version :: rest =>
    if version != 0x54 then "version mismatch"
    else
      match rest with
      | [] => "truncated chunk"
      | format :: rest =>
        if format != 0 then "format mismatch"
        else if rest.length < headerData.length then "truncated chunk"
        else "corrupted chunk"

/-- The message about a source that begins like a compiled chunk. -/
def binaryFault (name : String) (bytes : List UInt8) : String :=
  match bytes with
  | 0x4C :: 0x75 :: 0x61 :: rest => s!"{name}: bad binary format ({headerFault rest})"
  | _ => "attempt to load a binary chunk (mode is 't')"

/-- The position of a zero byte in a name as it is handed to Lua, where one character precedes it. -/
def zeroPosition? (name : String) : Option Nat :=
  (name.toUTF8.toList.findIdx? (· == 0)).map (· + 1)

def nameFault (position : Nat) : String :=
  s!"invalid name: nul byte found in provided data at position: {position}"

/-- The error that stands for a syntax error. -/
def errorOf (name : String) (e : SyntaxError) : LoadError :=
  if e.fault = .tooDeep then .runtime e.fault.message else .refused (e.report (chunkId name)).toText

/-- The body of a chunk. -/
def load (name source : String) : Except LoadError FunctionBody :=
  match zeroPosition? name with
  | some p => .error (.runtime (nameFault p))
  | none =>
    match source.toUTF8.toList with
    | 0x1B :: rest => .error (.refused (binaryFault name rest))
    | _ => (parse source).mapError (errorOf name)

end Chunk

end ScriptHost.Lua
