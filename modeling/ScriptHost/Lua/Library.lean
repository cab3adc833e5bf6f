import ScriptHost.Lua.Library.Basic
import ScriptHost.Lua.Library.Clock
import ScriptHost.Lua.Library.Collection
import ScriptHost.Lua.Library.Maths
import ScriptHost.Lua.Library.Unicode

/-! The built-in functions together: what each of them does, what it is called, and the globals of a
program, which reach neither files nor processes nor other code. -/

namespace ScriptHost.Lua

open Routine

namespace ControlFunction

def name : ControlFunction → String
  | error => "error" | pcall => "pcall" | xpcall => "xpcall" | create => "create" | resume => "resume"
  | yield => "yield" | wrap => "wrap" | status => "status" | running => "running"
  | isyieldable => "isyieldable" | close => "close"

/-- The functions on errors. -/
def errors : List ControlFunction := [error, pcall, xpcall]

/-- The functions on coroutines. -/
def coroutines : List ControlFunction := [create, resume, yield, wrap, status, running, isyieldable, close]

end ControlFunction

/-- The name of a built-in function that is called without one. -/
def Builtin.name : Builtin → String
  | basic f => f.name
  | string f => "string." ++ f.name
  | table f => "table." ++ f.name
  | math f => "math." ++ f.name
  | utf8 f => "utf8." ++ f.name
  | clock f => "os." ++ f.name
  | control f => if ControlFunction.errors.contains f then f.name else "coroutine." ++ f.name
  | _ => "?"

namespace Library

/-- The text of an error that reaches the host, up to the first zero byte. Errors of the host itself
stay what they are. -/
def report (v : Val) : Routine Val := do
  match v with
  | .failure message => return .failure message
  | v => return .str (← text v).untilZero

/-- What a built-in function does at a moment. Those that look at the machine itself do nothing here. -/
def run (now : Moment) (f : Builtin) (args : List Val) : Routine (List Val) :=
  match f with
  | .basic f => basic f args
  | .string f => string f args
  | .stringArith op => return [← stringArith op args]
  | .table f => collection f args
  | .math f => maths now f args
  | .utf8 f => utf8 f args
  | .clock f => clock now f args
  | .matcher state => matcherStep state
  | .report => return [← report (arg args 0)]
  | .control _ | .wrapped _ | .host _ => return []

/-! ### Globals -/

/-- A table with some fields. -/
def fields (entries : List (String × Val)) : Table :=
  entries.foldl (fun t e => t.set (.text e.1) e.2) (.sized 0 entries.length)

def builtins {α : Type} (name : α → String) (wrap : α → Builtin) (fs : List α) : List (String × Val) :=
  fs.map fun f => (name f, .builtin (wrap f))

def mathConstants : List (String × Val) :=
  [("pi", floatVal pi), ("huge", floatVal (1.0 / 0.0)), ("maxinteger", .int Int64.maxValue),
    ("mininteger", .int Int64.minValue)]

/-- The tables of functions by their global names. -/
def tables : List (String × List (String × Val)) :=
  [("string", builtins StringFunction.name .string StringFunction.all),
    ("table", builtins TableFunction.name .table TableFunction.all),
    ("math", builtins MathFunction.name .math MathFunction.all ++ mathConstants),
    ("utf8", ("charpattern", .str charPattern) :: builtins Utf8Function.name .utf8 Utf8Function.all),
    ("os", builtins ClockFunction.name .clock ClockFunction.all),
    ("coroutine", builtins ControlFunction.name .control ControlFunction.coroutines)]

/-- Puts a new table of fields under a global name. -/
def addTable (heap : Heap) (name : String) (entries : List (String × Val)) : Heap :=
  let (a, heap) := heap.addTable (fields entries)
  heap.setText heap.globals name (.table a)

/-- The bytes that a fresh machine takes. -/
def baseSize : Nat := 24000

/-- A heap with the globals that every program finds. -/
def freshHeap (limit : Nat) : Heap :=
  let (globals, heap) := Heap.empty.addTable (fields
    (builtins BasicFunction.name .basic BasicFunction.all ++
      builtins ControlFunction.name .control ControlFunction.errors ++
      [("_VERSION", .text "Lua 5.4")]))
  let heap := { heap with globals }
  let heap := heap.setText globals "_G" (.table globals)
  let heap := tables.foldl (fun heap e => addTable heap e.1 e.2) heap
  let (strings, heap) := heap.addTable (fields
    (("__index", heap.rawGet globals (.text "string")) ::
      stringArithNames.map fun op => ("__" ++ op, .builtin (.stringArith op))))
  { heap with strings, limit, used := baseSize }

end Library

end ScriptHost.Lua
