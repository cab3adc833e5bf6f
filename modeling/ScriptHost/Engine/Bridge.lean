import ScriptHost.Host.Surface
import ScriptHost.Lua.Execution

/-! The bridge between the host and a Lua program: how values pass between them, and the globals through
which a program calls the host. What has no counterpart at the host, such as a table, arrives as nil. -/

namespace ScriptHost

/-- A value of the host as the program sees it. -/
def Value.toLua : Value → Lua.Val
  | .nil => .nil
  | .boolean b => .bool b
  | .integer n => .int n
  | .float x => .float (.ofFloat x)
  | .string s => .text s

/-- A value of the program as the host sees it. -/
def Value.ofLua : Lua.Val → Value
  | .bool b => .boolean b
  | .num (.int n) => .integer n
  | .num (.float x) => .float x.toFloat
  | .str s => .string s.toText
  | _ => .nil

namespace Bridge

/-- The global table of host functions. -/
def tableName : String := "host"

/-- The host function that programs also find as `print`. -/
def printer : String := "log"

/-- The chunk of the functions through which programs call the host. -/
def chunk : Lua.Bytes := .ofString "host"

/-- Such a function, `fn` being what it calls:

    function(...)
        local ok, value = fn(...)
        if not ok then
            error(value, 0)
        end
        return value
    end

The lines count from the top of its chunk. -/
def caller : Lua.FunctionBody :=
  .mk 0 true [⟨true, 7⟩, ⟨false, 0⟩] ["fn", "_ENV"]
    [.locals ["ok", "value"] none [.call (.var (.upvalue 0) "fn") [.vararg] 6] 6,
      .if (.unary .not (.var (.local 0) "ok") 7)
        [.call (.call (.index (.var (.upvalue 1) "_ENV") (.const (.string (.ofString "error"))) 8)
          [.var (.local 1) "value", .const (.number (.int 0))] 8)]
        [],
      .return [.var (.local 1) "value"] 10]
    5 11

/-- Adds the functions through which a program calls host functions, next to their names; `env` is the cell
with its table of globals. -/
def addCallers (env : Nat) : List String → Lua.Heap → List (String × Lua.Val) × Lua.Heap
  | [], heap => ([], heap)
  | name :: names, heap =>
    let (cell, heap) := heap.addCell (.builtin (.host name))
    let (a, heap) := heap.addClosure ⟨caller, chunk, #[cell, env]⟩
    let (entries, heap) := addCallers env names heap
    ((name, .function a) :: entries, heap)

/-- Gives a machine the host functions with some names. -/
def install (names : List String) (m : Lua.Machine) : Lua.Machine :=
  let (env, heap) := m.heap.addCell (.table m.heap.globals)
  let (entries, heap) := addCallers env names heap
  let m := { m with heap := Lua.Library.addTable heap tableName entries }
  match entries.lookup printer with
  | some f => m.setGlobal "print" f
  | none => m

/-- The call of a host function at which a machine waits. -/
def question? (m : Lua.Machine) : Option (String × List Value) :=
  match m.control with
  | .ask name args => some (name, args.map Value.ofLua)
  | _ => none

/-- Hands the result of a call to the machine that waits for it. -/
def answer (m : Lua.Machine) : Except CallError Value → Lua.Machine
  | .ok v => m.answer (.ok v.toLua)
  | .error e => m.answer (.error e.message)

end Bridge

end ScriptHost
