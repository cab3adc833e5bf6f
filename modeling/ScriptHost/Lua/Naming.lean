import ScriptHost.Lua.Frame

/-! How messages name the things that a program gets wrong. -/

namespace ScriptHost.Lua

/-- The name of a field whose key is spelled in the text. -/
def keyName : Expr → String
  | .const (.string s) => s.toText
  | .const (.number (.int n)) => if 0 ≤ n && n ≤ 255 then "integer index" else "?"
  | _ => "?"

/-- Whether an expression is the table of globals under its own name. -/
def isEnvironment : Expr → Bool
  | .var _ name => name == "_ENV"
  | _ => false

/-- What the text calls the value of an expression: variables, fields and constants have names. -/
def Expr.naming? : Expr → Option Naming
  | .var (.local _) name => some ("local", name)
  | .var (.upvalue _) name => some ("upvalue", name)
  | .index object key _ => some (if isEnvironment object then "global" else "field", keyName key)
  | .const (.string s) => some ("constant", s.toText)
  | .paren e => e.naming?
  | _ => none

/-- A name as it stands in a message. -/
def Naming.text (n : Naming) : String := s!" ({n.1} '{n.2}')"

def namingText (n : Option Naming) : String := (n.map Naming.text).getD ""

/-- The name of an operand of an operation. -/
def Origin.operandText (o : Origin) (second : Bool) : String :=
  namingText ((if second then o.second else o.first).bind Expr.naming?)

end ScriptHost.Lua
