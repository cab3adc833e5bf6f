import ScriptHost.Lua.Token

/-! Syntax trees of Lua chunks. Names are resolved: a variable of a function is a slot among its
active locals or one of its upvalues, and every other name is a field of `_ENV`. -/

namespace ScriptHost.Lua

/-- A value that a source spells. -/
inductive Const
  | nil
  | boolean (b : Bool)
  | number (n : Number)
  | string (s : Bytes)
  deriving DecidableEq, Inhabited

inductive UnaryOp
  | minus | not | length | complement
  deriving DecidableEq

/-- Operators that compute a value from two. -/
inductive ArithOp
  | add | sub | mul | mod | pow | div | floorDiv | band | bor | bxor | shiftLeft | shiftRight
  deriving DecidableEq

inductive CompareOp
  | equal | notEqual | less | lessEqual | greater | greaterEqual
  deriving DecidableEq

inductive BinaryOp
  | arith (op : ArithOp)
  | concat
  | compare (op : CompareOp)
  | and
  | or
  deriving DecidableEq

/-- Where a variable of the running function lives. -/
inductive Place
  | local (slot : Nat)
  | upvalue (index : Nat)
  deriving DecidableEq

/-- How a closure finds a variable of the function around it: among that function's locals or among
its upvalues. -/
structure Capture where
  isLocal : Bool
  index : Nat
  deriving DecidableEq

mutual

/-- An expression. A line is the one that an error in evaluating it names. -/
inductive Expr
  | const (c : Const)
  | vararg
  | closure (f : FunctionBody)
  | var (place : Place) (name : String)
  | index (table key : Expr) (line : Nat)
  | call (f : Expr) (args : List Expr) (line : Nat)
  /-- A call of a method, which gets the object as its first argument. -/
  | method (object : Expr) (name : String) (args : List Expr) (line : Nat)
  | unary (op : UnaryOp) (e : Expr) (line : Nat)
  | binary (op : BinaryOp) (a b : Expr) (line : Nat)
  /-- An expression in parentheses, which has one value. -/
  | paren (e : Expr)
  | table (items : List Item) (line : Nat)

/-- An item of a table constructor. -/
inductive Item
  | positional (e : Expr)
  | keyed (key value : Expr) (line : Nat)

inductive Stat
  /-- New locals with their values; `closing` is the slot of one to be closed. -/
  | locals (names : List String) (closing : Option Nat) (values : List Expr) (line : Nat)
  | localFunction (f : FunctionBody)
  | assign (targets values : List Expr) (line : Nat)
  | call (e : Expr)
  | block (body : List Stat)
  | while (condition : Expr) (body : List Stat)
  /-- The condition sees the locals of the body. -/
  | repeat (body : List Stat) (condition : Expr)
  | if (condition : Expr) (body : List Stat) (rest : List Stat)
  | numericFor (start stop step : Expr) (body : List Stat) (line : Nat)
  | genericFor (names : Nat) (values : List Expr) (body : List Stat) (line : Nat)
  | return (values : List Expr) (line : Nat)
  | break
  | goto (label : String)
  | label (name : String)

/-- A function: how many parameters it has, whether it takes more, how it captures its upvalues, and
the names under which it knows them. -/
inductive FunctionBody
  | mk (params : Nat) (isVararg : Bool) (captures : List Capture) (names : List String)
      (body : List Stat) (line lastLine : Nat)

end

instance : Inhabited Expr := ⟨.const .nil⟩
instance : Inhabited Stat := ⟨.break⟩
instance : Inhabited FunctionBody := ⟨.mk 0 false [] [] [] 0 0⟩

end ScriptHost.Lua
