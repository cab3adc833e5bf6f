import ScriptHost.Lua.Routine

/-! The operations of Lua on values: fields, arithmetic, concatenation, comparison, length and text. Each
is first tried on the values themselves; where they do not support it, their metatables may. -/

namespace ScriptHost.Lua

namespace Routine

/-- The complaint about an operand whose type an operation does not take. -/
def badOperand (heap : Heap) (action : String) (v : Val) (second : Bool) : Complaint :=
  .operand s!"attempt to {action} a {heap.typeName v} value" "" second

/-! ### Fields -/

/-- How many tables a look-up may pass on its way. -/
def maxChain : Nat := 2000

/-- Follows `__index` from a value that has no such field itself. -/
def indexChain (t k : Val) : Nat → Routine Val
  | 0 => fail (.operation "'__index' chain too long; possibly a loop")
  | fuel + 1 => fun heap =>
    let found : Val := match t with
      | .table a => heap.rawGet a k
      | _ => .nil
    if !found.isNil then .done found heap
    else
      match heap.metamethod t "__index", t with
      | .nil, .table _ => .done .nil heap
      | .nil, _ => .complain (badOperand heap "index" t false) heap
      | .function f, _ => call1 (.function f) [t, k] heap
      | .builtin f, _ => call1 (.builtin f) [t, k] heap
      | next, _ => indexChain next k fuel heap

def index (t k : Val) : Routine Val := indexChain t k maxChain

/-- Sets a field without metamethods. -/
def rawSet (a : Nat) (k v : Val) : Routine Unit := fun heap =>
  match k with
  | .nil => .complain (.operation "table index is nil") heap
  | .num (.float x) =>
    if x.isNaN then .complain (.operation "table index is NaN") heap
    else .done () (heap.rawSet a k v)
  | k => .done () (heap.rawSet a k v)

/-- Follows `__newindex` from a value that has no such field itself. -/
def setIndexChain (t k v : Val) : Nat → Routine Unit
  | 0 => fail (.operation "'__newindex' chain too long; possibly a loop")
  | fuel + 1 => fun heap =>
    let handler : Val := match t with
      | .table a =>
        if (heap.table a).metatable.isNone || !(heap.rawGet a k).isNil then .nil
        else heap.metamethod t "__newindex"
      | _ => heap.metamethod t "__newindex"
    match handler, t with
    | .nil, .table a => rawSet a k v heap
    | .nil, _ => .complain (badOperand heap "index" t false) heap
    | .function f, _ => (call (.function f) [t, k, v] heap).bind fun _ => pure ()
    | .builtin f, _ => (call (.builtin f) [t, k, v] heap).bind fun _ => pure ()
    | next, _ => setIndexChain next k v fuel heap

def setIndex (t k v : Val) : Routine Unit := setIndexChain t k v maxChain

/-! ### Metamethods of two operands -/

/-- The metamethod of the first operand or else of the second one. -/
def binaryHandler (event : String) (a b : Val) : Routine Val := reads fun heap =>
  match heap.metamethod a event with
  | .nil => heap.metamethod b event
  | f => f

/-! ### Arithmetic -/

/-- The name of an operation in metatables, after its two underscores. -/
def arithName : ArithOp → String
  | .add => "add" | .sub => "sub" | .mul => "mul" | .mod => "mod" | .pow => "pow" | .div => "div"
  | .floorDiv => "idiv" | .band => "band" | .bor => "bor" | .bxor => "bxor"
  | .shiftLeft => "shl" | .shiftRight => "shr"

def isBitwise : ArithOp → Bool
  | .band | .bor | .bxor | .shiftLeft | .shiftRight => true
  | _ => false

def intArith (op : ArithOp) (a b : Int64) : Except String Number :=
  match op with
  | .add => .ok (.int (a + b))
  | .sub => .ok (.int (a - b))
  | .mul => .ok (.int (a * b))
  | .mod =>
    match floorMod? a b with
    | some r => .ok (.int r)
    | none => .error "attempt to perform 'n%%0'"
  | .floorDiv =>
    match floorDiv? a b with
    | some q => .ok (.int q)
    | none => .error "attempt to perform 'n//0'"
  | .div => .ok (.float (.result ((Double.ofInt a).toFloat / (Double.ofInt b).toFloat)))
  | .pow => .ok (.float (.pow (.ofInt a) (.ofInt b)))
  | .band => .ok (.int (a &&& b))
  | .bor => .ok (.int (a ||| b))
  | .bxor => .ok (.int (a ^^^ b))
  | .shiftLeft => .ok (.int (shiftLeft a b))
  | .shiftRight => .ok (.int (shiftLeft a (0 - b)))

def floatArith (op : ArithOp) (a b : Double) : Double :=
  let x := a.toFloat
  let y := b.toFloat
  match op with
  | .add => .result (x + y)
  | .sub => .result (x - y)
  | .mul => .result (x * y)
  | .div => .result (x / y)
  | .mod => .mod a b
  | .pow => .pow a b
  | .floorDiv => .result (x / y).floor
  | _ => .zero

/-- Arithmetic on numbers. Bitwise operations want integers. -/
def numberArith (op : ArithOp) (a b : Number) : Option (Except String Number) :=
  if isBitwise op then
    match a.toInt?, b.toInt? with
    | some m, some n => some (intArith op m n)
    | _, _ => none
  else
    match a, b with
    | .int m, .int n => some (intArith op m n)
    | a, b => some (.ok (.float (floatArith op a.toDouble b.toDouble)))

/-- The complaint about operands that have no result. -/
def arithComplaint (heap : Heap) (bitwise : Bool) (a b : Val) : Complaint :=
  let isNum : Val → Bool := fun v => match v with | .num _ => true | _ => false
  if bitwise && isNum a && isNum b then
    .operand "number" " has no integer representation" a.asInt?.isSome
  else
    let second := isNum a
    let action := if bitwise then "perform bitwise operation on" else "perform arithmetic on"
    badOperand heap action (if second then b else a) second

/-- What the metatables make of two operands. -/
def arithHandler (event : String) (bitwise : Bool) (a b : Val) : Routine Val := do
  match ← binaryHandler ("__" ++ event) a b with
  | .nil => fun heap => .complain (arithComplaint heap bitwise a b) heap
  | f => call1 f [a, b]

def arith (op : ArithOp) (a b : Val) : Routine Val :=
  let result := match a, b with
    | .num m, .num n => numberArith op m n
    | _, _ => none
  match result with
  | some (.ok n) => pure (.num n)
  | some (.error message) => fail (.operation message)
  | none => arithHandler (arithName op) (isBitwise op) a b

def negate (a : Val) : Routine Val :=
  match a with
  | .num (.int n) => pure (.int (0 - n))
  | .num (.float x) => pure (.float x.neg)
  | a => arithHandler "unm" false a a

def complement (a : Val) : Routine Val :=
  let n? := match a with
    | .num n => n.toInt?
    | _ => none
  match n? with
  | some n => pure (.int (~~~n))
  | none => arithHandler "bnot" true a a

/-! ### Arithmetic on strings -/

def arithOfName? : String → Option ArithOp
  | "add" => some .add | "sub" => some .sub | "mul" => some .mul | "mod" => some .mod
  | "pow" => some .pow | "div" => some .div | "idiv" => some .floorDiv
  | _ => none

/-- The names of the operations that strings support. -/
def stringArithNames : List String := ["add", "sub", "mul", "mod", "pow", "div", "idiv", "unm"]

/-- An operation on two values of which one is a string: on the numbers that they spell, or else as the
second operand has it. -/
def stringArith (name : String) (args : List Val) : Routine Val :=
  let a := arg args 0
  let b := arg args 1
  match a.asNumber?, b.asNumber? with
  | some m, some n =>
    match arithOfName? name with
    | some op => arith op (.num m) (.num n)
    | none => negate (.num m)
  | _, _ => do
    let handler ← reads fun heap => heap.metamethod b ("__" ++ name)
    match b, handler with
    | .str _, _ | _, .nil =>
      failText s!"attempt to {name} a '{a.typeName}' with a '{b.typeName}'"
    | _, f => call1 f [a, b]

/-! ### Strings and lengths -/

def concat (a b : Val) : Routine Val := do
  match a.asBytes?, b.asBytes? with
  | some x, some y =>
    reserve (25 + x.size + y.size)
    return .str (x ++ y)
  | some _, none => handled true b
  | none, _ => handled false a
where
  handled (second : Bool) (culprit : Val) : Routine Val := do
    match ← binaryHandler "__concat" a b with
    | .nil => fun heap => .complain (badOperand heap "concatenate" culprit second) heap
    | f => call1 f [a, b]

def length (a : Val) : Routine Val := fun heap =>
  match a with
  | .str s => .done (.nat s.size) heap
  | a =>
    match heap.metamethod a "__len", a with
    | .nil, .table t => .done (.nat (heap.table t).border) heap
    | .nil, a => .complain (badOperand heap "get length of" a false) heap
    | f, a => call1 f [a] heap

/-! ### Comparison -/

def equal (a b : Val) : Routine Bool := do
  if a.rawEq b then return true
  match a, b with
  | .table _, .table _ =>
    match ← binaryHandler "__eq" a b with
    | .nil => return false
    | f => return (← call1 f [a, b]).isTrue
  | _, _ => return false

/-- The message about two values that do not compare. -/
def compareMessage (heap : Heap) (a b : Val) : String :=
  let s := heap.typeName a
  let t := heap.typeName b
  if s == t then s!"attempt to compare two {s} values" else s!"attempt to compare {s} with {t}"

def incomparable {α : Type} (a b : Val) : Routine α := fun heap =>
  .complain (.operation (compareMessage heap a b)) heap

def lessThan (a b : Val) : Routine Bool :=
  match a, b with
  | .num m, .num n => pure (m.lt n)
  | .str s, .str t => pure (s.lt t)
  | a, b => do
    match ← binaryHandler "__lt" a b with
    | .nil => incomparable a b
    | f => return (← call1 f [a, b]).isTrue

/-- Values without `__le` may still compare by `__lt`. -/
def lessEqual (a b : Val) : Routine Bool :=
  match a, b with
  | .num m, .num n => pure (m.le n)
  | .str s, .str t => pure (!t.lt s)
  | a, b => do
    match ← binaryHandler "__le" a b with
    | .nil =>
      match ← binaryHandler "__lt" b a with
      | .nil => incomparable a b
      | f => return !(← call1 f [b, a]).isTrue
    | f => return (← call1 f [a, b]).isTrue

def compare (op : CompareOp) (a b : Val) : Routine Bool :=
  match op with
  | .equal => equal a b
  | .notEqual => do return !(← equal a b)
  | .less => lessThan a b
  | .lessEqual => lessEqual a b
  | .greater => lessThan b a
  | .greaterEqual => lessEqual b a

/-! ### Text -/

/-- The text of a value that has none of its own. -/
def identityText (heap : Heap) (v : Val) : String :=
  s!"{heap.typeName v}: 0x{String.ofList (Nat.toDigits 16 (heap.address v))}"

/-- The text of a value as `tostring` gives it. -/
def text (v : Val) : Routine Bytes := do
  match ← reads fun heap => heap.metamethod v "__tostring" with
  | .nil =>
    match v with
    | .str s => return s
    | .num n => return Val.numberBytes n
    | .bool b => return .ofString (if b then "true" else "false")
    | .nil => return .ofString "nil"
    | .failure message => return .ofString s!"runtime error: {message}"
    | v => reads fun heap => .ofString (identityText heap v)
  | f =>
    match (← call1 f [v]).asBytes? with
    | some s => return s
    | none => failText "'__tostring' must return a string"

end Routine

end ScriptHost.Lua
