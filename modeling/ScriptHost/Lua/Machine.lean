import ScriptHost.Lua.ChunkName
import ScriptHost.Lua.Library
import ScriptHost.Lua.Naming

/-! The machine that runs Lua programs, one small step at a time. Each step takes the control on or hands an
outcome to the innermost frame. A call of a host function stops the machine until it is answered. -/

namespace ScriptHost.Lua

namespace Machine

/-! ### Small moves -/

def go (m : Machine) (c : Control) : Machine := { m with control := c }

def push (m : Machine) (f : Frame) : Machine := { m with frames := f :: m.frames }

def pushExpr (m : Machine) (f : ExprFrame) : Machine := m.push (.expr f)

def pushStat (m : Machine) (f : StatFrame) : Machine := m.push (.stat f)

def giveOne (m : Machine) (v : Val) : Machine := m.go (.give [v])

def evalIn (m : Machine) (f : ExprFrame) (e : Expr) : Machine := (m.pushExpr f).go (.eval e)

def evalFor (m : Machine) (f : StatFrame) (e : Expr) : Machine := (m.pushStat f).go (.eval e)

/-- Notes the line at which the running function is. -/
def atLine (m : Machine) (line : Nat) : Machine := { m with act := { m.act with line } }

/-! ### Variables -/

def slot (m : Machine) (i : Nat) : Val :=
  match m.act.slots[i]? with
  | some (.value v) => v
  | some (.shared c) => m.heap.cell c
  | none => .nil

def upvalue (m : Machine) (i : Nat) : Val := m.heap.cell (m.act.upvalues.getD i 0)

def place (m : Machine) : Place → Val
  | .local i => m.slot i
  | .upvalue i => m.upvalue i

def setCell (m : Machine) (c : Nat) (v : Val) : Machine := { m with heap := m.heap.setCell c v }

def setSlot (m : Machine) (i : Nat) (v : Val) : Machine :=
  match m.act.slots[i]? with
  | some (.shared c) => m.setCell c v
  | _ => { m with act := { m.act with slots := m.act.slots.setIfInBounds i (.value v) } }

def setPlace (m : Machine) (p : Place) (v : Val) : Machine :=
  match p with
  | .local i => m.setSlot i v
  | .upvalue i => m.setCell (m.act.upvalues.getD i 0) v

/-- Adds `n` locals with the first values of a list. -/
def bind (m : Machine) : List Val → Nat → Machine
  | _, 0 => m
  | vs, n + 1 =>
    bind { m with act := { m.act with slots := m.act.slots.push (.value (vs.headD .nil)) } }
      vs.tail n

/-- Drops the locals beyond the first `n`. -/
def keep (m : Machine) (n : Nat) : Machine :=
  { m with act := { m.act with slots := m.act.slots.shrink n } }

def base (m : Machine) : Nat := m.act.slots.size

/-- The cell of a variable of the running function; a local becomes shared. -/
def capture (m : Machine) (c : Capture) : Nat × Machine :=
  if c.isLocal then
    match m.act.slots[c.index]? with
    | some (.shared a) => (a, m)
    | some (.value v) =>
      let ⟨heap, threads, running, act, frames, nesting, control, meter, finalizing⟩ := m
      let (a, heap) := heap.addCell v
      let act := { act with slots := act.slots.setIfInBounds c.index (.shared a) }
      (a, ⟨heap, threads, running, act, frames, nesting, control, meter, finalizing⟩)
    | none => (0, m)
  else (m.act.upvalues.getD c.index 0, m)

/-- A closure of a function in the text of the running one. -/
def close (m : Machine) (f : FunctionBody) : Nat × Machine :=
  let ⟨_, _, captures, _, _, _, _⟩ := f
  let (cells, m) := captures.foldl (fun ((cells, m) : Array Nat × Machine) c =>
    let (a, m) := m.capture c
    (cells.push a, m)) (#[], m)
  let ⟨heap, threads, running, act, frames, nesting, control, meter, finalizing⟩ := m
  let (a, heap) := heap.addClosure ⟨f, act.chunk, cells⟩
  (a, ⟨heap, threads, running, act, frames, nesting, control, meter, finalizing⟩)

/-! ### Errors -/

/-- The chunk whose functions stand between programs and some built-in functions. -/
def sandboxChunk : Bytes := .ofString "sandbox"

/-- The place of protected calls in messages. -/
def protectPosition (handled : Bool) : Bytes := position sandboxChunk (if handled then 5 else 4)

/-- The place of resumptions in messages. -/
def resumePosition : Bytes := position sandboxChunk 8

/-- The places of the functions at work, the innermost first; a built-in function has none. `counted`
tells whether the place of `act` has been given. -/
def positions (act : Activation) (counted : Bool) : List Frame → List Bytes
  | [] => []
  | .caller saved :: rest => positions saved false rest
  | .coroutine _ _ _ _ :: _ | .base :: _ => []
  | .routine _ (.builtin _ _) :: rest => ByteArray.empty :: positions act counted rest
  | .handling _ :: rest => ByteArray.empty :: positions act counted rest
  | .protect handler _ :: rest =>
    ByteArray.empty :: protectPosition handler.isSome :: positions act counted rest
  | _ :: rest =>
    if counted then positions act true rest
    else position act.chunk act.line :: positions act true rest

/-- The place of the function that called the one at work, or of one further out. -/
def callerPosition (m : Machine) (level : Nat) : Bytes :=
  ((positions m.act false m.frames)[level - 1]?).getD ByteArray.empty

def memoryMessage : Bytes := .ofString "not enough memory"

def raiseValue (m : Machine) (v : Val) : Machine := m.go (.raise ⟨v, false⟩)

def raiseText (m : Machine) (b : Bytes) : Machine := m.raiseValue (.str b)

/-- An error at the line of the running function. -/
def raiseHere (m : Machine) (message : String) : Machine :=
  m.raiseText (position m.act.chunk m.act.line ++ .ofString message)

def outOfMemory (m : Machine) : Machine := m.go (.unwind ⟨.str memoryMessage, true⟩)

/-- The message about an argument of a function; a method counts its arguments without its object. -/
def argumentMessage (f : Builtin) (name : Option Naming) (i : Nat) (what : String) : String :=
  match name with
  | some ("method", n) =>
    if i ≤ 1 then s!"calling '{n}' on bad self ({what})"
    else s!"bad argument #{i - 1} to '{n}' ({what})"
  | some (_, n) => s!"bad argument #{i} to '{n}' ({what})"
  | none => s!"bad argument #{i} to '{f.name}' ({what})"

/-- Where a built-in function was called. Functions between it and the program have places of their
own. -/
def calledFrom (m : Machine) (f : Builtin) : Bytes :=
  match f with
  | .control .pcall => protectPosition false
  | .control .xpcall => protectPosition true
  | .control .resume => resumePosition
  | _ => m.callerPosition 1

/-- Raises the error of a complaint. -/
def complain (m : Machine) (who : Performer) (c : Complaint) : Machine :=
  match who, c with
  | _, .outOfMemory => m.outOfMemory
  | _, .raised v => m.raiseValue v
  | .operation o, .operand before after second =>
    (m.atLine o.line).raiseHere (before ++ o.operandText second ++ after)
  | .operation o, .operation message => (m.atLine o.line).raiseHere message
  | .operation o, .native message =>
    (m.atLine o.line).raiseText (position m.act.chunk o.line ++ message)
  | .operation o, .argument _ what => (m.atLine o.line).raiseHere what
  | .builtin _ _, .operand before after _ => m.raiseText (.ofString (before ++ after))
  | .builtin _ _, .operation message => m.raiseText (.ofString message)
  | .builtin f _, .native message => m.raiseText (m.calledFrom f ++ message)
  | .builtin f name, .argument i what =>
    m.raiseText (m.calledFrom f ++ .ofString (argumentMessage f name i what))

/-! ### Routines -/

/-- How many calls from outside the program text may be nested. -/
def maxNesting : Nat := 195

/-- How many functions of a program may be at work. -/
def maxDepth : Nat := 195000

/-- Hands the stage that a routine has reached to the machine. -/
def settle (who : Performer) (s : Stage (List Val)) (threads : Array Coroutine) (running : List Nat)
    (act : Activation) (frames : List Frame) (nesting : Nat) (meter : Meter) (finalizing : Finalizing) :
    Machine :=
  match s with
  | .done vs heap => ⟨heap, threads, running, act, frames, nesting, .give vs, meter, finalizing⟩
  | .complain c heap =>
    (⟨heap, threads, running, act, frames, nesting, .next, meter, finalizing⟩ : Machine).complain who c
  | .call f args heap rest =>
    let (act, name) : Activation × Option Naming := match who with
      | .operation o => ({ act with line := o.line }, some ("metamethod", o.event))
      | .builtin _ _ => (act, none)
    let m : Machine := ⟨heap, threads, running, act, frames, nesting, .next, meter, finalizing⟩
    if nesting ≥ maxNesting then m.complain who (.operation "C stack overflow")
    else
      { m with
        frames := .routine rest who :: frames
        nesting := nesting + 1
        control := .invoke f args name }

/-- Runs a routine, up to a call or to its end. What it takes of memory counts as work. -/
def perform (m : Machine) (who : Performer) (r : Routine (List Val)) : Machine :=
  let ⟨heap, threads, running, act, frames, nesting, _, meter, finalizing⟩ := m
  let before := heap.used
  match r heap with
  | .done vs heap =>
    let meter := { meter with spent := meter.spent + (heap.used - before) / 64 }
    ⟨heap, threads, running, act, frames, nesting, .give vs, meter, finalizing⟩
  | s => settle who s threads running act frames nesting meter finalizing

/-- Carries out an operation of the text with one result. -/
def operate (m : Machine) (o : Origin) (r : Routine Val) : Machine :=
  m.perform (.operation o) (do return [← r])

/-- Carries out an operation of the text that tells something. -/
def decide (m : Machine) (o : Origin) (r : Routine Bool) : Machine :=
  m.perform (.operation o) (do return [.bool (← r)])

/-! ### Statements and blocks -/

/-- Begins a block with the locals that there are. -/
def enter (m : Machine) (body : List Stat) : Machine :=
  (m.pushStat (.block body body m.base)).go .next

/-- The statements after a label of a block, and how many locals they find. -/
def afterLabel? (label : String) : List Stat → Nat → Option (List Stat × Nat)
  | [], _ => none
  | .label name :: rest, n => if name == label then some (rest, n) else afterLabel? label rest n
  | .locals names _ _ _ :: rest, n => afterLabel? label rest (n + names.length)
  | .localFunction _ :: rest, n => afterLabel? label rest (n + 1)
  | _ :: rest, n => afterLabel? label rest n

/-- Calls the function that closes a variable, and goes on. -/
def closeVariable (m : Machine) (v e : Val) (after : Resumption) : Machine :=
  (m.push (.closed after)).go (.invoke (m.heap.metamethod v "__close") [v, e] (some ("metamethod", "close")))

/-- Puts a variable that is to be closed under the innermost block; one that is nil or false needs no
closing. -/
def toClose (m : Machine) (v : Val) (name : String) (under : Bool) : Machine :=
  if !v.isTrue then m.go .next
  else if (m.heap.metamethod v "__close").isNil then
    m.raiseHere s!"variable '{name}' got a non-closable value"
  else
    match m.frames, under with
    | .stat f :: rest, true => { m with frames := .stat f :: .toClose v :: rest, control := .next }
    | frames, _ => { m with frames := .toClose v :: frames, control := .next }

/-! ### Loops -/

/-- How many locals a loop over numbers keeps for itself. -/
def numericHidden : Nat := 3

/-- How many locals any other loop keeps for itself. -/
def genericHidden : Nat := 4

/-- Goes through the body of a loop with a value. -/
def numericRound (m : Machine) (v : Val) (loop : NumericLoop) (body : List Stat) (base : Nat) : Machine :=
  (((m.keep (base + numericHidden)).bind [v] 1).pushStat (.numericLoop loop body base)).enter body

/-! ### Lists of values -/

/-- Whether an expression can have any number of values. -/
def isMulti : Expr → Bool
  | .call _ _ _ | .method _ _ _ _ | .vararg => true
  | _ => false

/-- The frames below those of the running function, and the function that called it. Nothing may stand
between that has to be done when the function ends. -/
def tailFrames? : List Frame → Option (Activation × List Frame)
  | .caller saved :: rest => some (saved, rest)
  | .expr _ :: rest | .stat _ :: rest => tailFrames? rest
  | _ => none

/-- Calls a function that the text calls. In tail position the running function makes room for it. -/
def callFrom (m : Machine) (f : Val) (args : List Val) (name : Option Naming) (line : Nat) (tail : Bool) :
    Machine :=
  if tail then
    match f, tailFrames? m.frames with
    | .function _, some (saved, rest) =>
      { m with act := saved, frames := rest, control := .invoke f args name }
    | _, _ => ((m.atLine line).pushStat .returning).go (.invoke f args name)
  else (m.atLine line).go (.invoke f args name)

/-- Assigns a value to a target. -/
def assign (m : Machine) (t : Target) (v : Val) : Machine :=
  match t with
  | .var p => (m.setPlace p v).go (.give [])
  | .field t k object line =>
    m.perform (.operation ⟨line, "newindex", some object, none⟩) (do
      Routine.setIndex t k v
      return [])

/-- Pairs targets with values, the last target first. -/
def pairTargets (targets : List Target) (vs : List Val) : List (Target × Val) :=
  let n := targets.length
  (targets.zip (List.range n)).reverse.map fun (t, i) => (t, vs.getD i .nil)

/-- Puts the values of a list of expressions to their use. -/
def useValues (m : Machine) (vs : List Val) (use : Use) : Machine :=
  match use with
  | .call f name line tail => m.callFrom f vs name line tail
  | .locals names closing line =>
    let start := m.base
    let m := m.bind vs names.length
    match closing with
    | none => m.go .next
    | some i =>
      (m.atLine line).toClose (vs.getD (i - start) .nil) (names.getD (i - start) "") true
  | .assign targets _ =>
    match pairTargets targets vs with
    | [] => m.go .next
    | (t, v) :: rest => (m.pushStat (.assigned rest)).assign t v
  | .result => m.go (.leave (.function vs))
  | .numericFor body line =>
    match NumericLoop.start? m.heap (vs.getD 0 .nil) (vs.getD 1 .nil) (vs.getD 2 .nil) with
    | .error message => (m.atLine line).raiseHere message
    | .ok none => m.go .next
    | .ok (some (v, loop)) =>
      let start := m.base
      (m.bind [] numericHidden).numericRound v loop body start
  | .genericFor names body line =>
    let start := m.base
    let m := (m.bind [] genericHidden).atLine line
    let f := vs.getD 0 .nil
    let state := vs.getD 1 .nil
    let m := m.toClose (vs.getD 3 .nil) "(for state)" false
    match m.control with
    | .next =>
      (m.pushStat (.genericCall f state names body start line)).go
        (.invoke f [state, vs.getD 2 .nil] (some ("for iterator", "for iterator")))
    | _ => m

/-- Evaluates the expressions of a list one by one; the last one may have any number of values. -/
def evalList (m : Machine) (es : List Expr) (use : Use) : Machine :=
  match es with
  | [] => m.useValues [] use
  | e :: rest => m.evalIn (.items [] rest use) e

/-- Goes on with the targets of an assignment, and then with its values. -/
def evalTargets (m : Machine) (done : List Target) (rest values : List Expr) (line : Nat) : Machine :=
  match rest with
  | [] => m.evalList values (.assign done.reverse line)
  | .var p _ :: rest => evalTargets m (.var p :: done) rest values line
  | .index object key keyLine :: rest =>
    m.evalFor (.targetTable object key keyLine done rest values line) object
  | _ :: rest => evalTargets m done rest values line

/-! ### Tables under construction -/

/-- Puts positional values into a table, from index 1 on. -/
def fill (t : Table) (vs : List Val) : Table :=
  let t := if t.nodes.isEmpty then t.growArray vs.length else t
  (vs.foldl (fun ((t, i) : Table × Nat) v => (t.set (.nat i) v, i + 1)) (t, 1)).1

/-- Goes on with the items of a table. -/
def construct (m : Machine) (t : Nat) (done : List Val) (items : List Item) : Machine :=
  match items with
  | [] =>
    let m := if done.isEmpty then m
      else
        { m with heap := (m.heap.modifyTable t (fill · done.reverse)).charge (16 * done.length) }
    m.giveOne (.table t)
  | .positional e :: rest => m.evalIn (.tableItem t done rest) e
  | .keyed k v line :: rest => m.evalIn (.tableKey t done v rest line) k

/-! ### Expressions -/

def isPositional : Item → Bool
  | .positional _ => true
  | .keyed _ _ _ => false

/-- Begins to evaluate an expression. -/
def eval (m : Machine) : Expr → Machine
  | .const c => m.giveOne (.ofConst c)
  | .vararg => m.go (.give m.act.varargs)
  | .closure f =>
    let (a, m) := m.close f
    m.giveOne (.function a)
  | .var p _ => m.giveOne (m.place p)
  | .index object key line => m.evalIn (.indexKey object key line) object
  | .call f args line => m.evalIn (.callee f args line false) f
  | .method object name args line => m.evalIn (.receiver object name args line false) object
  | .unary op e line => m.evalIn (.unary op e line) e
  | .binary op a b line => m.evalIn (.left op a b line) a
  | .paren e => m.evalIn .one e
  | .table items _ =>
    let positional := (items.filter isPositional).length
    let isOpen := match items.getLast? with
      | some (.positional e) => isMulti e
      | _ => false
    let ⟨heap, threads, running, act, frames, nesting, control, meter, finalizing⟩ := m
    let (t, heap) := heap.addTable
      (.sized (if isOpen then positional - 1 else positional) (items.length - positional))
    (⟨heap, threads, running, act, frames, nesting, control, meter, finalizing⟩ : Machine).construct t [] items

/-- The operation of a unary operator. -/
def unary (m : Machine) (op : UnaryOp) (v : Val) (e : Expr) (line : Nat) : Machine :=
  match op with
  | .not => m.giveOne (.bool !v.isTrue)
  | .minus => m.operate ⟨line, "unm", some e, some e⟩ (Routine.negate v)
  | .complement => m.operate ⟨line, "bnot", some e, some e⟩ (Routine.complement v)
  | .length => m.operate ⟨line, "len", some e, none⟩ (Routine.length v)

/-- The name of a comparison in metatables, after its two underscores. -/
def compareName : CompareOp → String
  | .equal | .notEqual => "eq"
  | .less | .greater => "lt"
  | .lessEqual | .greaterEqual => "le"

/-- The operation of a binary operator. -/
def binary (m : Machine) (op : BinaryOp) (a b : Val) (ea eb : Expr) (line : Nat) : Machine :=
  match op with
  | .arith op => m.operate ⟨line, Routine.arithName op, some ea, some eb⟩ (Routine.arith op a b)
  | .concat => m.operate ⟨line, "concat", some ea, some eb⟩ (Routine.concat a b)
  | .compare op => m.decide ⟨line, compareName op, some ea, some eb⟩ (Routine.compare op a b)
  | .and | .or => m.giveOne b

/-- Hands values to an expression that waits for them. -/
def giveExpr (m : Machine) (f : ExprFrame) (vs : List Val) : Machine :=
  let v := vs.headD .nil
  match f with
  | .indexKey object key line => m.evalIn (.indexWith v object line) key
  | .indexWith t object line =>
    m.operate ⟨line, "index", some object, none⟩ (Routine.index t v)
  | .unary op e line => m.unary op v e line
  | .left .and _ b _ => if v.isTrue then m.evalIn .one b else m.giveOne v
  | .left .or _ b _ => if v.isTrue then m.giveOne v else m.evalIn .one b
  | .left op a b line => m.evalIn (.right op v a b line) b
  | .right op a ea eb line => m.binary op a v ea eb line
  | .one => m.giveOne v
  | .items done [] use => m.useValues (done.reverseAux vs) use
  | .items done (e :: rest) use => m.evalIn (.items (v :: done) rest use) e
  | .callee f args line tail => m.evalList args (.call v f.naming? line tail)
  | .receiver object name args line tail =>
    (m.pushExpr (.methodOf v name args line tail)).operate ⟨line, "index", some object, none⟩
      (Routine.index v (.text name))
  | .methodOf self name args line tail =>
    match args with
    | [] => m.callFrom v [self] (some ("method", name)) line tail
    | e :: rest => m.evalIn (.items [self] rest (.call v (some ("method", name)) line tail)) e
  | .tableItem t done [] => m.construct t (vs.reverseAux done) []
  | .tableItem t done rest => m.construct t (v :: done) rest
  | .tableKey t done value rest line => m.evalIn (.tableValue t v done rest line) value
  | .tableValue t k done rest line =>
    (m.pushStat (.constructing t done rest)).perform (.operation ⟨line, "newindex", none, none⟩) (do
      Routine.rawSet t k v
      return [])

/-! ### Statements -/

/-- Begins to carry out a statement. -/
def exec (m : Machine) : Stat → Machine
  | .locals names closing values line => m.evalList values (.locals names closing line)
  | .localFunction f =>
    let i := m.base
    let (a, m) := (m.bind [] 1).close f
    (m.setSlot i (.function a)).go .next
  | .assign targets values line => m.evalTargets [] targets values line
  | .call e => m.evalFor .discard e
  | .block body => m.enter body
  | .while c body => m.evalFor (.whileTest c body m.base) c
  | .repeat body c => (m.pushStat (.repeatBody body c m.base)).enter body
  | .if c body rest => m.evalFor (.ifTest body rest) c
  | .numericFor start stop step body line =>
    m.evalList [.paren start, .paren stop, .paren step] (.numericFor body line)
  | .genericFor names values body line => m.evalList values (.genericFor names body line)
  | .return [] _ => m.go (.leave (.function []))
  | .return [.call f args line] _ => m.evalIn (.callee f args line true) f
  | .return [.method object name args line] _ => m.evalIn (.receiver object name args line true) object
  | .return values _ => m.evalList values .result
  | .break => m.go (.leave .loop)
  | .goto label => m.go (.leave (.goto label))
  | .label _ => m.go .next

/-- Hands values to a statement that waits for them. -/
def giveStat (m : Machine) (f : StatFrame) (vs : List Val) : Machine :=
  let v := vs.headD .nil
  match f with
  | .discard => m.go .next
  | .targetTable object key line done rest values statement =>
    m.evalFor (.targetKey v object line done rest values statement) key
  | .targetKey t object line done rest values statement =>
    m.evalTargets (.field t v object line :: done) rest values statement
  | .assigned [] => m.go .next
  | .assigned ((t, w) :: rest) => (m.pushStat (.assigned rest)).assign t w
  | .constructing t done rest => m.construct t done rest
  | .whileTest c body base =>
    if v.isTrue then (m.pushStat (.whileBody c body base)).enter body else m.go .next
  | .repeatTest body c base =>
    let m := m.keep base
    if v.isTrue then m.go .next else (m.pushStat (.repeatBody body c base)).enter body
  | .ifTest body rest => if v.isTrue then m.enter body else m.enter rest
  | .genericCall f state names body base line =>
    if v.isNil then (m.keep base).go .next
    else
      (((m.keep (base + genericHidden)).bind vs names).pushStat
        (.genericLoop f state v names body base line)).enter body
  | .returning => m.go (.leave (.function vs))
  -- The others wait for the end of a statement.
  | .block _ _ _ | .whileBody _ _ _ | .repeatBody _ _ _ | .numericLoop _ _ _
  | .genericLoop _ _ _ _ _ _ _ => m.go .next

/-- Whether the locals of a block are still needed when it ends. -/
def locksLocals : List Frame → Bool
  | .stat (.repeatBody _ _ _) :: _ => true
  | .toClose _ :: rest => locksLocals rest
  | _ => false

/-- Goes on when a statement has been carried out. -/
def nextStat (m : Machine) (f : StatFrame) : Machine :=
  match f with
  | .block (s :: rest) all base => (m.pushStat (.block rest all base)).go (.exec s)
  | .block [] _ base => (if locksLocals m.frames then m else m.keep base).go .next
  | .whileBody c body base => (m.keep base).evalFor (.whileTest c body base) c
  | .repeatBody body c base => m.evalFor (.repeatTest body c base) c
  | .numericLoop loop body base =>
    match loop.next? with
    | some (v, loop) => m.numericRound v loop body base
    | none => (m.keep base).go .next
  | .genericLoop f state control names body base line =>
    (((m.keep (base + genericHidden)).atLine line).pushStat
      (.genericCall f state names body base line)).go
        (.invoke f [state, control] (some ("for iterator", "for iterator")))
  | _ => m.go .next

/-- Leaves what a frame stands for on the way out. -/
def leaveStat (m : Machine) (f : StatFrame) (x : Exit) : Machine :=
  match x, f with
  | .goto label, .block _ all base =>
    match afterLabel? label all base with
    | some (rest, n) => ((m.keep n).pushStat (.block rest all base)).go .next
    | none => m.go (.leave x)
  | .loop, .whileBody _ _ base | .loop, .repeatBody _ _ base | .loop, .repeatTest _ _ base
  | .loop, .numericLoop _ _ base | .loop, .genericLoop _ _ _ _ _ base _ => (m.keep base).go .next
  | _, _ => m.go (.leave x)

/-! ### Functions -/

/-- Calls a closure. -/
def enterClosure (m : Machine) (c : Closure) (args : List Val) : Machine :=
  let ⟨params, isVararg, _, _, body, _, _⟩ := c.body
  let depth := m.act.depth + 1
  if depth > maxDepth then m.raiseHere "stack overflow"
  else
    let slots := (args.take params).foldl (fun (slots : Array Slot) v => slots.push (.value v)) #[]
    let slots := slots ++ Array.replicate (params - slots.size) (Slot.value .nil)
    let act : Activation :=
      { chunk := c.chunk, line := 0, slots, upvalues := c.upvalues
        varargs := if isVararg then args.drop params else [], depth }
    { m with
      act
      frames := .stat (.block body body slots.size) :: .caller m.act :: m.frames
      control := .next }

/-- The abort that has been recorded, if there is one, may not be passed over. -/
def guard (m : Machine) (vs : List Val) : Machine :=
  match m.meter.aborted with
  | some message => m.raiseValue (.failure message)
  | none => m.go (.give vs)

/-- Goes on with a coroutine. -/
def resume (m : Machine) (thread : Nat) (wrapped : Bool) (args : List Val) : Machine :=
  let refuse (message : String) : Machine :=
    if wrapped then m.raiseText (m.callerPosition 1 ++ .ofString message)
    else m.guard [.bool false, .text message]
  let boundary : Frame := .coroutine thread wrapped m.act m.nesting
  let start (act : Activation) (frames : List Frame) (c : Control) : Machine :=
    { m with
      threads := m.threads.setIfInBounds thread .active
      running := thread :: m.running
      act
      frames := frames ++ boundary :: m.frames
      nesting := m.nesting + 1
      control := c }
  if m.nesting ≥ maxNesting then refuse "C stack overflow"
  else
    match m.threads[thread]? with
    | some (.fresh f) => start m.act [] (.invoke f args none)
    | some (.suspended act frames) => start act frames (.give args)
    | some .active => refuse "cannot resume non-suspended coroutine"
    | _ => refuse "cannot resume dead coroutine"

/-- The frames of the running coroutine; none if a built-in function stands among them, which cannot be
left and entered again. -/
def coroutineFrames? : List Frame → List Frame → Option (List Frame × Nat × Bool × Activation × Nat ×
    List Frame)
  | _, [] => none
  | done, .coroutine thread wrapped saved nesting :: rest =>
    some (done.reverse, thread, wrapped, saved, nesting, rest)
  | _, .routine _ (.builtin _ _) :: _ | _, .handling _ :: _ => none
  | done, f :: rest => coroutineFrames? (f :: done) rest

/-- Stops the running coroutine. -/
def yield (m : Machine) (vs : List Val) : Machine :=
  if m.running.isEmpty then m.raiseText (.ofString "attempt to yield from outside a coroutine")
  else
    match coroutineFrames? [] m.frames with
    | none => m.raiseText (.ofString "attempt to yield across a C-call boundary")
    | some (frames, thread, wrapped, saved, nesting, rest) =>
      let m := { m with
        threads := m.threads.setIfInBounds thread (.suspended m.act frames)
        running := m.running.tail
        act := saved
        frames := rest
        nesting }
      if wrapped then m.go (.give vs) else m.guard (.bool true :: vs)

def statusText (m : Machine) (thread : Nat) : String :=
  if m.running.headD 0 == thread then "running"
  else
    match m.threads[thread]? with
    | some (.fresh _) | some (.suspended _ _) => "suspended"
    | some .active => "normal"
    | _ => "dead"

/-- A new coroutine for a function. -/
def newThread (m : Machine) (f : Val) : Nat × Machine :=
  (m.threads.size,
    { m with threads := m.threads.push (.fresh f), heap := m.heap.charge 1000 })

/-- Ends a coroutine that is not at work. -/
def closeThread (m : Machine) (who : Performer) (thread : Nat) : Machine :=
  let done (vs : List Val) : Machine :=
    { m with threads := m.threads.setIfInBounds thread .dead, control := .give vs }
  match m.threads[thread]? with
  | some (.failed v) => done [.bool false, v]
  | some .active =>
    let how := m.statusText thread
    m.complain who (.native (.ofString s!"cannot close a {how} coroutine"))
  | _ => done [.bool true]

/-- What the functions do that look at the machine itself. -/
def callControl (m : Machine) (f : ControlFunction) (name : Option Naming) (args : List Val) : Machine :=
  -- Programs reach these functions through others, which call them by their own names.
  let name := match f with
    | .pcall | .xpcall | .resume => some ("upvalue", f.name)
    | _ => name
  let who : Performer := .builtin (.control f) name
  let wrong {α : Type} (i : Nat) (wanted : String) : Routine α := Routine.wrongType args i wanted
  let withThread (k : Nat → Machine) : Machine :=
    match args with
    | .thread t :: _ => k t
    | _ => m.perform who (wrong 0 "coroutine")
  let isFunction (v : Val) : Bool :=
    match v with
    | .function _ | .builtin _ => true
    | _ => false
  match f with
  | .error =>
    m.perform who (do
      let level ← Routine.intArgD args 1 1
      match Routine.arg args 0 with
      | .str s =>
        let place := if level > 0 then m.callerPosition level.toInt.toNat else ByteArray.empty
        let s := place ++ s
        Routine.fail (if s == memoryMessage then .outOfMemory else .raised (.str s))
      | v => Routine.fail (.raised v))
  | .pcall =>
    match args with
    | [] => m.complain who (.argument 1 "value expected")
    | g :: rest =>
      if m.nesting ≥ maxNesting then m.guard [.bool false, .text "C stack overflow"]
      else
        { m with
          frames := .protect none m.act :: m.frames
          nesting := m.nesting + 1
          control := .invoke g rest none }
  | .xpcall =>
    let handler := Routine.arg args 1
    if !isFunction handler then m.perform who (wrong 1 "function")
    else if m.nesting ≥ maxNesting then m.guard [.bool false, .text "C stack overflow"]
    else
      { m with
        frames := .protect (some handler) m.act :: m.frames
        nesting := m.nesting + 1
        control := .invoke (Routine.arg args 0) (args.drop 2) none }
  | .create | .wrap =>
    let g := Routine.arg args 0
    if !isFunction g then m.perform who (wrong 0 "function")
    else
      let (t, m) := m.newThread g
      m.giveOne (if f = .create then .thread t else .builtin (.wrapped t))
  | .resume => withThread fun t => m.resume t false (args.drop 1)
  | .yield => m.yield args
  | .status => withThread fun t => m.giveOne (.text (m.statusText t))
  | .running => m.go (.give [.thread (m.running.headD 0), .bool m.running.isEmpty])
  | .isyieldable => m.giveOne (.bool !m.running.isEmpty)
  | .close => withThread fun t => m.closeThread who t

/-- How many values the stack of a program has room for. -/
def maxStack : Nat := 1000000

/-- Bytes that a value on the stack takes. -/
def stackSlotSize : Nat := 16

/-- What stands behind a value that is called, and its arguments. What is no function may have one in its
metatable, which gets the value as its first argument, or again something like that; nothing stands behind
a chain that is too long. -/
def callee? (heap : Heap) : Nat → Val → List Val → Option (Val × List Val)
  | 0, _, _ => none
  | n + 1, f, args =>
    match heap.metamethod f "__call" with
    | .nil => some (f, args)
    | .function a => some (.function a, f :: args)
    | .builtin b => some (.builtin b, f :: args)
    | g => callee? heap n g (f :: args)

/-- Raises the error of a call that is not possible. -/
def refuseCall (m : Machine) (message : String) : Machine :=
  match m.frames with
  | .routine _ (.builtin _ _) :: _ | .protect _ _ :: _ | .handling _ :: _
  | .coroutine _ _ _ _ :: _ | .base :: _ => m.raiseText (.ofString message)
  | _ => m.raiseHere message

/-- Calls a value that is no function. -/
def callThrough (m : Machine) (f : Val) (args : List Val) (name : Option Naming) : Machine :=
  match callee? m.heap maxStack f args with
  | some (.function a, args) => m.go (.invoke (.function a) args name)
  | some (.builtin b, args) => m.go (.invoke (.builtin b) args name)
  | some (f, _) => m.refuseCall s!"attempt to call a {m.heap.typeName f} value{namingText name}"
  | none =>
    if (m.heap.charge (stackSlotSize * maxStack)).isOver then m.outOfMemory
    else m.refuseCall "stack overflow"

/-- Calls a function of the library. That counts as work, so the next one is called at another moment. -/
def callLibrary (m : Machine) (f : Builtin) (args : List Val) (name : Option Naming) : Machine :=
  let meter := { m.meter with spent := m.meter.spent + 1 }
  { m with meter }.perform (.builtin f name) (Library.run m.meter.moment f args)

/-- Calls a value. -/
def invoke (m : Machine) (f : Val) (args : List Val) (name : Option Naming) : Machine :=
  match f with
  | .function a => m.enterClosure (m.heap.closures.getD a default) args
  | .builtin (.control f) => m.callControl f name args
  | .builtin (.wrapped t) => m.resume t true args
  | .builtin (.host h) => m.go (.ask h args)
  | .builtin f => m.callLibrary f args name
  | f => m.callThrough f args name

/-! ### Errors on their way -/

/-- The function that an error goes through first, how many such functions are at work, and whether the
error may reach the host. -/
def handler? : List Frame → Nat → Option Val × Nat
  | [], n => (none, n)
  | .protect handler _ :: _, n => (handler, n)
  | .base :: _, n => (some (.builtin .report), n)
  | .coroutine _ _ _ _ :: _, n => (none, n)
  | .handling _ :: rest, n => handler? rest (n + 1)
  | _ :: rest, n => handler? rest n

/-- How many errors may happen while errors are handled. -/
def maxHandlers : Nat := 190

/-- Sends an error through the function that is set for it, before anything is left. -/
def raise (m : Machine) (e : Thrown) : Machine :=
  if e.isMemory then m.go (.unwind e)
  else
    match handler? m.frames 0 with
    | (none, _) => m.go (.unwind e)
    | (some h, n) =>
      if n ≥ maxHandlers then m.go (.unwind ⟨.text "error in error handling", false⟩)
      else
        { m with
          frames := .handling m.act :: m.frames
          nesting := m.nesting + 1
          control := .invoke h [e.value] none }

/-- Ends the running coroutine with an error. -/
def failCoroutine (m : Machine) (thread : Nat) (wrapped : Bool) (e : Thrown) : Machine :=
  let m := { m with threads := m.threads.setIfInBounds thread (.failed e.value) }
  if wrapped then
    match e.value, e.isMemory with
    | .str s, false => m.raiseText (m.callerPosition 1 ++ s)
    | v, isMemory => m.go (.raise ⟨v, isMemory⟩)
  else m.guard [.bool false, e.value]

/-- An error leaves a frame. -/
def unwindFrame (m : Machine) (f : Frame) (e : Thrown) : Machine :=
  match f with
  | .expr _ | .stat _ | .closed _ => m.go (.unwind e)
  | .toClose v => m.closeVariable v e.value (.unwind e)
  | .caller saved => { m with act := saved, control := .unwind e }
  | .routine _ _ => { m with nesting := m.nesting - 1, control := .unwind e }
  | .handling saved => { m with act := saved, nesting := m.nesting - 1, control := .unwind e }
  | .protect _ saved =>
    { m with act := saved, nesting := m.nesting - 1 }.guard [.bool false, e.value]
  | .coroutine thread wrapped saved nesting =>
    { m with act := saved, running := m.running.tail, nesting }.failCoroutine thread wrapped e
  | .base => m.go (.halt (.error e))

/-! ### Outcomes -/

def continueWith (m : Machine) : Resumption → Machine
  | .next => m.go .next
  | .leave x => m.go (.leave x)
  | .unwind e => m.go (.unwind e)

/-- Hands values to a frame. -/
def giveFrame (m : Machine) (f : Frame) (vs : List Val) : Machine :=
  match f with
  | .expr f => m.giveExpr f vs
  | .stat f => m.giveStat f vs
  | .toClose _ => m.go .next
  | .closed after => m.continueWith after
  | .caller saved => { m with act := saved, control := .give vs }
  | .routine rest who => { m with nesting := m.nesting - 1 }.perform who (rest vs)
  | .protect _ saved =>
    { m with act := saved, nesting := m.nesting - 1 }.guard (.bool true :: vs)
  | .handling saved =>
    { m with act := saved, nesting := m.nesting - 1, control := .unwind ⟨vs.headD .nil, false⟩ }
  | .coroutine thread wrapped saved nesting =>
    let m := { m with
      threads := m.threads.setIfInBounds thread .dead
      running := m.running.tail
      act := saved
      nesting }
    if wrapped then m.go (.give vs) else m.guard (.bool true :: vs)
  | .base => m.go (.halt (.ok vs))

/-- Goes on with a frame when a statement has been carried out. -/
def nextFrame (m : Machine) (f : Frame) : Machine :=
  match f with
  | .stat f => m.nextStat f
  | .toClose v => m.closeVariable v .nil .next
  | .caller saved => { m with act := saved, control := .give [] }
  | f => m.giveFrame f []

/-- Leaves a frame on the way out of a block. -/
def leaveFrame (m : Machine) (f : Frame) (x : Exit) : Machine :=
  match f with
  | .stat f => m.leaveStat f x
  | .toClose v => m.closeVariable v .nil (.leave x)
  | .caller saved =>
    match x with
    | .function vs => { m with act := saved, control := .give vs }
    | _ => { m with act := saved, control := .give [] }
  | .expr _ => m.go (.leave x)
  | f =>
    match x with
    | .function vs => m.giveFrame f vs
    | _ => m.giveFrame f []

/-- Takes the innermost frame off and does something with it; without a frame the machine halts. -/
def withFrame (m : Machine) (k : Machine → Frame → Machine) (last : Except Thrown (List Val)) : Machine :=
  match m with
  | ⟨heap, threads, running, act, f :: frames, nesting, control, meter, finalizing⟩ =>
    k ⟨heap, threads, running, act, frames, nesting, control, meter, finalizing⟩ f
  | m => m.go (.halt last)

/-- Takes the control on. -/
def carryOn (m : Machine) : Machine :=
  match m.control with
  | .eval e => m.eval e
  | .exec s => m.exec s
  | .next => m.withFrame nextFrame (.ok [])
  | .give vs => m.withFrame (fun m f => m.giveFrame f vs) (.ok vs)
  | .leave x => m.withFrame (fun m f => m.leaveFrame f x) (.ok [])
  | .invoke f args name => m.invoke f args name
  | .raise e => m.raise e
  | .unwind e => m.withFrame (fun m f => m.unwindFrame f e) (.error e)
  | .ask _ _ | .halt _ => m

end Machine

end ScriptHost.Lua
