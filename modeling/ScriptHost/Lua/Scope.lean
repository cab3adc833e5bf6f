import ScriptHost.Lua.Syntax
import ScriptHost.Lua.SyntaxError

/-! Scopes: the variables, labels and pending jumps that a parser knows at a point of a source. The
functions around the point are a list with the innermost first, and so are the blocks of each. -/

namespace ScriptHost.Lua

/-- What may be done with a variable. -/
inductive VarKind
  | regular
  | constant
  | toClose
  /-- Its value is known when the source is read. -/
  | known (c : Const)
  deriving DecidableEq, Inhabited

/-- Only a regular variable may be assigned to. -/
def VarKind.isAssignable : VarKind → Bool
  | regular => true
  | _ => false

structure Variable where
  name : String
  kind : VarKind
  deriving Inhabited

structure UpvalueEntry where
  name : String
  capture : Capture
  kind : VarKind

/-- A label or a pending jump to one: its name, its line, and how many locals are active there. -/
structure LabelEntry where
  name : String
  line : Nat
  active : Nat

structure BlockScope where
  /-- How many locals are active outside the block. -/
  outside : Nat
  isLoop : Bool
  labels : List LabelEntry
  /-- Jumps in the block whose label has not been seen yet. -/
  jumps : List LabelEntry

structure FunctionScope where
  /-- The variables declared so far, the newest first. -/
  locals : List Variable
  /-- How many of them are active; the newest ones may not be yet. -/
  active : Nat
  upvalues : List UpvalueEntry
  blocks : List BlockScope
  isVararg : Bool
  /-- The line of the definition, or zero for the chunk itself. -/
  line : Nat
  deriving Inhabited

namespace FunctionScope

def start (line : Nat) : FunctionScope :=
  ⟨[], 0, [], [⟨0, false, [], []⟩], false, line⟩

/-- The place that messages about limits name. -/
def place (f : FunctionScope) : String :=
  if f.line == 0 then "main function" else s!"function at line {f.line}"

def maxVariables : Nat := 200

def maxUpvalues : Nat := 255

/-- The active variables, the newest first. -/
def actives (f : FunctionScope) : List Variable := f.locals.drop (f.locals.length - f.active)

/-- The slot of the newest active variable of a name, and its kind. -/
def findLocal? (f : FunctionScope) (name : String) : Option (Nat × VarKind) :=
  go f.active f.actives
where
  go : Nat → List Variable → Option (Nat × VarKind)
    | _, [] => none
    | 0, _ => none
    | n + 1, v :: vs => if v.name == name then some (n, v.kind) else go n vs

def findUpvalue? (f : FunctionScope) (name : String) : Option (Nat × VarKind) :=
  (f.upvalues.findIdx? (·.name == name)).bind fun i => f.upvalues[i]?.map fun u => (i, u.kind)

/-- A visible label of a name. -/
def findLabel? (f : FunctionScope) (name : String) : Option LabelEntry :=
  (f.blocks.flatMap (·.labels)).find? (·.name == name)

def enterBlock (f : FunctionScope) (isLoop : Bool) : FunctionScope :=
  { f with blocks := ⟨f.active, isLoop, [], []⟩ :: f.blocks }

/-- The jump that leaves a loop. -/
def breakName : String := "break"

/-- Leaves the innermost block: its variables and labels are gone, a loop ends its breaks, and the
other pending jumps become jumps of the block around it, from outside. For the last block those that
are left have no label. -/
def leaveBlock (f : FunctionScope) : FunctionScope × List LabelEntry :=
  match f.blocks with
  | [] => (f, [])
  | b :: outer =>
    let locals := f.locals.drop (f.locals.length - b.outside)
    let jumps := if b.isLoop then b.jumps.filter (·.name != breakName) else b.jumps
    let moved := jumps.map fun j => { j with active := b.outside }
    match outer with
    | [] => ({ f with locals, active := b.outside, blocks := [] }, jumps)
    | o :: os =>
      ({ f with locals, active := b.outside, blocks := { o with jumps := o.jumps ++ moved } :: os },
        [])

/-- Adds a pending jump to the innermost block. -/
def addJump (f : FunctionScope) (j : LabelEntry) : FunctionScope :=
  match f.blocks with
  | b :: bs => { f with blocks := { b with jumps := b.jumps ++ [j] } :: bs }
  | [] => f

/-- Adds a label to the innermost block and takes out the pending jumps to it; the first of them
that would enter the scope of a variable is given too. `last` says that nothing follows the label in
its block, so that the variables of the block count as gone. -/
def addLabel (f : FunctionScope) (name : String) (line : Nat) (last : Bool) :
    FunctionScope × Option LabelEntry :=
  match f.blocks with
  | [] => (f, none)
  | b :: bs =>
    let l : LabelEntry := ⟨name, line, if last then b.outside else f.active⟩
    let entering := b.jumps.find? fun j => j.name == name && j.active < l.active
    ({ f with blocks :=
        { b with labels := b.labels ++ [l], jumps := b.jumps.filter (·.name != name) } :: bs },
      entering)

end FunctionScope

/-- What a name stands for. -/
inductive Resolution
  | place (p : Place) (kind : VarKind)
  | global

/-- Finds a variable in the functions around a point, the innermost first, and makes it an upvalue
of every function between. The functions are given back with their new upvalues; a function that
would get too many is named. -/
def resolveName (name : String) :
    List FunctionScope → Except FunctionScope (List FunctionScope × Resolution)
  | [] => .ok ([], .global)
  | f :: outer =>
    match f.findLocal? name with
    | some (slot, kind) => .ok (f :: outer, .place (.local slot) kind)
    | none =>
      match f.findUpvalue? name with
      | some (i, kind) => .ok (f :: outer, .place (.upvalue i) kind)
      | none =>
        match resolveName name outer with
        | .error g => .error g
        | .ok (outer, .global) => .ok (f :: outer, .global)
        | .ok (outer, .place p kind) =>
          match kind with
          | .known _ => .ok (f :: outer, .place p kind)
          | _ =>
            let capture : Capture := match p with
              | .local slot => ⟨true, slot⟩
              | .upvalue i => ⟨false, i⟩
            if f.upvalues.length + 1 > FunctionScope.maxUpvalues then .error f
            else
              .ok ({ f with upvalues := f.upvalues ++ [⟨name, capture, kind⟩] } :: outer,
                .place (.upvalue f.upvalues.length) kind)

end ScriptHost.Lua
