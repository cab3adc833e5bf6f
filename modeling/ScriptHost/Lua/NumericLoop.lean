import ScriptHost.Lua.Heap

/-! Loops over numbers. A loop over integers knows from the start how often it goes on, so that its
values never wrap around; any other loop runs over floating-point numbers. -/

namespace ScriptHost.Lua

/-- A loop over numbers: how it goes on from the present value. -/
inductive NumericLoop
  | int (i step : Int64) (left : UInt64)
  | float (x limit step : Double)

namespace NumericLoop

/-- The last value that a loop over integers may take, or none if the loop does not run. -/
def intLimit? (start step : Int64) (limit : Number) : Option Int64 :=
  let bound? : Option Int64 := match limit with
    | .int n => some n
    | .float x =>
      match if step < 0 then x.ceil? else x.floor? with
      | some n => some n
      | none =>
        if x.toFloat > 0 then (if step < 0 then none else some Int64.maxValue)
        else if step > 0 then none
        else some Int64.minValue
  bound?.filter fun bound => if step > 0 then start ≤ bound else bound ≤ start

/-- How often a loop over integers goes on after its first round. -/
def intRounds (start step bound : Int64) : UInt64 :=
  if step > 0 then (bound.toUInt64 - start.toUInt64) / step.toUInt64
  else (start.toUInt64 - bound.toUInt64) / ((-(step + 1)).toUInt64 + 1)

/-- The message about a control value of a loop that is no number. -/
def loopMessage (heap : Heap) (what : String) (v : Val) : String :=
  s!"bad 'for' {what} (number expected, got {heap.typeName v})"

/-- The first value of a loop and the loop itself; none if it does not run. -/
def start? (heap : Heap) (start limit step : Val) :
    Except String (Option (Val × NumericLoop)) := do
  let number (what : String) (v : Val) : Except String Number :=
    match v.asNumber? with
    | some n => .ok n
    | none => .error (loopMessage heap what v)
  match start, step with
  | .num (.int i), .num (.int s) =>
    if s == 0 then throw "'for' step is zero"
    let limit ← number "limit" limit
    return (intLimit? i s limit).map fun bound => (.int i, .int i s (intRounds i s bound))
  | _, _ =>
    let limit := (← number "limit" limit).toDouble
    let step := (← number "step" step).toDouble
    let start := (← number "initial value" start).toDouble
    if step.toFloat == 0 then throw "'for' step is zero"
    let isEmpty := if 0 < step.toFloat then limit.toFloat < start.toFloat else start.toFloat < limit.toFloat
    return if isEmpty then none else some (.float start, .float start limit step)

/-- The next value of a loop, if it goes on. -/
def next? : NumericLoop → Option (Val × NumericLoop)
  | .int i step left =>
    if left == 0 then none else some (.int (i + step), .int (i + step) step (left - 1))
  | .float x limit step =>
    let y := Double.result (x.toFloat + step.toFloat)
    let goesOn := if 0 < step.toFloat then y.toFloat ≤ limit.toFloat else limit.toFloat ≤ y.toFloat
    if goesOn then some (.float y, .float y limit step) else none

end NumericLoop

end ScriptHost.Lua
