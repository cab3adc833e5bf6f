import ScriptHost.Lua.Operation
import ScriptHost.Lua.Surroundings

/-! The clock functions of Lua: they tell what the clocks around the machine show at the moment. -/

namespace ScriptHost.Lua

open Routine

namespace ClockFunction

def name : ClockFunction → String
  | time => "time" | clock => "clock"

def all : List ClockFunction := [time, clock]

end ClockFunction

namespace Library

/-- The days from 1 January 1970 to a day of the proleptic Gregorian calendar. -/
def daysFromEpoch (year month day : Int) : Int :=
  let month := month - 1
  let year := year + Int.fdiv month 12
  let month := Int.fmod month 12 + 1
  -- Years that begin in March keep the leap day at their end.
  let y := if month ≤ 2 then year - 1 else year
  let era := Int.fdiv y 400
  let m := if month > 2 then month - 3 else month + 9
  let dayOfYear := (153 * m + 2) / 5 + day - 1
  let yearOfEra := y - 400 * era
  era * 146097 + yearOfEra * 365 + yearOfEra / 4 - yearOfEra / 100 + dayOfYear - 719468

/-- A field of a date. -/
def dateField (t : Val) (key : String) (default : Option Int) : Routine Int := do
  let v ← index t (.text key)
  match v.asInt?, default with
  | some n, _ => return n.toInt
  | none, some d =>
    if v.isNil then return d
    failText s!"field '{key}' is not an integer"
  | none, none =>
    if v.isNil then failText s!"field '{key}' missing in date table"
    failText s!"field '{key}' is not an integer"

/-- The seconds from the beginning of 1970 to a date. -/
def dateSeconds (t : Val) : Routine Int := do
  let year ← dateField t "year" none
  let month ← dateField t "month" none
  let day ← dateField t "day" none
  let hour ← dateField t "hour" (some 12)
  let minute ← dateField t "min" (some 0)
  let second ← dateField t "sec" (some 0)
  return daysFromEpoch year month day * 86400 + hour * 3600 + minute * 60 + second

def clock (now : Moment) (f : ClockFunction) (args : List Val) : Routine (List Val) :=
  match f with
  | .clock => return [.float now.processor]
  | .time => do
    if (arg args 0).isNil then return [.int now.seconds]
    let t ← tableArg args 0
    return [.int (Int64.ofInt (← dateSeconds (.table t)))]

end Library

end ScriptHost.Lua
