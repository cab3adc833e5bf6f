import ScriptHost.Lua.Operation
import ScriptHost.Lua.Surroundings

/-! The mathematical functions of Lua. The random numbers of a program come from a generator whose state
stands in the heap. -/

namespace ScriptHost.Lua

open Routine

namespace MathFunction

def name : MathFunction → String
  | abs => "abs" | acos => "acos" | asin => "asin" | atan => "atan" | ceil => "ceil" | cos => "cos"
  | cosh => "cosh" | deg => "deg" | exp => "exp" | floor => "floor" | fmod => "fmod"
  | frexp => "frexp" | ldexp => "ldexp" | log => "log" | log10 => "log10" | max => "max"
  | min => "min" | modf => "modf" | pow => "pow" | rad => "rad" | random => "random"
  | randomseed => "randomseed" | sin => "sin" | sinh => "sinh" | sqrt => "sqrt" | tan => "tan"
  | tanh => "tanh" | tointeger => "tointeger" | type => "type" | ult => "ult"

def all : List MathFunction :=
  [abs, acos, asin, atan, ceil, cos, cosh, deg, exp, floor, fmod, frexp, ldexp, log, log10, max, min,
    modf, pow, rad, random, randomseed, sin, sinh, sqrt, tan, tanh, tointeger, type, ult]

end MathFunction

namespace Library

def floatArg (args : List Val) (i : Nat) : Routine Float := do
  return (← numberArg args i).toDouble.toFloat

def floatVal (x : Float) : Val := .float (.result x)

/-- A function of one number. -/
def floatFunction (f : Float → Float) (args : List Val) : Routine Val := do
  return floatVal (f (← floatArg args 0))

def pi : Float := Float.ofBits 0x400921FB54442D18

/-- A rounded number, as an integer if it fits. -/
def rounded (round : Float → Float) (args : List Val) : Routine Val := do
  match ← numberArg args 0 with
  | .int n => return .int n
  | .float x =>
    let y := Double.result (round x.toFloat)
    return match y.toInt? with
      | some n => .int n
      | none => .float y

/-- The best of the arguments. -/
def extreme (better : Number → Number → Bool) (args : List Val) : Routine Val := do
  let first ← numberArg args 0
  let mut best := first
  for i in [1:args.length] do
    let n ← numberArg args i
    if better n best then best := n
  return .num best

def log (args : List Val) : Routine Val := do
  let x ← floatArg args 0
  if (arg args 1).isNil then return floatVal x.log
  let base ← floatArg args 1
  return floatVal (if base == 2 then x.log2 else if base == 10 then x.log10 else x.log / base.log)

def fmod (args : List Val) : Routine Val := do
  match ← numberArg args 0, ← numberArg args 1 with
  | .int a, .int b =>
    if b == 0 then fail (.argument 2 "zero")
    return .int (if b == -1 then 0 else a % b)
  | a, b => return .float (a.toDouble.remainder b.toDouble)

def modf (args : List Val) : Routine (List Val) := do
  match ← numberArg args 0 with
  | .int n => return [.int n, .float .zero]
  | .float x =>
    let x := x.toFloat
    let whole := if x < 0 then x.ceil else x.floor
    return [floatVal whole, floatVal (if whole == x then 0 else x - whole)]

/-- A number as a fraction from one half up to one and a power of two. -/
def frexp (x : Double) : Double × Int :=
  match Decimal.Parts.ofBits x.bits with
  | .finite negative m e _ _ =>
    let length := Nat.log2 m + 1
    let y := (Float.ofNat m).scaleB (-(length : Int))
    (.ofFloat (if negative then -y else y), e + length)
  | _ => (x, 0)

def numberKind (args : List Val) : Routine Val := do
  match ← anyArg args 0 with
  | .num (.int _) => return .text "integer"
  | .num (.float _) => return .text "float"
  | _ => return .nil

/-! ### Random numbers -/

/-- The bits of a word moved left around its end. -/
def rotate (x : UInt64) (n : UInt64) : UInt64 := (x <<< n) ||| (x >>> (64 - n))

/-- The next random word, and the next state of the generator. -/
def nextRandom (s : UInt64 × UInt64 × UInt64 × UInt64) :
    UInt64 × UInt64 × UInt64 × UInt64 × UInt64 :=
  let (s0, s1, s2, s3) := s
  let s2' := s2 ^^^ s0
  let s3' := s3 ^^^ s1
  let r := rotate (s1 * 5) 7 * 9
  (r, s0 ^^^ s3', s1 ^^^ s2', s2' ^^^ (s1 <<< 17), rotate s3' 45)

def drawRandom : Routine UInt64 := updates fun heap =>
  let (r, state) := nextRandom heap.random
  (r, { heap with random := state })

/-- A random word from 0 to `n`: words with as many bits are drawn until one fits. -/
def project (r n mask : UInt64) : Nat → Routine UInt64
  | 0 => pure (r % (n + 1))
  | fuel + 1 => do
    let r := r &&& mask
    if r ≤ n then return r
    project (← drawRandom) n mask fuel

def random (args : List Val) : Routine Val := do
  let r ← drawRandom
  let within (low up : Int64) : Routine Val := do
    if low > up then fail (.argument args.length "interval is empty")
    let n := up.toUInt64 - low.toUInt64
    let mask := if n == 0 then 0 else (Nat.pow 2 (Nat.log2 n.toNat + 1) - 1).toUInt64
    return .int (low + (← project r n mask 1000).toInt64)
  match args with
  | [] => return floatVal ((r >>> 11).toFloat.scaleB (-53))
  | [_] => do
    let up ← intArg args 0
    if up == 0 then return .int r.toInt64
    within 1 up
  | [_, _] => within (← intArg args 0) (← intArg args 1)
  | _ => failText "wrong number of arguments"

/-- The state of the generator from two numbers. -/
def seeded (a b : UInt64) : UInt64 × UInt64 × UInt64 × UInt64 :=
  Nat.repeat (fun s => (nextRandom s).2) 16 (a, 0xFF, b, 0)

/-- Begins random numbers anew, with the seed of the moment if none is given. -/
def randomseed (now : Moment) (args : List Val) : Routine (List Val) := do
  let (a, b) ← if args.isEmpty then pure (now.seed, ← drawRandom) else
    let a ← match ← numberArg args 0 with
      | .int n => pure n
      | .float x => pure (x.toInt?.getD x.bits.toInt64)
    let b ← intArgD args 1 0
    pure (a.toUInt64, b.toUInt64)
  modifies fun heap => { heap with random := seeded a b }
  return [.int a.toInt64, .int b.toInt64]

/-! ### The functions -/

def maths (now : Moment) (f : MathFunction) (args : List Val) : Routine (List Val) :=
  match f with
  | .abs => do
    match ← numberArg args 0 with
    | .int n => return [.int (if n < 0 then 0 - n else n)]
    | .float x => return [floatVal x.toFloat.abs]
  | .acos => return [← floatFunction Float.acos args]
  | .asin => return [← floatFunction Float.asin args]
  | .atan => do
    let y ← floatArg args 0
    let x ← if (arg args 1).isNil then pure 1 else floatArg args 1
    return [floatVal (Float.atan2 y x)]
  | .ceil => return [← rounded Float.ceil args]
  | .cos => return [← floatFunction Float.cos args]
  | .cosh => return [← floatFunction Float.cosh args]
  | .deg => return [← floatFunction (· * (180 / pi)) args]
  | .exp => return [← floatFunction Float.exp args]
  | .floor => return [← rounded Float.floor args]
  | .fmod => return [← fmod args]
  | .frexp => do
    let (m, e) := frexp (← numberArg args 0).toDouble
    return [.float m, .int (Int64.ofInt e)]
  | .ldexp => do
    let x ← floatArg args 0
    return [floatVal (x.scaleB (← intArg args 1).toInt)]
  | .log => return [← log args]
  | .log10 => return [← floatFunction Float.log10 args]
  | .max => return [← extreme (fun a b => b.lt a) args]
  | .min => return [← extreme Number.lt args]
  | .modf => modf args
  | .pow => do
    let x ← numberArg args 0
    return [.float (.pow x.toDouble (← numberArg args 1).toDouble)]
  | .rad => return [← floatFunction (· * (pi / 180)) args]
  | .random => return [← random args]
  | .randomseed => randomseed now args
  | .sin => return [← floatFunction Float.sin args]
  | .sinh => return [← floatFunction Float.sinh args]
  | .sqrt => return [← floatFunction Float.sqrt args]
  | .tan => return [← floatFunction Float.tan args]
  | .tanh => return [← floatFunction Float.tanh args]
  | .tointeger => do
    let v ← anyArg args 0
    return [(v.asInt?.map Val.int).getD .nil]
  | .type => return [← numberKind args]
  | .ult => do
    let a ← intArg args 0
    let b ← intArg args 1
    return [.bool (a.toUInt64 < b.toUInt64)]

end Library

end ScriptHost.Lua
