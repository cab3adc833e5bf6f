import ScriptHost.Lua.Syntax

/-! Values of running Lua programs. Tables, functions and coroutines are known by the address under
which the heap or the machine keeps them. -/

namespace ScriptHost.Lua

deriving instance Hashable for Number

/-! ### Functions that come with the language -/

inductive BasicFunction
  | assert | getmetatable | ipairs | ipairsStep | next | pairs | rawequal | rawget | rawlen | rawset
  | select | setmetatable | tonumber | tostring | type | warn
  deriving DecidableEq, Hashable

inductive StringFunction
  | byte | char | find | format | gmatch | gsub | len | lower | match | pack | packsize | rep | reverse
  | sub | unpack | upper
  deriving DecidableEq, Hashable

inductive TableFunction
  | concat | insert | move | pack | remove | sort | unpack
  deriving DecidableEq, Hashable

inductive MathFunction
  | abs | acos | asin | atan | ceil | cos | cosh | deg | exp | floor | fmod | frexp | ldexp | log | log10
  | max | min | modf | pow | rad | random | randomseed | sin | sinh | sqrt | tan | tanh | tointeger
  | type | ult
  deriving DecidableEq, Hashable

inductive Utf8Function
  | char | codepoint | codes | codesStep (strict : Bool) | len | offset
  deriving DecidableEq, Hashable

inductive ClockFunction
  | time | clock
  deriving DecidableEq, Hashable

/-- Functions that look at or change what the machine is to do next. -/
inductive ControlFunction
  | error | pcall | xpcall | create | resume | yield | wrap | status | running | isyieldable | close
  deriving DecidableEq, Hashable

/-- A function that is not written in Lua. -/
inductive Builtin
  | basic (f : BasicFunction)
  | string (f : StringFunction)
  /-- Arithmetic on strings that may spell numbers. -/
  | stringArith (op : String)
  | table (f : TableFunction)
  | math (f : MathFunction)
  | utf8 (f : Utf8Function)
  | clock (f : ClockFunction)
  | control (f : ControlFunction)
  /-- The text of an error that reaches the host. -/
  | report
  /-- Goes on with a coroutine. -/
  | wrapped (thread : Nat)
  /-- The next match of a search whose state is in a table. -/
  | matcher (state : Nat)
  /-- A function of the host. -/
  | host (name : String)
  deriving DecidableEq, Hashable

/-! ### Values -/

inductive Val
  | nil
  | bool (b : Bool)
  | num (n : Number)
  | str (s : Bytes)
  | table (address : Nat)
  | function (address : Nat)
  | builtin (f : Builtin)
  | thread (address : Nat)
  /-- An error of the host on its way through a program. -/
  | failure (message : String)
  deriving DecidableEq, Hashable, Inhabited

namespace Val

def int (n : Int64) : Val := num (.int n)

def float (x : Double) : Val := num (.float x)

def nat (n : Nat) : Val := int (Int64.ofNat n)

def text (s : String) : Val := str (.ofString s)

/-- Everything but `nil` and `false` holds. -/
def isTrue : Val → Bool
  | nil | bool false => false
  | _ => true

def isNil : Val → Bool
  | nil => true
  | _ => false

/-- The name of a value's type. -/
def typeName : Val → String
  | nil => "nil"
  | bool _ => "boolean"
  | num _ => "number"
  | str _ => "string"
  | table _ => "table"
  | function _ | builtin _ => "function"
  | thread _ => "thread"
  | failure _ => "userdata"

/-- The bytes of a number as a program writes it. -/
def numberBytes (n : Number) : Bytes := .ofString n.text

/-- A string, or the text of a number. -/
def asBytes? : Val → Option Bytes
  | str s => some s
  | num n => some (numberBytes n)
  | _ => none

/-- A number, or the number that a string spells. -/
def asNumber? : Val → Option Number
  | num n => some n
  | str s => Number.parse? s.toChars
  | _ => none

/-- An integer, or the one that a number equals or a string spells. -/
def asInt? (v : Val) : Option Int64 := v.asNumber?.bind Number.toInt?

/-- Equality without metamethods. -/
def rawEq : Val → Val → Bool
  | num a, num b => a.eq b
  | a, b => a == b

/-- The value of a constant. -/
def ofConst : Const → Val
  | .nil => nil
  | .boolean b => bool b
  | .number n => num n
  | .string s => str s

end Val

end ScriptHost.Lua
