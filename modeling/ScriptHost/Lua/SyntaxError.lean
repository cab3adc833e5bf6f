import ScriptHost.Lua.Lexer

/-! Errors in Lua sources, with the texts in which they are reported. -/

namespace ScriptHost.Lua

/-- What is wrong with a source. -/
inductive SyntaxFault
  /-- Something that is no token. -/
  | lexical (message : String)
  | expected (what : String)
  /-- What should close something that was opened on an earlier line. -/
  | unclosed (what opener : String) (line : Nat)
  | unexpectedSymbol
  /-- An expression that is no statement, or no target of an assignment. -/
  | noStatement
  | noArguments
  | noParameter
  | noForHeader
  | varargOutside
  | tooMany (what : String) (limit : Nat) (place : String)
  | constAssigned (name : String)
  | unknownAttribute (name : String)
  | manyToClose
  | labelRepeated (name : String) (line : Nat)
  | labelMissing (name : String) (line : Nat)
  | breakOutside (line : Nat)
  | jumpIntoScope (label : String) (line : Nat) (var : String)
  /-- Expressions or statements nested too deeply. -/
  | tooDeep
  deriving DecidableEq

def SyntaxFault.message : SyntaxFault → String
  | lexical message => message
  | expected what => s!"{what} expected"
  | unclosed what opener line => s!"{what} expected (to close {opener} at line {line})"
  | unexpectedSymbol => "unexpected symbol"
  | noStatement => "syntax error"
  | noArguments => "function arguments expected"
  | noParameter => "<name> or '...' expected"
  | noForHeader => "'=' or 'in' expected"
  | varargOutside => "cannot use '...' outside a vararg function"
  | tooMany what limit place => s!"too many {what} (limit is {limit}) in {place}"
  | constAssigned name => s!"attempt to assign to const variable '{name}'"
  | unknownAttribute name => s!"unknown attribute '{name}'"
  | manyToClose => "multiple to-be-closed variables in local list"
  | labelRepeated name line => s!"label '{name}' already defined on line {line}"
  | labelMissing name line => s!"no visible label '{name}' for <goto> at line {line}"
  | breakOutside line => s!"break outside a loop at line {line}"
  | jumpIntoScope label line var =>
    s!"<goto {label}> at line {line} jumps into the scope of local '{var}'"
  | tooDeep => "C stack overflow"

/-- A fault, the line on which it was found, and the token at which it was found, where the message
names one. -/
structure SyntaxError where
  fault : SyntaxFault
  line : Nat
  near : Option Bytes

def SyntaxError.ofLexError (e : LexError) : SyntaxError := ⟨.lexical e.message, e.line, some e.near⟩

/-- The fault and the token, without the place. -/
def SyntaxError.message (e : SyntaxError) : Bytes :=
  match e.near with
  | some token => .ofString (e.fault.message ++ " near ") ++ token
  | none => .ofString e.fault.message

end ScriptHost.Lua
