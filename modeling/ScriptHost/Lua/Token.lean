import ScriptHost.Lua.Bytes
import ScriptHost.Lua.Number

/-! Tokens of Lua sources, and their spellings in error messages. -/

namespace ScriptHost.Lua

/-- The reserved words. -/
inductive Keyword
  | and | break | do | else | elseif | end | false | for | function | goto | if | in | local | nil
  | not | or | repeat | return | then | true | until | while
  deriving DecidableEq

def Keyword.text : Keyword → String
  | and => "and" | .break => "break" | .do => "do" | .else => "else" | elseif => "elseif"
  | .end => "end" | .false => "false" | .for => "for" | function => "function" | goto => "goto"
  | .if => "if" | .in => "in" | .local => "local" | nil => "nil" | not => "not" | or => "or"
  | .repeat => "repeat" | .return => "return" | .then => "then" | .true => "true"
  | .until => "until" | .while => "while"

def Keyword.all : List Keyword :=
  [.and, .break, .do, .else, .elseif, .end, .false, .for, .function, .goto, .if, .in, .local, .nil,
    .not, .or, .repeat, .return, .then, .true, .until, .while]

/-- The operators and signs of more than one character. -/
inductive Sign
  | floorDivide | concat | dots | equal | greaterEqual | lessEqual | notEqual | shiftLeft
  | shiftRight | doubleColon
  deriving DecidableEq

def Sign.text : Sign → String
  | floorDivide => "//" | concat => ".." | dots => "..." | equal => "==" | greaterEqual => ">="
  | lessEqual => "<=" | notEqual => "~=" | shiftLeft => "<<" | shiftRight => ">>"
  | doubleColon => "::"

/-- A token. -/
inductive Token
  | keyword (k : Keyword)
  | sign (s : Sign)
  /-- Any other character that stands alone, by its first byte. -/
  | byte (b : UInt8)
  | name (s : String)
  | string (s : Bytes)
  | number (n : Number)
  | eof
  deriving DecidableEq

/-- A character that stands alone. -/
def Token.char (c : Char) : Token := .byte c.toNat.toUInt8

/-- A token in its source: what it is, the line on which it ends, and its spelling as the reader of
a message sees it, which for a string is the text read so far. -/
structure Lexeme where
  token : Token
  line : Nat
  spelling : Bytes

/-- A byte in quotes, by its number unless it is a printable ASCII character. -/
def byteText (b : UInt8) : Bytes :=
  if 32 ≤ b && b < 127 then .ofString "'" ++ Bytes.ofList [b] ++ .ofString "'"
  else .ofString s!"'<\\{b}>'"

/-- A token as it is named where it was expected. -/
def Token.kind : Token → String
  | keyword k => s!"'{k.text}'"
  | sign s => s!"'{s.text}'"
  | byte b => s!"'{Char.ofNat b.toNat}'"
  | name _ => "<name>"
  | string _ => "<string>"
  | number (.int _) => "<integer>"
  | number (.float _) => "<number>"
  | eof => "<eof>"

/-- A token as it is named where it was found. -/
def Lexeme.text (l : Lexeme) : Bytes :=
  match l.token with
  | .name _ | .string _ | .number _ =>
    .ofString "'" ++ l.spelling.untilZero ++ .ofString "'"
  | .byte b => byteText b
  | t => .ofString t.kind

end ScriptHost.Lua
