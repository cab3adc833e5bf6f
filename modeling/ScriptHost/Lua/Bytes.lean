import ScriptHost.Text.Lossy

/-! Strings of Lua, which are sequences of bytes. -/

namespace ScriptHost.Lua

/-- A string of Lua. -/
abbrev Bytes := ByteArray

instance : DecidableEq Bytes := ByteArray.instDecidableEq

namespace Bytes

/-- The UTF-8 encoding of a text. -/
def ofString (s : String) : Bytes := s.toUTF8

/-- The text of a string; what is not UTF-8 is replaced. -/
def toText (b : Bytes) : String := Text.lossy b

/-- One character per byte. -/
def toChars (b : Bytes) : List Char := b.toList.map fun x => Char.ofNat x.toNat

def ofList (bs : List UInt8) : Bytes := ⟨bs.toArray⟩

/-- The bytes before the first zero. -/
def untilZero (b : Bytes) : Bytes := ofList (b.toList.takeWhile (· != 0))

/-- Whether `a` comes before `b`: byte by byte, and a string before its continuations. -/
def less : List UInt8 → List UInt8 → Bool
  | _, [] => false
  | [], _ :: _ => true
  | a :: as, b :: bs => a < b || (a == b && less as bs)

def lt (a b : Bytes) : Bool := less a.toList b.toList

def replicate (n : Nat) (b : UInt8) : Bytes := ⟨Array.replicate n b⟩

/-- A text comes back from its encoding. -/
theorem toText_ofString (s : String) : toText (ofString s) = s := by
  have h : String.fromUTF8? s.toByteArray = some s := by
    unfold String.fromUTF8?
    split
    · rfl
    · rename_i h
      exact absurd s.isValidUTF8 h
  show (String.fromUTF8? s.toByteArray).getD _ = s
  rw [h, Option.getD_some]

end Bytes

end ScriptHost.Lua
