/-! Texts from bytes that need not be UTF-8: each longest broken piece of a character's encoding, and
each byte that begins none, becomes one replacement character. -/

namespace ScriptHost.Text

/-- U+FFFD. -/
def replacement : Char := '\uFFFD'

/-- A byte that continues a character. -/
def isTail (b : UInt8) : Bool := 0x80 ≤ b && b ≤ 0xBF

/-- Whether `b` may be the second byte of a character of three bytes that begins with `a`. -/
def fitsThree (a b : UInt8) : Bool :=
  if a == 0xE0 then 0xA0 ≤ b && b ≤ 0xBF
  else if a == 0xED then 0x80 ≤ b && b ≤ 0x9F
  else isTail b

/-- Whether `b` may be the second byte of a character of four bytes that begins with `a`. -/
def fitsFour (a b : UInt8) : Bool :=
  if a == 0xF0 then 0x90 ≤ b && b ≤ 0xBF
  else if a == 0xF4 then 0x80 ≤ b && b ≤ 0x8F
  else isTail b

/-- The last six bits of a byte. -/
def low6 (b : UInt8) : Nat := b.toNat % 64

/-- The characters of a byte sequence. -/
def lossyChars : List UInt8 → List Char
  | [] => []
  | a :: rest =>
    if a < 0x80 then Char.ofNat a.toNat :: lossyChars rest
    else if 0xC2 ≤ a && a ≤ 0xDF then
      match rest with
      | b :: rest' =>
        if isTail b then Char.ofNat (a.toNat % 32 * 64 + low6 b) :: lossyChars rest'
        else replacement :: lossyChars (b :: rest')
      | [] => [replacement]
    else if 0xE0 ≤ a && a ≤ 0xEF then
      match rest with
      | b :: c :: rest' =>
        if fitsThree a b && isTail c then
          Char.ofNat ((a.toNat % 16 * 64 + low6 b) * 64 + low6 c) :: lossyChars rest'
        else if fitsThree a b then replacement :: lossyChars (c :: rest')
        else replacement :: lossyChars (b :: c :: rest')
      | [b] => if fitsThree a b then [replacement] else replacement :: lossyChars [b]
      | [] => [replacement]
    else if 0xF0 ≤ a && a ≤ 0xF4 then
      match rest with
      | b :: c :: d :: rest' =>
        if fitsFour a b && isTail c && isTail d then
          Char.ofNat (((a.toNat % 8 * 64 + low6 b) * 64 + low6 c) * 64 + low6 d) :: lossyChars rest'
        else if fitsFour a b && isTail c then replacement :: lossyChars (d :: rest')
        else if fitsFour a b then replacement :: lossyChars (c :: d :: rest')
        else replacement :: lossyChars (b :: c :: d :: rest')
      | [b, c] =>
        if fitsFour a b && isTail c then [replacement]
        else if fitsFour a b then replacement :: lossyChars [c]
        else replacement :: lossyChars [b, c]
      | [b] => if fitsFour a b then [replacement] else replacement :: lossyChars [b]
      | [] => [replacement]
    else replacement :: lossyChars rest
termination_by bs => bs.length

/-- The text of a byte sequence: the text it encodes if it encodes one. -/
def lossy (bytes : ByteArray) : String :=
  (String.fromUTF8? bytes).getD (String.ofList (lossyChars bytes.toList))

end ScriptHost.Text
