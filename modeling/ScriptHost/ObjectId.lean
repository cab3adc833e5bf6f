import ScriptHost.Text.Blank
import ScriptHost.Text.Number

/-! Object ids: 128-bit keys of scripts, host objects, owners, accounts and directory scopes, with
the spellings in which a key is read and the one in which it is written. -/

namespace ScriptHost

/-- A key of 128 bits. -/
structure ObjectId where
  bits : BitVec 128
  deriving DecidableEq, Hashable, Inhabited

/-- A text that spells no key. -/
structure ObjectId.ParseError where
  text : String
  deriving DecidableEq

def ObjectId.ParseError.message (e : ObjectId.ParseError) : String :=
  s!"invalid object id: '{e.text}'"

namespace ObjectId

/-- The all-zero key, by which scripts mean no object. -/
def nil : ObjectId := ⟨0⟩

def isNil (id : ObjectId) : Bool := id == nil

/-- The lengths of the groups of hexadecimal digits in a hyphenated key. -/
def groups : List Nat := [8, 4, 4, 4, 12]

/-- Digits cut into groups of the given lengths, with a hyphen between two groups. -/
def hyphenate : List Nat → List Char → List Char
  | [], _ => []
  | [n], ds => ds.take n
  | n :: ns, ds => ds.take n ++ '-' :: hyphenate ns (ds.drop n)

/-- The groups put together again, if exactly the hyphens between them are hyphens. -/
def joinGroups? : List Nat → List Char → Option (List Char)
  | [], cs => if cs.isEmpty then some [] else none
  | [n], cs => if cs.length == n then some cs else none
  | n :: ns, cs =>
    match cs.drop n with
    | '-' :: rest => (joinGroups? ns rest).map (cs.take n ++ ·)
    | _ => none

/-- The key that 32 hexadecimal digits spell. -/
def ofDigits? (ds : List Char) : Option ObjectId :=
  if ds.length == 32 then (Text.natOf? Text.hexDigit? 16 ds).map fun n => ⟨BitVec.ofNat 128 n⟩
  else none

/-- The key that a hyphenated spelling gives. -/
def ofHyphenated? (cs : List Char) : Option ObjectId := do ofDigits? (← joinGroups? groups cs)

/-- What may stand before a hyphenated key. -/
def urnLabels : List (List Char) := ["urn:uuid:".toList, "URN:UUID:".toList]

/-- A key in any of its spellings: 32 digits, or hyphenated groups, which may stand in braces or
after a resource label. -/
def parse? (s : String) : Option ObjectId :=
  let cs := s.toList
  match cs.length with
  | 32 => ofDigits? cs
  | 36 => ofHyphenated? cs
  | 38 =>
    match cs, cs.reverse.head? with
    | '\x7b' :: rest, some '\x7d' => ofHyphenated? (rest.take 36)
    | _, _ => none
  | 45 => if urnLabels.contains (cs.take 9) then ofHyphenated? (cs.drop 9) else none
  | _ => none

def parse (s : String) : Except ParseError ObjectId :=
  match parse? s with
  | some id => .ok id
  | none => .error ⟨s⟩

/-- A key with blanks around it; anything else is no key. -/
def parseLenient? (s : String) : Option ObjectId := parse? (Text.trim s)

/-- The lower-case hyphenated spelling. -/
protected def toString (id : ObjectId) : String :=
  String.ofList (hyphenate groups (Text.hexDigits 32 id.bits.toNat))

instance : ToString ObjectId := ⟨ObjectId.toString⟩

end ObjectId

end ScriptHost
