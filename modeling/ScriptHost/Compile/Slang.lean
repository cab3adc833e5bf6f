import ScriptHost.Text.Blank
import ScriptHost.Text.Leading
import ScriptHost.Text.Lines

/-! Slang, which is Lua with the operators `!=`, `&&`, `||`, `!` and the comments `//` and `/* */`.
A source is cut into elements, and each element is written as Lua. Strings and Lua's own comments
are elements as a whole, so that nothing inside them is taken for an operator. Every element is
written with as many line breaks as it has, so lines keep their numbers. -/

namespace ScriptHost.Compile.Slang

/-! ### Elements -/

/-- The word operators of Lua that Slang writes with signs. -/
inductive WordOp
  | and
  | or
  | not
  deriving DecidableEq

def WordOp.sign : WordOp → List Char
  | and => ['&', '&']
  | or => ['|', '|']
  | not => ['!']

def WordOp.word : WordOp → List Char
  | and => ['a', 'n', 'd']
  | or => ['o', 'r']
  | not => ['n', 'o', 't']

/-- What a source is made of. -/
inductive Element
  /-- A character that stands for itself. -/
  | plain (c : Char)
  | word (op : WordOp)
  | notEqual
  /-- Two slashes, which open a comment. -/
  | slashes
  /-- A comment between `/*` and `*/`. -/
  | block (body : List Char)
  /-- A string between two quotes, its escapes as they are written. -/
  | quoted (quote : Char) (body : List Char)
  /-- A comment after two hyphens, up to the end of the line. -/
  | note (body : List Char)
  /-- A long bracket: a string, or a comment when two hyphens stand before it. -/
  | bracket (comment : Bool) (level : Nat) (body : List Char)
  deriving DecidableEq

def equals (level : Nat) : List Char := List.replicate level '='

/-- What ends a long bracket of a level. -/
def closer (level : Nat) : List Char := ']' :: equals level ++ [']']

/-- What begins a long bracket of a level. -/
def opener (level : Nat) : List Char := '[' :: equals level ++ ['[']

/-- The characters of an element in the source. -/
def Element.source : Element → List Char
  | plain c => [c]
  | word op => op.sign
  | notEqual => ['!', '=']
  | slashes => ['/', '/']
  | block body => '/' :: '*' :: body ++ ['*', '/']
  | quoted quote body => quote :: body ++ [quote]
  | note body => '-' :: '-' :: body
  | bracket comment level body =>
    (if comment then ['-', '-'] else []) ++ opener level ++ body ++ closer level

/-! ### Reading elements -/

/-- What a source may fail to end. -/
inductive Construct
  | quoted
  | block
  | bracket
  deriving DecidableEq

def Construct.message : Construct → String
  | quoted => "unterminated string literal"
  | block => "unterminated block comment"
  | bracket => "unterminated long string"

/-- The inside of a string up to its closing quote, in reverse, and what follows that quote. A line
break ends a string only behind a backslash. -/
def quotedBody (quote : Char) (body : List Char) : List Char → Option (List Char × List Char)
  | [] => none
  | c :: cs =>
    if c = '\n' then none
    else if c = '\\' then
      match cs with
      | [] => none
      | d :: ds => quotedBody quote (d :: c :: body) ds
    else if c = quote then some (body, cs)
    else quotedBody quote (c :: body) cs

/-- What stands before the first occurrence of `stop`, in reverse, and what follows it. -/
def upTo (stop body : List Char) : List Char → Option (List Char × List Char)
  | [] => (Text.after? stop []).map (body, ·)
  | c :: cs =>
    match Text.after? stop (c :: cs) with
    | some rest => some (body, rest)
    | none => upTo stop (c :: body) cs

/-- The level of the long bracket that begins here, and what follows its opening. -/
def bracketLevel? : List Char → Option (Nat × List Char)
  | '[' :: cs =>
    match cs.dropWhile (· == '=') with
    | '[' :: rest => some ((cs.takeWhile (· == '=')).length, rest)
    | _ => none
  | _ => none

/-- A long bracket, with `cs` right after its opening. -/
def bracketElement (comment : Bool) (level : Nat) (cs : List Char) :
    Except Construct (Element × List Char) :=
  match upTo (closer level) [] cs with
  | some (body, rest) => .ok (.bracket comment level body.reverse, rest)
  | none => .error (if comment then .block else .bracket)

/-- The first element of a source that starts with `c`, and the rest. -/
def nextElement (c : Char) (cs : List Char) : Except Construct (Element × List Char) :=
  if c = '"' ∨ c = '\'' then
    match quotedBody c [] cs with
    | some (body, rest) => .ok (.quoted c body.reverse, rest)
    | none => .error .quoted
  else
    match c, cs with
    | '/', '/' :: rest => .ok (.slashes, rest)
    | '/', '*' :: rest =>
      match upTo ['*', '/'] [] rest with
      | some (body, rest) => .ok (.block body.reverse, rest)
      | none => .error .block
    | '-', '-' :: rest =>
      match bracketLevel? rest with
      | some (level, inside) => bracketElement true level inside
      | none => .ok (.note (rest.takeWhile (· != '\n')), rest.dropWhile (· != '\n'))
    | '!', '=' :: rest => .ok (.notEqual, rest)
    | '&', '&' :: rest => .ok (.word .and, rest)
    | '|', '|' :: rest => .ok (.word .or, rest)
    | '!', rest => .ok (.word .not, rest)
    | '[', rest =>
      match bracketLevel? ('[' :: rest) with
      | some (level, inside) => bracketElement false level inside
      | none => .ok (.plain '[', rest)
    | c, rest => .ok (.plain c, rest)

/-! ### Nothing is lost -/

theorem quotedBody_eq {quote : Char} {body cs body' rest : List Char}
    (h : quotedBody quote body cs = some (body', rest)) :
    body'.reverse ++ quote :: rest = body.reverse ++ cs := by
  fun_induction quotedBody quote body cs with
  | case1 => cases h
  | case2 => cases h
  | case3 => cases h
  | case4 _ _ _ _ ih => rw [ih h]; simp
  | case5 => cases h; simp
  | case6 _ _ _ _ _ _ ih => rw [ih h]; simp

theorem upTo_eq {stop body cs body' rest : List Char} (h : upTo stop body cs = some (body', rest)) :
    body'.reverse ++ (stop ++ rest) = body.reverse ++ cs := by
  induction cs generalizing body with
  | nil =>
    obtain ⟨_, hr, h⟩ := Option.map_eq_some_iff.1 h
    cases h
    rw [Text.after?_eq_some_iff.1 hr]
  | cons c cs ih =>
    unfold upTo at h
    split at h
    · cases h
      rename_i hp
      rw [Text.after?_eq_some_iff.1 hp]
    · rw [ih h]; simp

theorem takeWhile_equals (cs : List Char) :
    cs.takeWhile (· == '=') = equals (cs.takeWhile (· == '=')).length := by
  induction cs with
  | nil => rfl
  | cons c cs ih =>
    by_cases hc : c = '='
    · subst hc
      simp only [List.takeWhile_cons, beq_self_eq_true, if_true, List.length_cons]
      rw [equals, List.replicate_succ, ← equals, ← ih]
    · simp [hc, equals]

theorem bracketLevel?_eq {cs : List Char} {level : Nat} {rest : List Char}
    (h : bracketLevel? cs = some (level, rest)) : cs = opener level ++ rest := by
  unfold bracketLevel? at h
  split at h
  · rename_i cs
    split at h
    · rename_i rest' hd
      cases h
      rw [opener, ← takeWhile_equals]
      conv => lhs; rw [← List.takeWhile_append_dropWhile (p := (· == '=')) (l := cs), hd]
      simp
    · cases h
  · cases h

theorem bracketElement_eq {comment : Bool} {level : Nat} {cs : List Char} {e : Element}
    {rest : List Char} (h : bracketElement comment level cs = .ok (e, rest)) :
    e.source ++ rest = (if comment then ['-', '-'] else []) ++ opener level ++ cs := by
  unfold bracketElement at h
  split at h
  · rename_i hu
    cases h
    have := upTo_eq hu
    simp [Element.source] at this ⊢
    exact this
  · cases h

/-- The first element and the rest make up the source. -/
theorem nextElement_eq {c : Char} {cs : List Char} {e : Element} {rest : List Char}
    (h : nextElement c cs = .ok (e, rest)) : e.source ++ rest = c :: cs := by
  unfold nextElement at h
  split at h
  · split at h
    · rename_i hq
      cases h
      have := quotedBody_eq hq
      simp [Element.source] at this ⊢
      exact this
    · cases h
  · split at h
    · cases h; rfl
    · split at h
      · rename_i hu
        cases h
        have := upTo_eq hu
        simp [Element.source] at this ⊢
        exact this
      · cases h
    · split at h
      · rename_i hb
        rw [bracketElement_eq h, bracketLevel?_eq hb]
        simp
      · cases h
        simp [Element.source, List.takeWhile_append_dropWhile]
    · cases h; rfl
    · cases h; rfl
    · cases h; rfl
    · cases h; rfl
    · split at h
      · rename_i hb
        rw [bracketElement_eq h, bracketLevel?_eq hb]
        simp
      · cases h; rfl
    · cases h; rfl

theorem source_ne_nil (e : Element) : e.source ≠ [] := by
  cases e with
  | word op => cases op <;> simp [Element.source, WordOp.sign]
  | _ => simp [Element.source, opener]

theorem nextElement_length {c : Char} {cs : List Char} {e : Element} {rest : List Char}
    (h : nextElement c cs = .ok (e, rest)) : rest.length < (c :: cs).length := by
  rw [← nextElement_eq h, List.length_append]
  have := List.length_pos_iff.2 (source_ne_nil e)
  omega

/-! ### Cutting a source -/

/-- The line breaks of a text, as they are counted: in 32 bits, around which the count wraps. -/
def breakCount (cs : List Char) : UInt32 := .ofNat (Text.breaks cs)

/-- The line behind a text. The first line has the number 1. -/
def lineBehind (cs : List Char) : UInt32 := 1 + breakCount cs

theorem breakCount_append (cs ds : List Char) : breakCount (cs ++ ds) = breakCount cs + breakCount ds := by
  rw [breakCount, Text.breaks_append, UInt32.ofNat_add]
  rfl

theorem lineBehind_append (cs ds : List Char) : lineBehind (cs ++ ds) = lineBehind cs + breakCount ds := by
  rw [lineBehind, breakCount_append, ← UInt32.add_assoc]
  rfl

/-- As long as the count has not wrapped around, it is the number of the line. -/
theorem toNat_lineBehind {cs : List Char} (h : Text.breaks cs + 1 < UInt32.size) :
    (lineBehind cs).toNat = 1 + Text.breaks cs := by
  have hcount : (breakCount cs).toNat = Text.breaks cs := UInt32.toNat_ofNat_of_lt' (Nat.lt_of_succ_lt h)
  rw [lineBehind, UInt32.toNat_add, hcount]
  exact Nat.mod_eq_of_lt (Nat.add_comm _ 1 ▸ h)

theorem toNat_lineBehind_of_prefix {p cs : List Char} (hp : p <+: cs)
    (h : Text.breaks cs + 1 < UInt32.size) : (lineBehind p).toNat = 1 + Text.breaks p :=
  toNat_lineBehind (Nat.lt_of_le_of_lt (Nat.succ_le_succ (hp.sublist.count_le _)) h)

/-- A construct that has no end, and the line on which it begins. -/
structure Unterminated where
  construct : Construct
  line : UInt32
  deriving DecidableEq

/-- The elements of the source from a point on the given line on; `done` holds those before it, in
reverse. -/
def elementsFrom (done : List Element) (line : UInt32) (cs : List Char) :
    Except Unterminated (List Element) :=
  match cs with
  | [] => .ok done.reverse
  | c :: cs =>
    match _h : nextElement c cs with
    | .error construct => .error ⟨construct, line⟩
    | .ok (e, rest) => elementsFrom (e :: done) (line + breakCount e.source) rest
termination_by cs.length
decreasing_by exact nextElement_length ‹_›

/-- The elements of a source. -/
def elements (cs : List Char) : Except Unterminated (List Element) := elementsFrom [] 1 cs

/-! ### Writing Lua -/

/-- The least level from `level` on whose closing bracket does not occur in a body. -/
def freeLevel (body : List Char) : (fuel : Nat) → (level : Nat) → Nat
  | 0, level => level
  | fuel + 1, level =>
    if (upTo (closer level) [] body).isSome then freeLevel body fuel (level + 1) else level

/-- A space where a word would touch what stands before it. -/
def spaceBefore : Option Char → List Char
  | some c => if Text.isBlank c || c == '(' then [] else [' ']
  | none => []

/-- A space where a word would touch what follows it. -/
def spaceAfter : Option Char → List Char
  | some c => if Text.isBlank c || c == ')' then [] else [' ']
  | none => []

/-- An element written as Lua, between the character written last and the one that comes next in the
source. -/
def Element.lua (e : Element) (before after : Option Char) : List Char :=
  match e with
  | plain c => [c]
  | word op => spaceBefore before ++ op.word ++ spaceAfter after
  | notEqual => ['~', '=']
  | slashes => ['-', '-']
  | block body =>
    let level := freeLevel body (body.length + 1) 0
    '-' :: '-' :: opener level ++ body ++ closer level
  | quoted _ _ | note _ | bracket _ _ _ => e.source

/-- The character with which elements begin. -/
def firstChar? : List Element → Option Char
  | [] => none
  | e :: _ => e.source.head?

/-- Elements written after `out`, which is in reverse. -/
def writeFrom (out : List Char) : List Element → List Char
  | [] => out.reverse
  | e :: es => writeFrom ((e.lua out.head? (firstChar? es)).reverse ++ out) es

/-- A source in Lua. -/
def convert (source : String) : Except Unterminated String :=
  (elements source.toList).map fun es => String.ofList (writeFrom [] es)

/-! ### Directives -/

/-- Whether a line is a directive, which has no meaning in Lua. -/
def isPragma (line : List Char) : Bool :=
  "#pragma".toList.isPrefixOf (line.dropWhile Text.isBlank)

/-- The source with each directive replaced by an empty line. -/
def preProcess (source : String) : String :=
  String.ofList (Text.unlines ((Text.lines source.toList).map fun l => if isPragma l then [] else l))

end ScriptHost.Compile.Slang
