import Mathlib.Data.List.Infix
import ScriptHost.Proofs.Slang.Cutting

/-! A translator that goes over a source with one cursor. Each of its loops is a stage of its own and each
step is one round of one of them, so it can be said what a round consumes. The cursor counts the
characters and the lines that it has consumed and looks ahead only where there are characters. -/

namespace ScriptHost.Compile.Slang

open Text (breaks)

/-- A place in a text: how many characters are consumed, the line that it is on, and what is written so
far, in reverse. -/
structure Cursor where
  text : List Char
  pos : Nat
  line : UInt32
  out : List Char

namespace Cursor

/-! ### Moves -/

/-- The character a number of places ahead, if the text goes that far. -/
def peek (c : Cursor) (offset : Nat) : Option Char := c.text[c.pos + offset]?

/-- Consumes a character. -/
def bump (c : Cursor) : Option (Char × Cursor) :=
  match c.text[c.pos]? with
  | none => none
  | some x =>
    some (x, { c with pos := c.pos + 1, line := if x = '\n' then c.line + 1 else c.line })

/-- Passes characters that have been looked at and are no line breaks. -/
def skip (c : Cursor) (n : Nat) : Cursor := { c with pos := c.pos + n }

def write (c : Cursor) (cs : List Char) : Cursor := { c with out := cs.reverse ++ c.out }

/-- Consumes a character, if there is one, and writes it. -/
def copy (c : Cursor) : Cursor :=
  match c.bump with
  | none => c
  | some (x, d) => d.write [x]

/-- Copies a number of characters, one by one. -/
def copies (c : Cursor) : Nat → Cursor
  | 0 => c
  | n + 1 => c.copy.copies n

/-- Writes a word, with a space on each side where it would touch its neighbour. -/
def word (c : Cursor) (w : List Char) : Cursor :=
  let c := if c.out.head?.any fun x => !Text.isBlank x && x != '(' then c.write [' '] else c
  let c := c.write w
  if (c.peek 0).any fun x => !Text.isBlank x && x != ')' then c.write [' '] else c

/-- How many equals signs stand ahead, when so many are known to. -/
def equalsAhead (c : Cursor) (level : Nat) : Nat :=
  if h : c.peek (1 + level) = some '=' then c.equalsAhead (level + 1) else level
termination_by c.text.length - (c.pos + level)
decreasing_by
  obtain ⟨hlt, -⟩ := List.getElem?_eq_some_iff.1 h
  omega

/-- Copies what opens a long bracket, if one begins here, and says its level. -/
def openBracket (c : Cursor) : Option Nat × Cursor :=
  if c.peek 0 = some '[' then
    let level := c.equalsAhead 0
    if c.peek (1 + level) = some '[' then (some level, c.copies (level + 2)) else (none, c)
  else (none, c)

end Cursor

/-! ### Stages -/

/-- The loop that the translator is in. -/
inductive Stage
  /-- Between two elements. -/
  | between
  /-- In a string that begins on a line. -/
  | quoted (quote : Char) (start : UInt32)
  /-- In a comment between slashes; `body` is what it has so far, in reverse. -/
  | block (start : UInt32) (body : List Char)
  /-- Looking for a level whose closing bracket does not occur in a comment. -/
  | level (body : List Char) (n : Nat)
  /-- In a comment up to the end of the line. -/
  | note
  /-- In a long bracket: a string or a comment. -/
  | bracket (comment : Bool) (start : UInt32) (level : Nat)

/-- What a step comes to. -/
inductive Outcome
  | next (stage : Stage) (c : Cursor)
  | ended (result : Except Unterminated (List Char))
  /-- The rest of the text is asked for behind its end. -/
  | overrun

namespace Cursor

/-- A step between two elements: to the end of the element, or into the loop that reads it. -/
def dispatch (c : Cursor) : Outcome :=
  match c.peek 0 with
  | none => .ended (.ok c.out.reverse)
  | some x =>
    match x, c.peek 1 with
    | '"', _ => .next (.quoted '"' c.line) c.copy
    | '\'', _ => .next (.quoted '\'' c.line) c.copy
    | '/', some '/' => .next .between ((c.skip 2).write ['-', '-'])
    | '/', some '*' => .next (.block c.line []) (c.skip 2)
    | '-', some '-' =>
      match ((c.skip 2).write ['-', '-']).openBracket with
      | (some level, d) => .next (.bracket true c.line level) d
      | (none, d) => .next .note d
    | '[', some '[' | '[', some '=' =>
      match c.openBracket with
      | (some level, d) => .next (.bracket false c.line level) d
      | (none, d) => .next .between d.copy
    | '!', some '=' => .next .between ((c.skip 2).write ['~', '='])
    | '&', some '&' => .next .between ((c.skip 2).word WordOp.and.word)
    | '|', some '|' => .next .between ((c.skip 2).word WordOp.or.word)
    | '!', _ => .next .between ((c.skip 1).word WordOp.not.word)
    | _, _ => .next .between c.copy

def step (c : Cursor) : Stage → Outcome
  | .between => c.dispatch
  | .quoted quote start =>
    match c.bump with
    | none => .ended (.error ⟨.quoted, start⟩)
    | some (x, d) =>
      if x = '\n' then .ended (.error ⟨.quoted, start⟩)
      else if x = '\\' then
        match (d.write ['\\']).bump with
        | none => .ended (.error ⟨.quoted, start⟩)
        | some (y, e) => .next (.quoted quote start) (e.write [y])
      else if x = quote then .next .between (d.write [x])
      else .next (.quoted quote start) (d.write [x])
  | .block start body =>
    match c.peek 0, c.peek 1 with
    | some '*', some '/' => .next (.level body.reverse 0) (c.skip 2)
    | some _, _ =>
      match c.bump with
      | none => .next (.block start body) c
      | some (x, d) => .next (.block start (x :: body)) d
    | none, _ => .ended (.error ⟨.block, start⟩)
  | .level body n =>
    if closer n <:+: body then .next (.level body (n + 1)) c
    else .next .between (c.write ('-' :: '-' :: opener n ++ body ++ closer n))
  | .note =>
    match c.peek 0 with
    | none => .next .between c
    | some x => if x = '\n' then .next .between c else .next .note c.copy
  | .bracket comment start level =>
    if c.pos ≤ c.text.length then
      if closer level <+: c.text.drop c.pos then
        .next .between ((c.write (closer level)).skip (closer level).length)
      else
        match c.bump with
        | none => .ended (.error ⟨if comment then .block else .bracket, start⟩)
        | some (x, d) => .next (.bracket comment start level) (d.write [x])
    else .overrun

end Cursor

namespace Outcome

/-- A number of steps, or as many as there are. -/
def steps : Nat → Outcome → Outcome
  | 0, o => o
  | n + 1, .next stage c => (c.step stage).steps n
  | _ + 1, o => o

/-- Before a source. -/
def start (source : List Char) : Outcome := .next .between ⟨source, 0, 1, []⟩

end Outcome

/-! ### What a move consumes -/

namespace Cursor

variable {c d e : Cursor} {lead more cs : List Char} {x : Char} {level : Nat}

/-- What is not consumed yet. -/
def rest (c : Cursor) : List Char := c.text.drop c.pos

/-- From a place to a later one, with the characters between them consumed. -/
structure Eats (c : Cursor) (lead : List Char) (d : Cursor) : Prop where
  text : d.text = c.text
  rest : c.rest = lead ++ d.rest
  pos : d.pos = c.pos + lead.length
  line : d.line = c.line + breakCount lead

theorem Eats.refl (c : Cursor) : c.Eats [] c := ⟨rfl, rfl, rfl, (UInt32.add_zero c.line).symm⟩

theorem Eats.trans (h : c.Eats lead d) (h' : d.Eats more e) : c.Eats (lead ++ more) e where
  text := h'.text.trans h.text
  rest := by rw [h.rest, h'.rest, List.append_assoc]
  pos := by rw [h'.pos, h.pos, List.length_append, Nat.add_assoc]
  line := by rw [h'.line, h.line, breakCount_append, UInt32.add_assoc]

theorem Eats.write (h : c.Eats lead d) (cs : List Char) : c.Eats lead (d.write cs) :=
  ⟨h.text, h.rest, h.pos, h.line⟩

theorem peek_eq (c : Cursor) (offset : Nat) : c.peek offset = c.rest[offset]? :=
  List.getElem?_drop.symm

theorem peek_of_drop {offset : Nat} (h : c.rest.drop offset = cs) : c.peek offset = cs.head? := by
  rw [peek_eq, ← h, List.head?_drop]

theorem peek_zero (c : Cursor) : c.peek 0 = c.rest.head? := peek_of_drop rfl

theorem drop_of_rest (lead : List Char) (h : c.rest = lead ++ cs) : c.text.drop (c.pos + lead.length) = cs := by
  rw [← List.drop_drop, ← rest, h, List.drop_left]

theorem bump_of_rest (h : c.rest = x :: cs) : ∃ d, c.bump = some (x, d) ∧ c.Eats [x] d ∧
    d.rest = cs ∧ d.out = c.out := by
  have hx : c.text[c.pos]? = some x := c.peek_zero.trans (congrArg List.head? h)
  have hcs : c.text.drop (c.pos + 1) = cs := drop_of_rest [x] h
  unfold bump
  rw [hx]
  refine ⟨_, rfl, ⟨rfl, ?_, rfl, ?_⟩, hcs, rfl⟩
  · rw [h]
    exact congrArg _ hcs.symm
  · by_cases hbreak : x = '\n' <;> simp [breakCount, breaks, hbreak]

theorem bump_of_end (h : c.rest = []) : c.bump = none := by
  have hend : c.text[c.pos]? = none := c.peek_zero.trans (congrArg List.head? h)
  unfold bump
  rw [hend]

theorem copy_of_rest (h : c.rest = x :: cs) :
    c.Eats [x] c.copy ∧ c.copy.rest = cs ∧ c.copy.out = x :: c.out := by
  obtain ⟨d, hd, heats, hrest, hout⟩ := bump_of_rest h
  unfold copy
  rw [hd]
  exact ⟨heats.write [x], hrest, by rw [← hout]; rfl⟩

/-- The characters of a lead without line breaks may be passed at once. -/
theorem skip_of_rest (lead : List Char) (h : c.rest = lead ++ cs) (hlead : '\n' ∉ lead) :
    c.Eats lead (c.skip lead.length) ∧ (c.skip lead.length).rest = cs := by
  have hcs : (c.skip lead.length).rest = cs := drop_of_rest lead h
  refine ⟨⟨rfl, by rw [hcs, h], rfl, ?_⟩, hcs⟩
  rw [breakCount, Text.breaks_eq_zero_iff.2 hlead]
  exact (UInt32.add_zero c.line).symm

theorem skip_two {y : Char} (h : c.rest = x :: y :: cs) (hx : '\n' ≠ x) (hy : '\n' ≠ y) :
    c.Eats [x, y] (c.skip 2) ∧ (c.skip 2).rest = cs :=
  skip_of_rest [x, y] h (by simp [hx, hy])

theorem copies_of_rest (h : c.rest = lead ++ cs) : c.Eats lead (c.copies lead.length) ∧
    (c.copies lead.length).rest = cs ∧ (c.copies lead.length).out = lead.reverse ++ c.out := by
  induction lead generalizing c with
  | nil => exact ⟨Eats.refl c, h, rfl⟩
  | cons x lead ih =>
    obtain ⟨heats, hrest, hout⟩ := copy_of_rest h
    obtain ⟨hmore, hrest', hout'⟩ := ih hrest
    refine ⟨heats.trans hmore, hrest', ?_⟩
    rw [List.length_cons, copies, hout', hout]
    simp

@[simp] theorem write_text (c : Cursor) (cs : List Char) : (c.write cs).text = c.text := rfl

@[simp] theorem write_rest (c : Cursor) (cs : List Char) : (c.write cs).rest = c.rest := rfl

@[simp] theorem write_out (c : Cursor) (cs : List Char) : (c.write cs).out = cs.reverse ++ c.out := rfl

@[simp] theorem write_nil (c : Cursor) : c.write [] = c := rfl

theorem write_write (c : Cursor) (cs ds : List Char) : (c.write cs).write ds = c.write (cs ++ ds) := by
  simp [write]

theorem word_eq (c : Cursor) (w : List Char) :
    c.word w = c.write (spaceBefore c.out.head? ++ w ++ spaceAfter c.rest.head?) := by
  have hbefore : (if c.out.head?.any fun x => !Text.isBlank x && x != '(' then c.write [' '] else c) =
      c.write (spaceBefore c.out.head?) := by
    cases c.out.head? with
    | none => rfl
    | some x => cases hx : Text.isBlank x <;> by_cases hp : x = '(' <;> simp [spaceBefore, hx, hp]
  have hafter (d : Cursor) : (if (d.peek 0).any fun x => !Text.isBlank x && x != ')' then
      d.write [' '] else d) = d.write (spaceAfter (d.peek 0)) := by
    cases d.peek 0 with
    | none => rfl
    | some x => cases hx : Text.isBlank x <;> by_cases hp : x = ')' <;> simp [spaceAfter, hx, hp]
  unfold word
  rw [hbefore]
  refine (hafter _).trans ?_
  rw [write_write, write_write, ← c.peek_zero, List.append_assoc]
  rfl

theorem equalsAhead_eq (h : c.rest.drop (1 + level) = cs) :
    c.equalsAhead level = level + (cs.takeWhile (· == '=')).length := by
  induction cs generalizing level with
  | nil =>
    rw [equalsAhead, dif_neg]
    · rfl
    · rw [peek_of_drop h]
      exact nofun
  | cons y cs ih =>
    rw [equalsAhead, peek_of_drop h]
    by_cases hy : y = '='
    · have htail : c.rest.drop (1 + (level + 1)) = cs := by
        rw [← Nat.add_assoc, ← List.drop_drop, h]
        rfl
      simp only [hy, List.head?_cons, dite_true]
      rw [ih htail]
      simp
      omega
    · simp [hy]

theorem openBracket_of_some (h : bracketLevel? c.rest = some (level, cs)) :
    ∃ d, c.openBracket = (some level, d) ∧ c.Eats (opener level) d ∧ d.rest = cs ∧
      d.out = (opener level).reverse ++ c.out := by
  have hrest := bracketLevel?_eq h
  have hlength : (opener level).length = level + 2 := by simp [opener, equals]
  have hinside : c.rest.drop 1 = equals level ++ '[' :: cs := by
    rw [hrest]
    simp [opener]
  have hlevel : c.equalsAhead 0 = level := by
    rw [equalsAhead_eq hinside, List.takeWhile_append_of_pos (by simp [equals])]
    simp [equals]
  have hclose : c.peek (1 + level) = some '[' := by
    have hlast : c.rest.drop (1 + level) = '[' :: cs := by
      rw [← List.drop_drop, hinside]
      simp [equals]
    rw [peek_of_drop hlast]
    rfl
  have hopen : c.peek 0 = some '[' := by
    rw [peek_eq, hrest]
    rfl
  obtain ⟨heats, htail, hout⟩ := copies_of_rest hrest
  rw [hlength] at heats htail hout
  refine ⟨_, ?_, heats, htail, hout⟩
  simp only [openBracket, hopen, hlevel, hclose, if_true]

theorem openBracket_of_none (h : bracketLevel? c.rest = none) : c.openBracket = (none, c) := by
  unfold openBracket
  split
  · rename_i hopen
    rw [peek_eq, ← List.head?_eq_getElem?] at hopen
    obtain ⟨inside, hrest⟩ := List.head?_eq_some_iff.1 hopen
    have hinside : c.rest.drop 1 = inside := by
      rw [hrest]
      rfl
    have hsplit := List.takeWhile_append_dropWhile (p := (· == '=')) (l := inside)
    have hahead : c.rest.drop (1 + c.equalsAhead 0) = inside.dropWhile (· == '=') := by
      rw [equalsAhead_eq hinside, Nat.zero_add, ← List.drop_drop, hinside]
      conv => lhs; arg 2; rw [← hsplit]
      exact List.drop_left
    rw [hrest, bracketLevel?_eq_none_iff, ← peek_of_drop hahead] at h
    exact if_neg h
  · rfl

end Cursor

end ScriptHost.Compile.Slang
