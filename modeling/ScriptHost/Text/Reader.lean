import ScriptHost.Text.Leading

/-! Readers, which take a value off the front of a text or fail. -/

namespace ScriptHost.Text

abbrev Reader := StateT (List Char) Option

namespace Reader

variable {α σ : Type}

/-- The next character, which stays. -/
def peek : Reader (Option Char) := return (← get).head?

/-- Takes a given character off. -/
def eat (c : Char) : Reader Unit := do
  match ← get with
  | d :: rest => if c = d then set rest else failure
  | [] => failure

/-- Takes given characters off, if they are next. -/
def tryEat (lead : String) : Reader Bool := do
  match after? lead.toList (← get) with
  | some rest => set rest; return true
  | none => return false

/-- The characters up to one that does not satisfy a condition. -/
def takeWhile (p : Char → Bool) : Reader (List Char) := do
  let cs ← get
  set (cs.dropWhile p)
  return cs.takeWhile p

def skipWhile (p : Char → Bool) : Reader Unit := modify (·.dropWhile p)

/-- A reader from a function on characters. -/
def ofFunction (f : List Char → Option (α × List Char)) : Reader α := f

/-- Repeats a step at most `bound` times, until it says what the result is. -/
def repeatUpTo (step : σ → Reader (σ ⊕ α)) : (bound : Nat) → σ → Reader α
  | 0, _ => failure
  | bound + 1, s => do
    match ← step s with
    | .inl s => repeatUpTo step bound s
    | .inr a => return a

/-- Repeats a step, of which all but the last have to take something off. -/
def loop (step : σ → Reader (σ ⊕ α)) (start : σ) : Reader α := do
  repeatUpTo step ((← get).length + 1) start

/-- What a text stands for, if a reader takes all of it. -/
def readAll? (r : Reader α) (cs : List Char) : Option α :=
  match r.run cs with
  | some (a, []) => some a
  | _ => none

end Reader

end ScriptHost.Text
