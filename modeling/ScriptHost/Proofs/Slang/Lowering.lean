import ScriptHost.Lua.Lexer
import ScriptHost.Proofs.Slang.Cutting

/-! A source beside its translation. The two are read in step: they have the same characters but for
the operators of Slang, and where an operator becomes a word, a space keeps it away from any
character that could make another token of it. -/

namespace ScriptHost.Compile.Slang

open Lua.Lexer (isBreak)

/-! ### Operators -/

/-- The operators that Lua does not have, or spells in another way. -/
inductive Operator
  | notEqual
  | word (op : WordOp)
  deriving DecidableEq

def Operator.element : Operator → Element
  | notEqual => .notEqual
  | word op => .word op

/-- An operator in the source. -/
def Operator.sign (op : Operator) : List Char := op.element.source

/-- An operator in the translation. -/
def Operator.lua (op : Operator) (before after : Option Char) : List Char :=
  op.element.lua before after

/-- A text and what it is translated to, behind the character that was written last. -/
inductive Lowers : (before : Option Char) → (cs out : List Char) → Prop
  | nil {before : Option Char} : Lowers before [] []
  | plain {before : Option Char} {c : Char} {cs out : List Char} : Stands c cs →
      Lowers (some c) cs out → Lowers before (c :: cs) (c :: out)
  | operator {before last : Option Char} {cs out : List Char} (op : Operator) :
      (op = .word .not → cs.head? ≠ some '=') → Lowers last cs out →
      Lowers before (op.sign ++ cs) (op.lua before cs.head? ++ out)
  | quoted {before last : Option Char} {quote : Char} {body cs out : List Char} :
      quote = '"' ∨ quote = '\'' → Quotable quote body → Lowers last cs out →
      Lowers before (quote :: (body ++ quote :: cs)) (quote :: (body ++ quote :: out))
  | note {before last : Option Char} {body cs out : List Char} : bracketLevel? (body ++ cs) = none →
      body.any isBreak = false → (∀ c ∈ cs.head?, isBreak c = true) → Lowers last cs out →
      Lowers before ('-' :: '-' :: (body ++ cs)) ('-' :: '-' :: (body ++ out))
  | comment {before last : Option Char} {level : Nat} {body cs out : List Char} :
      FreeOf (closer level) body → Lowers last cs out →
      Lowers before ('-' :: '-' :: (opener level ++ (body ++ (closer level ++ cs))))
        ('-' :: '-' :: (opener level ++ (body ++ (closer level ++ out))))
  | string {before last : Option Char} {level : Nat} {body cs out : List Char} :
      FreeOf (closer level) body → Lowers last cs out →
      Lowers before (opener level ++ (body ++ (closer level ++ cs)))
        (opener level ++ (body ++ (closer level ++ out)))

variable {cs rest out : List Char} {es fs : List Element} {before : Option Char}

theorem Lowers.nil_left (h : Lowers before [] out) : out = [] := by
  generalize hcs : ([] : List Char) = cs at h
  cases h with
  | nil => rfl
  | operator op => cases op with
    | notEqual => cases hcs
    | word op => cases op <;> cases hcs
  | _ => cases hcs

/-- Characters other than the marks stand for themselves. -/
theorem Lowers.uncons {c : Char} (h : Lowers before (c :: cs) out) (hc : c ∉ marks) :
    ∃ out', out = c :: out' ∧ Lowers (some c) cs out' := by
  generalize htext : c :: cs = text at h
  cases h with
  | nil => cases htext
  | plain _ hrest =>
    cases htext
    exact ⟨_, rfl, hrest⟩
  | operator op =>
    refine absurd ?_ hc
    cases op with
    | notEqual => cases htext; decide
    | word op => cases op <;> cases htext <;> decide
  | quoted hq =>
    cases htext
    rcases hq with rfl | rfl <;> exact absurd (by decide) hc
  | _ =>
    cases htext
    exact absurd (by decide) hc

/-- What follows a line does not depend on how the line ends. -/
theorem Lowers.of_lineEnd {before' : Option Char} (h : Lowers before cs out) (hcs : LineEnd cs) :
    Lowers before' cs out := by
  rcases hcs with rfl | ⟨tail, rfl⟩
  · obtain rfl := h.nil_left
    exact .nil
  · obtain ⟨out, rfl, htail⟩ := h.uncons (by decide)
    exact .plain (.of_not_mem (by decide) tail) htail

/-! ### Cuts -/

/-- Elements that are Lua as they stand. A comment after two hyphens ends for Lua at any line break,
while a carriage return ends no line of Slang. So what Lua reads of it from there on has to be Lua
as it stands too. -/
inductive Element.Steady : Element → Prop
  | plain (c : Char) : Steady (.plain c)
  | quoted (quote : Char) (body : List Char) : Steady (.quoted quote body)
  | bracket (comment : Bool) (level : Nat) (body : List Char) : Steady (.bracket comment level body)
  | note {body : List Char} {fs : List Element} :
      elements (body.dropWhile fun c => !isBreak c) = .ok fs → (∀ f ∈ fs, Steady f) →
      Steady (.note body)

/-- Elements whose translation has the same tokens: operators, and what is Lua as it stands. -/
def Element.Faithful : Element → Prop
  | word _ | notEqual => True
  | e => e.Steady

theorem Cuts.firstChar?_eq (h : Cuts cs es []) : firstChar? es = cs.head? := by
  have hsource := h.source_append
  cases h with
  | nil => rfl
  | @cons _ mid _ e es hb _ =>
    obtain ⟨c, tail, hc⟩ := List.exists_cons_of_ne_nil (source_ne_nil e)
    rw [← hb.source_append]
    simp [firstChar?, hc]

theorem LineEnd.isBreak (h : LineEnd cs) : ∀ c ∈ cs.head?, isBreak c = true := by
  rcases h with rfl | ⟨tail, rfl⟩ <;> simp [Lua.Lexer.isBreak]

/-- In front of a text and its translation, the element is translated to itself. -/
def Element.Kept (e : Element) : Prop :=
  ∀ {cs rest out : List Char} {before : Option Char}, Begins cs e rest →
    Lowers e.source.getLast? rest out → Lowers before cs (e.source ++ out)

theorem Cuts.lowers_kept (h : Cuts cs fs rest) (hf : ∀ f ∈ fs, f.Kept)
    (hrest : ∀ before, Lowers before rest out) (before : Option Char) :
    Lowers before cs (fs.flatMap Element.source ++ out) := by
  induction h generalizing before with
  | nil => exact hrest before
  | cons hb _ ih =>
    rw [List.forall_mem_cons] at hf
    rw [List.flatMap_cons, List.append_assoc]
    exact hf.1 hb (ih hf.2 hrest _)

theorem kept_note {body : List Char} (hfs : elements (body.dropWhile fun c => !isBreak c) = .ok fs)
    (hf : ∀ f ∈ fs, f.Kept) : Element.Kept (.note body) := by
  intro cs rest out before hb hrest
  obtain ⟨hl, hr⟩ : bracketLevel? (body ++ rest) = none ∧ LineEnd rest := by
    cases hb with
    | note hl _ hr => exact ⟨hl, hr⟩
  obtain rfl := hb.source_append
  have hover := elements_eq_ok_iff.1 hfs
  have hbody := List.takeWhile_append_dropWhile (p := fun c => !isBreak c) (l := body)
  have hsource : fs.flatMap Element.source = body.dropWhile fun c => !isBreak c := by
    simpa using hover.source_append
  have hmid := (hover.append (.inr hr)).lowers_kept hf (fun _ => hrest.of_lineEnd hr) none
  rw [hsource] at hmid
  simp only [Element.source, List.cons_append]
  rw [← hbody, List.append_assoc, List.append_assoc]
  refine .note ?_ ?_ ?_ hmid
  · rwa [← List.append_assoc, hbody]
  · exact List.any_eq_false.2 fun c hc => by
      simpa using List.all_eq_true.1 List.all_takeWhile c hc
  · have hhead := List.head?_dropWhile_not (fun c => !isBreak c) body
    cases hdrop : body.dropWhile fun c => !isBreak c with
    | nil => simpa using hr.isBreak
    | cons c tail => simpa [hdrop] using hhead

theorem Element.Steady.kept {e : Element} (h : e.Steady) : e.Kept := by
  induction h with
  | note hfs _ ih => exact kept_note hfs ih
  | plain c =>
    intro cs rest out before hb hrest
    cases hb with
    | plain hs => exact .plain hs hrest
  | quoted quote body =>
    intro cs rest out before hb hrest
    cases hb with
    | quoted hq hi => simpa [Element.source] using Lowers.quoted hq hi hrest
  | bracket comment level body =>
    intro cs rest out before hb hrest
    cases hb with
    | comment hfree => simpa [Element.source] using Lowers.comment hfree hrest
    | string hfree => simpa [Element.source] using Lowers.string hfree hrest

theorem Element.Steady.lua_eq {e : Element} (h : e.Steady) (before after : Option Char) :
    e.lua before after = e.source := by
  cases h <;> rfl

theorem Cuts.lowers (h : Cuts cs es []) (hes : ∀ e ∈ es, e.Faithful) (before : Option Char) :
    Lowers before cs (written none before es) := by
  generalize hend : ([] : List Char) = rest at h
  induction h generalizing before with
  | nil =>
    subst hend
    exact .nil
  | @cons cs mid rest e es hb hcut ih =>
    subst hend
    rw [List.forall_mem_cons] at hes
    have hmid (before : Option Char) := ih hes.2 before rfl
    have hnext : (firstChar? es).or none = mid.head? := by
      rw [Option.or_none, hcut.firstChar?_eq]
    have hkept (hsteady : e.Steady) : Lowers before cs (written none before (e :: es)) := by
      rw [written, hsteady.lua_eq]
      exact hsteady.kept hb (hmid _)
    rw [written, hnext] at hkept ⊢
    cases hb with
    | and => exact .operator (.word .and) (by simp) (hmid _)
    | or => exact .operator (.word .or) (by simp) (hmid _)
    | not hne => exact .operator (.word .not) (fun _ => hne) (hmid _)
    | notEqual => exact .operator .notEqual (by simp) (hmid _)
    | slashes | block => cases hes.1
    | _ => exact hkept hes.1

end ScriptHost.Compile.Slang
