import ScriptHost.Proofs.Compile.Passages
import ScriptHost.Proofs.Slang.Cutting

/-! A Slang source read in step with what is made of it: first the directives go, then the elements
are written as Lua. What is no operator, no mark of a comment and no directive stays as it is,
character by character. -/

namespace ScriptHost.Compile.Slang

open Passage (same level_same)
open Text (breaks lines)

variable {e : Element} {es fs : List Element} {after before : Option Char} {cs : List Char}
  {a : Passage}

/-! ### Elements -/

/-- An element in the passages in which it is written. Of a comment between slashes, the marks at
both ends are. -/
def Element.passages (e : Element) (before after : Option Char) : List Passage :=
  match e with
  | word _ | notEqual | slashes => [⟨e.source, e.lua before after⟩]
  | block body =>
    let level := freeLevel body (body.length + 1) 0
    ⟨['/', '*'], '-' :: '-' :: opener level⟩ :: body.map same ++ [⟨['*', '/'], closer level⟩]
  | plain _ | quoted _ _ | note _ | bracket _ _ _ => e.source.map same

@[simp] theorem Element.sourceOf_passages (e : Element) (before after : Option Char) :
    sourceOf (e.passages before after) = e.source := by
  cases e <;> simp [passages, source]

@[simp] theorem Element.targetOf_passages (e : Element) (before after : Option Char) :
    targetOf (e.passages before after) = e.lua before after := by
  cases e <;> simp [passages, lua, source]

theorem not_mem_opener (level : Nat) : '\n' ∉ opener level := by simp [opener, equals]

theorem not_mem_closer (level : Nat) : '\n' ∉ closer level := by simp [closer, equals]

theorem WordOp.not_mem_sign (op : WordOp) : '\n' ∉ op.sign := by cases op <;> decide

theorem WordOp.not_mem_lua (op : WordOp) (before after : Option Char) :
    '\n' ∉ (Element.word op).lua before after := by
  rcases spaceBefore_cases before with hb | hb <;> rcases spaceAfter_cases after with ha | ha <;>
    cases op <;> simp [Element.lua, WordOp.word, hb, ha]

theorem Element.level_passages (h : a ∈ e.passages before after) : a.Level := by
  cases e with
  | word op =>
    obtain rfl := List.mem_singleton.1 h
    exact .inr ⟨op.not_mem_sign, op.not_mem_lua before after⟩
  | notEqual | slashes =>
    obtain rfl := List.mem_singleton.1 h
    exact .inr (by simp [source, lua])
  | block body =>
    simp only [passages, List.cons_append, List.mem_cons, List.mem_append, List.not_mem_nil,
      or_false] at h
    rcases h with rfl | h | rfl
    · exact .inr ⟨by simp, by simp [not_mem_opener]⟩
    · exact level_map_same h
    · exact .inr ⟨by simp, not_mem_closer _⟩
  | plain c => exact level_map_same h
  | quoted quote body => exact level_map_same h
  | note body => exact level_map_same h
  | bracket comment level body => exact level_map_same h

/-- Elements in the passages in which they are written. -/
def passages (after : Option Char) : (before : Option Char) → List Element → List Passage
  | _, [] => []
  | before, e :: es =>
    e.passages before ((firstChar? es).or after) ++
      passages after (e.lua before ((firstChar? es).or after)).getLast? es

@[simp] theorem sourceOf_passages (after before : Option Char) (es : List Element) :
    sourceOf (passages after before es) = es.flatMap Element.source := by
  induction es generalizing before with
  | nil => rfl
  | cons e es ih => simp [passages, ih]

@[simp] theorem targetOf_passages (after before : Option Char) (es : List Element) :
    targetOf (passages after before es) = written after before es := by
  induction es generalizing before with
  | nil => rfl
  | cons e es ih => simp [passages, written, ih]

theorem level_passages (h : a ∈ passages after before es) : a.Level := by
  induction es generalizing before with
  | nil => exact absurd h List.not_mem_nil
  | cons e es ih =>
    rcases List.mem_append.1 h with h | h
    · exact Element.level_passages h
    · exact ih h

/-- Between two elements, the reader has seen the elements before and what is written for them. -/
theorem meet_between (after before : Option Char) (es fs : List Element) :
    Meet (passages after before (es ++ fs)) (es.flatMap Element.source)
      (written ((firstChar? fs).or after) before es) := by
  induction es generalizing before with
  | nil => exact .start
  | cons e es ih =>
    rw [List.cons_append, passages, firstChar?_append]
    simpa [written] using (ih _).append (e.passages before _)

/-- The writer then holds what is written for the elements before. -/
theorem writeFrom_append (out : List Char) (es fs : List Element) :
    writeFrom out (es ++ fs) =
      writeFrom ((written (firstChar? fs) out.head? es).reverse ++ out) fs := by
  induction es generalizing out with
  | nil => rfl
  | cons e es ih =>
    have hfirst : firstChar? (es ++ fs) = (firstChar? es).or (firstChar? fs) := by
      simpa using firstChar?_append es fs none
    have hlast := List.getLast?_eq_some_getLast
      (lua_ne_nil e out.head? ((firstChar? es).or (firstChar? fs)))
    rw [List.cons_append, writeFrom, ih, written, hfirst]
    simp [List.head?_append, hlast]

/-- What is written for elements has the line breaks that they have. -/
theorem breaks_written (after before : Option Char) (es : List Element) :
    breaks (written after before es) = breaks (es.flatMap Element.source) := by
  have hend := meet_end (passages after before es)
  rw [sourceOf_passages, targetOf_passages] at hend
  exact (hend.breaks fun a ha => level_passages ha).symm

theorem newline_written (after before : Option Char) (es : List Element)
    (h : '\n' ∉ es.flatMap Element.source) : '\n' ∉ written after before es := by
  rw [← Text.breaks_eq_zero_iff] at h ⊢
  rw [breaks_written, h]

/-! ### Directives -/

/-- A line as a directive, of which nothing stays, or as it is. -/
def linePassages (l : List Char) : List Passage := if isPragma l then [⟨l, []⟩] else l.map same

/-- A source in the passages that stay and the directives between them. -/
def directives (cs : List Char) : List Passage := unlinesOf ((lines cs).map linePassages)

theorem sourceOf_linePassages (l : List Char) : sourceOf (linePassages l) = l := by
  unfold linePassages
  split <;> simp

theorem targetOf_linePassages (l : List Char) :
    targetOf (linePassages l) = if isPragma l then [] else l := by
  unfold linePassages
  split <;> simp

@[simp] theorem sourceOf_directives (cs : List Char) : sourceOf (directives cs) = cs := by
  have hlines : (lines cs).map (fun l => sourceOf (linePassages l)) = lines cs := by
    simp [sourceOf_linePassages]
  rw [directives, sourceOf_unlinesOf, List.map_map, Function.comp_def, hlines]
  exact Text.join_pieces '\n' cs

@[simp] theorem targetOf_directives (source : String) :
    targetOf (directives source.toList) = (preProcess source).toList := by
  rw [directives, targetOf_unlinesOf, List.map_map, Function.comp_def]
  simp only [targetOf_linePassages, preProcess, String.toList_ofList]

theorem level_directives (h : a ∈ directives cs) : a.Level := by
  refine level_unlinesOf (fun ps hps b hb => ?_) a h
  obtain ⟨l, hl, rfl⟩ := List.mem_map.1 hps
  unfold linePassages at hb
  split at hb
  · obtain rfl := List.mem_singleton.1 hb
    exact .inr ⟨Text.not_mem_of_mem_lines hl, List.not_mem_nil⟩
  · exact level_map_same hb

end ScriptHost.Compile.Slang
