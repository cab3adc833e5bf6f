import Mathlib.Data.List.TakeWhile
import ScriptHost.Compile.LuaBackend
import ScriptHost.Proofs.Lua.Decoding

/-! What an author sees of a syntax error. Lua's text begins with the name of the chunk, and the line and the
message are found in it by the first digits between two colons. A name that has such a mark of its own, or
that ends in what the colon after it completes to one, is taken for the place of the error, and a name
with a line break hides the rest of the text. With any other name the line and the message are those of the
parser, and the name leaves no trace. -/

namespace ScriptHost.Text

/-! ### First lines -/

theorem firstLine_eq_self {s : String} (hs : '\n' ∉ s.toList) : firstLine s = s := by
  have hall : ∀ c ∈ s.toList, (c != '\n') = true := fun c hc => bne_iff_ne.2 fun h => hs (h ▸ hc)
  have hdrop : s.toList.dropWhile (· != '\n') = [] := List.dropWhile_eq_nil_iff.2 hall
  have htake : s.toList.takeWhile (· != '\n') = s.toList := List.takeWhile_eq_self_iff.2 hall
  simp only [firstLine, splitFirst, hdrop, htake, String.ofList_toList]

/-- What stands before the first line break is on the first line. -/
theorem firstLine_append {a : String} {c : Char} {cs : List Char} (ha : '\n' ∉ a.toList)
    (hend : a.toList.reverse = c :: cs) (hc : c ≠ '\r') (b : String) : firstLine (a ++ b) = a ++ firstLine b := by
  have hall : ∀ c ∈ a.toList, (c != '\n') = true := fun c hc => bne_iff_ne.2 fun h => ha (h ▸ hc)
  have hdrop : (a ++ b).toList.dropWhile (· != '\n') = b.toList.dropWhile (· != '\n') := by
    rw [String.toList_append, List.dropWhile_append_of_pos hall]
  have htake : (a ++ b).toList.takeWhile (· != '\n') = a.toList ++ b.toList.takeWhile (· != '\n') := by
    rw [String.toList_append, List.takeWhile_append_of_pos hall]
  simp only [firstLine, splitFirst, hdrop, htake]
  cases b.toList.dropWhile (· != '\n') with
  | nil => simp only [String.ofList_append, String.ofList_toList]
  | cons d ds =>
    simp only [String.toList_ofList, List.reverse_append, hend]
    cases (b.toList.takeWhile (· != '\n')).reverse with
    | nil => simp [hc]
    | cons x xs =>
      by_cases hx : x = '\r'
      · simp [hx, ← hend]
      · simp [hx]

/-- What stands after a line break is not on the first line. -/
theorem firstLine_append_of_mem {a : String} (ha : '\n' ∈ a.toList) (b : String) :
    firstLine (a ++ b) = firstLine a := by
  obtain ⟨line, rest, ha, hline⟩ := List.eq_append_cons_of_mem ha
  have hall : ∀ c ∈ line, (c != '\n') = true := fun c hc => bne_iff_ne.2 fun h => hline (h ▸ hc)
  have hdrop : ∀ r, (line ++ '\n' :: r).dropWhile (· != '\n') = '\n' :: r := fun r => by
    rw [List.dropWhile_append_of_pos hall, List.dropWhile_cons_of_neg (by decide)]
  have htake : ∀ r, (line ++ '\n' :: r).takeWhile (· != '\n') = line := fun r => by
    rw [List.takeWhile_append_of_pos hall, List.takeWhile_cons_of_neg (by decide), List.append_nil]
  simp only [firstLine, splitFirst, String.toList_append, ha, List.append_assoc, List.cons_append, hdrop, htake]

/-! ### Numbers that are written out -/

theorem natOf?_eq_ofDigitChars {ds : List Char} (hne : ds ≠ []) (hds : ∀ c ∈ ds, c.isDigit = true) :
    natOf? digit? 10 ds = some (Nat.ofDigitChars 10 ds 0) := by
  have hfold : ∀ (ds : List Char) (acc : Nat), (∀ c ∈ ds, c.isDigit = true) →
      ds.foldl (fun acc c => do return (← acc) * 10 + (← digit? c)) (some acc) = some (Nat.ofDigitChars 10 ds acc) := by
    intro ds
    induction ds with
    | nil => intro acc _; rfl
    | cons c ds ih =>
      intro acc hds
      have hc : digit? c = some (c.toNat - '0'.toNat) := if_pos (hds c List.mem_cons_self)
      rw [List.foldl_cons, Nat.ofDigitChars_eq_foldl, List.foldl_cons, ← Nat.ofDigitChars_eq_foldl, hc,
        Nat.mul_comm 10]
      exact ih _ fun d hd => hds d (List.mem_cons_of_mem _ hd)
  cases ds with
  | nil => exact absurd rfl hne
  | cons c cs => exact hfold _ _ hds

theorem natUpTo?_toString {bound n : Nat} (hn : n ≤ bound) : natUpTo? bound (toString n) = some n := by
  have hdigits : ∀ c ∈ Nat.toDigits 10 n, c.isDigit = true := fun c =>
    Nat.isDigit_of_mem_toDigits (by decide) (by decide)
  have hvalue : natOf? digit? 10 (Nat.toDigits 10 n) = some n := by
    rw [natOf?_eq_ofDigitChars Nat.toDigits_ne_nil hdigits, Nat.ofDigitChars_ten_toDigits]
  have hsign : ∀ cs, Nat.toDigits 10 n ≠ '+' :: cs := fun cs h =>
    absurd (hdigits '+' (h ▸ List.mem_cons_self)) (by decide)
  rw [natUpTo?, Nat.toString_eq_ofList_toDigits, String.toList_ofList]
  split
  · exact absurd ‹_› (hsign _)
  · rw [hvalue, Option.filter_some, if_pos (decide_eq_true hn)]

end ScriptHost.Text

namespace ScriptHost.Compile.Diagnostic

/-! ### Marks -/

/-- Characters that a line number may be made of, at least one. -/
def Digits (ds : List Char) : Prop := ds ≠ [] ∧ ∀ c ∈ ds, Text.isAnyDigit c = true

/-- Somewhere there are digits between two colons. -/
def Marked (cs : List Char) : Prop :=
  ∃ before ds after, Digits ds ∧ cs = before ++ ':' :: (ds ++ ':' :: after)

variable {cs ds before rest : List Char}

theorem Digits.no_colon (h : Digits ds) : ':' ∉ ds := fun hmem => absurd (h.2 ':' hmem) (by decide)

theorem lineMark?_mark (h : Digits ds) (rest : List Char) :
    lineMark? (':' :: (ds ++ ':' :: rest)) = some (ds, rest) := by
  have htake : (ds ++ ':' :: rest).takeWhile Text.isAnyDigit = ds := by
    rw [List.takeWhile_append_of_pos h.2, List.takeWhile_cons_of_neg (by decide), List.append_nil]
  have hdrop : (ds ++ ':' :: rest).dropWhile Text.isAnyDigit = ':' :: rest := by
    rw [List.dropWhile_append_of_pos h.2, List.dropWhile_cons_of_neg (by decide)]
  obtain ⟨d, ds', rfl⟩ := List.exists_cons_of_ne_nil h.1
  simp only [lineMark?, htake, hdrop]

theorem eq_of_lineMark? (h : lineMark? cs = some (ds, rest)) : Digits ds ∧ cs = ':' :: (ds ++ ':' :: rest) := by
  unfold lineMark? at h
  split at h
  · rename_i cs
    split at h
    · rename_i d ds' rest' htake hdrop
      cases h
      refine ⟨⟨List.cons_ne_nil _ _, fun c hc => ?_⟩, ?_⟩
      · exact List.mem_takeWhile_imp (htake ▸ hc)
      · rw [← htake, ← hdrop, List.takeWhile_append_dropWhile]
    · cases h
  · cases h

/-- Digits that a colon follows end at the first colon there is. -/
theorem first_colon {xs ys : List Char} (hds : ':' ∉ ds) (h : before ++ ':' :: xs = ds ++ ':' :: ys) :
    ∃ after, before ++ [':'] = ds ++ ':' :: after := by
  rcases List.append_eq_append_iff.1 h with ⟨as, rfl, has⟩ | ⟨bs, rfl, hbs⟩
  · cases as with
    | nil => exact ⟨[], by rw [List.append_nil]⟩
    | cons a as =>
      obtain ⟨rfl, -⟩ := List.cons.inj has
      exact absurd (List.mem_append_right _ List.mem_cons_self) hds
  · cases bs with
    | nil => exact ⟨[], by rw [List.append_nil]⟩
    | cons b bs =>
      obtain ⟨rfl, -⟩ := List.cons.inj hbs
      exact ⟨bs ++ [':'], by rw [List.append_assoc, List.cons_append]⟩

/-- The mark that is found is the first one: no other is complete before it. -/
theorem findMark?_first (hbefore : ¬ Marked (before ++ [':'])) (hds : Digits ds) (rest : List Char) :
    findMark? (before ++ ':' :: (ds ++ ':' :: rest)) = some (ds, rest) := by
  induction before with
  | nil => rw [List.nil_append, findMark?, lineMark?_mark hds]
  | cons c before ih =>
    have htail : ¬ Marked (before ++ [':']) := fun ⟨b, d, a, hd, h⟩ =>
      hbefore ⟨c :: b, d, a, hd, by rw [List.cons_append, h, List.cons_append]⟩
    have hnone : lineMark? (c :: (before ++ ':' :: (ds ++ ':' :: rest))) = none := by
      by_contra hsome
      obtain ⟨⟨ds', rest'⟩, hmark⟩ := Option.ne_none_iff_exists'.1 hsome
      obtain ⟨hds', heq⟩ := eq_of_lineMark? hmark
      obtain ⟨rfl, htail⟩ := List.cons.inj heq
      -- The mark at the front would end at the first colon after it, so before the one that is meant.
      obtain ⟨after, hafter⟩ := first_colon hds'.no_colon htail
      exact hbefore ⟨[], ds', after, hds', by rw [List.cons_append, hafter, List.nil_append]⟩
    rw [List.cons_append, findMark?, hnone]
    exact ih htail

/-- Where there is a mark there is a first one. -/
theorem Marked.exists_first (h : Marked cs) :
    ∃ before ds after, Digits ds ∧ cs = before ++ ':' :: (ds ++ ':' :: after) ∧ ¬ Marked (before ++ [':']) := by
  induction hn : cs.length using Nat.strongRecOn generalizing cs with
  | ind n ih =>
    obtain ⟨before, ds, after, hds, rfl⟩ := h
    by_cases hbefore : Marked (before ++ [':'])
    · have hshort : (before ++ [':']).length < n := by
        have := List.length_pos_iff.2 hds.1
        simp only [List.length_append, List.length_cons, List.length_nil] at hn ⊢
        omega
      obtain ⟨b, d, a, hd, heq, hfirst⟩ := ih _ hshort hbefore rfl
      refine ⟨b, d, a ++ (ds ++ ':' :: after), hd, ?_, hfirst⟩
      rw [List.append_cons, heq]
      simp only [List.append_assoc, List.cons_append]
    · exact ⟨before, ds, after, hds, rfl, hbefore⟩

/-- A mark is found just where there is one. -/
theorem marked_iff : Marked cs ↔ (findMark? cs).isSome = true := by
  constructor
  · intro h
    obtain ⟨before, ds, after, hds, rfl, hfirst⟩ := h.exists_first
    rw [findMark?_first hfirst hds, Option.isSome_some]
  · intro h
    induction cs with
    | nil => cases h
    | cons c cs ih =>
      rw [findMark?] at h
      cases hmark : lineMark? (c :: cs) with
      | some m =>
        obtain ⟨hds, heq⟩ := eq_of_lineMark? hmark
        exact ⟨[], m.1, m.2, hds, heq⟩
      | none =>
        rw [hmark] at h
        obtain ⟨before, ds, after, hds, heq⟩ := ih h
        exact ⟨c :: before, ds, after, hds, by rw [heq, List.cons_append]⟩

instance : Decidable (Marked cs) := decidable_of_iff _ marked_iff.symm

end ScriptHost.Compile.Diagnostic

namespace ScriptHost.Compile.LuaBackend

open Diagnostic

/-! ### Names of chunks -/

/-- The name of a chunk as it stands in Lua's messages. -/
def shownName (name : String) : String := (Lua.chunkId name).toText

/-- What Lua says about a syntax error on a line of a chunk. -/
def syntaxText (name : String) (line : Nat) (message : String) : String :=
  (Lua.position (Lua.chunkId name) line ++ Lua.Bytes.ofString message).toText

/-- A name that is not taken for a place in the chunk: as it is shown it has no line break, and together
with the colon after it no digits between two colons. -/
def Plain (name : String) : Prop :=
  '\n' ∉ (shownName name).toList ∧ ¬ Marked ((shownName name).toList ++ [':'])

instance (name : String) : Decidable (Plain name) := inferInstanceAs (Decidable (_ ∧ _))

variable {name : String} {line : Nat}

theorem toList_place (line : Nat) :
    s!":{line}: ".toList = ':' :: ((toString line).toList ++ ':' :: [' ']) := by
  show (":" ++ toString line ++ ": ").toList = _
  rw [String.toList_append, String.toList_append]
  rfl

/-- The text of a place and of the message after it. -/
theorem toText_position (id : Lua.Bytes) (line : Nat) (message : Lua.Bytes) :
    (Lua.position id line ++ message).toText = id.toText ++ s!":{line}: " ++ message.toText :=
  Lua.Bytes.toText_append_ofString (toList_place line) (by decide) id message

theorem digits_toString (line : Nat) : Digits (toString line).toList := by
  have hdigits : (toString line).toList = Nat.toDigits 10 line := by
    rw [Nat.toString_eq_ofList_toDigits, String.toList_ofList]
  refine ⟨hdigits ▸ Nat.toDigits_ne_nil, fun c hc => Text.isAnyDigit_of_isDigit ?_⟩
  exact Nat.isDigit_of_mem_toDigits (by decide) (by decide) (hdigits ▸ hc)

theorem not_newline_place {shown : String} (hshown : '\n' ∉ shown.toList) (line : Nat) :
    '\n' ∉ (shown ++ s!":{line}: ").toList := by
  rw [String.toList_append, toList_place]
  have hdigits : '\n' ∉ (toString line).toList := fun h => absurd ((digits_toString line).2 _ h) (by decide)
  simp only [List.mem_append, List.mem_cons, List.not_mem_nil, not_or]
  exact ⟨hshown, by decide, hdigits, by decide, by decide, id⟩

/-- After a plain name the place is read as it was written, and the message up to its first line break. -/
theorem compileError_position (hname : Plain name) (hline : line ≤ maxLine) (language : Language)
    (message : Lua.Bytes) :
    compileError language (Lua.position (Lua.chunkId name) line ++ message).toText =
      ⟨language, .backend, some line, Text.trimStart (Text.firstLine message.toText)⟩ := by
  have hfirst : Text.firstLine (Lua.position (Lua.chunkId name) line ++ message).toText =
      shownName name ++ s!":{line}: " ++ Text.firstLine message.toText := by
    have hend : ∃ cs, (shownName name ++ s!":{line}: ").toList.reverse = ' ' :: cs := by
      rw [String.toList_append, toList_place, List.reverse_append, List.reverse_cons, List.reverse_append]
      exact ⟨_, rfl⟩
    obtain ⟨cs, hend⟩ := hend
    rw [toText_position]
    exact Text.firstLine_append (not_newline_place hname.1 line) hend (by decide) _
  have hmark : findMark? (shownName name ++ s!":{line}: " ++ Text.firstLine message.toText).toList =
      some ((toString line).toList, ' ' :: (Text.firstLine message.toText).toList) := by
    rw [String.toList_append, String.toList_append, toList_place]
    simp only [List.append_assoc, List.cons_append, List.nil_append]
    exact findMark?_first hname.2 (digits_toString line) _
  have hsplit : split? (shownName name ++ s!":{line}: " ++ Text.firstLine message.toText) =
      some (line, Text.trimStart (Text.firstLine message.toText)) := by
    rw [split?, hmark]
    simp only [Option.bind_eq_bind, Option.bind_some, String.ofList_toList, Text.natUpTo?_toString hline]
    rfl
  simp only [compileError, hfirst, hsplit]

/-- Messages on one line that begin with no blank. -/
def OneLine (message : String) : Prop :=
  '\n' ∉ message.toList ∧ message.toList.head?.any Text.isBlank = false

instance (message : String) : Decidable (OneLine message) := inferInstanceAs (Decidable (_ ∧ _))

/-- What Lua says about a plain name's chunk is reported as it was said. -/
theorem compileError_syntaxText (hname : Plain name) (hline : line ≤ maxLine) {message : String}
    (hmessage : OneLine message) :
    compileError .lua (syntaxText name line message) = ⟨.lua, .backend, some line, message⟩ := by
  have htrim : Text.trimStart message = message := by
    rw [Text.trimStart, List.dropWhile_eq_self_iff.2, String.ofList_toList]
    intro hpos hblank
    have hhead := hmessage.2
    rw [List.head?_eq_getElem?, List.getElem?_eq_getElem hpos, Option.any_some, hblank] at hhead
    cases hhead
  rw [syntaxText, compileError_position hname hline, Lua.Bytes.toText_ofString,
    Text.firstLine_eq_self hmessage.1, htrim]

/-- Behind a line break in the name nothing of the message is seen. -/
theorem compileError_of_newline (hname : '\n' ∈ (shownName name).toList) (line : Nat) (message : String) :
    compileError .lua (syntaxText name line message) = compileError .lua (shownName name) := by
  have hfirst : Text.firstLine (syntaxText name line message) = Text.firstLine (shownName name) := by
    rw [syntaxText, toText_position, String.append_assoc]
    exact Text.firstLine_append_of_mem hname _
  simp only [compileError, hfirst]

/-- A mark in the name is taken for the place, so the place becomes part of the message. -/
theorem message_ne_of_marked (hbreak : '\n' ∉ (shownName name).toList)
    (hname : Marked ((shownName name).toList ++ [':'])) :
    compileError .lua (syntaxText name 0 "") ≠ ⟨.lua, .backend, some 0, ""⟩ := by
  obtain ⟨before, ds, after, hds, hshown, hfirst⟩ := hname.exists_first
  have htext : syntaxText name 0 "" = shownName name ++ s!":{0}: " := by
    rw [syntaxText, toText_position, Lua.Bytes.toText_ofString, String.append_empty]
    rfl
  have hline : Text.firstLine (syntaxText name 0 "") = syntaxText name 0 "" := by
    rw [htext]
    exact Text.firstLine_eq_self (not_newline_place hbreak 0)
  have hmark : findMark? (syntaxText name 0 "").toList = some (ds, after ++ ['0', ':', ' ']) := by
    have hchars : (syntaxText name 0 "").toList =
        (shownName name).toList ++ [':'] ++ ['0', ':', ' '] := by
      rw [htext, String.toList_append, List.append_assoc]
      rfl
    rw [hchars, hshown]
    simp only [List.append_assoc, List.cons_append]
    exact findMark?_first hfirst hds _
  have hrest : String.ofList ((after ++ ['0', ':', ' ']).dropWhile Text.isBlank) ≠ "" := by
    intro hempty
    have hnil := congrArg String.toList hempty
    rw [String.toList_ofList] at hnil
    have hzero : Text.isBlank '0' = true :=
      List.dropWhile_eq_nil_iff.1 hnil '0' (List.mem_append_right _ List.mem_cons_self)
    exact absurd hzero (by decide)
  intro herror
  simp only [compileError, hline, split?, hmark, Option.bind_eq_bind, Option.bind_some] at herror
  cases hnat : Text.natUpTo? maxLine (String.ofList ds) with
  | none =>
    rw [hnat] at herror
    cases herror
  | some n =>
    rw [hnat] at herror
    injection herror with _ _ _ hmessage
    exact hrest hmessage

/-- Plain are just the names with which all that Lua can say about a chunk is reported as it was said. -/
theorem plain_of_exact (h : ∀ line ≤ maxLine, ∀ message, OneLine message →
      compileError .lua (syntaxText name line message) = ⟨.lua, .backend, some line, message⟩) :
    Plain name := by
  have hbreak : '\n' ∉ (shownName name).toList := fun hmem => by
    have hempty := h 0 (Nat.zero_le _) "" (by decide)
    have hother := h 0 (Nat.zero_le _) "a" (by decide)
    rw [compileError_of_newline hmem] at hempty hother
    have hmessage : "" = "a" := congrArg CompileError.message (hempty.symm.trans hother)
    exact absurd hmessage (by decide)
  have hnil := h 0 (Nat.zero_le _) "" (by decide)
  exact ⟨hbreak, fun hmark => message_ne_of_marked hbreak hmark hnil⟩

/-! ### Compile errors -/

/-- A source that Lua takes for a compiled chunk. What it says about one begins with the name, and names no
line. -/
def Precompiled (source : String) : Prop := ∃ rest, source.toUTF8.toList = 0x1B :: 0x4C :: 0x75 :: 0x61 :: rest

/-- Any other source is refused without a look at its text, or parsed. -/
theorem load_cases {source : String} (hsource : ¬ Precompiled source) :
    (∀ name, Lua.Chunk.zeroPosition? name = none →
      Lua.Chunk.load name source = .error (.refused "attempt to load a binary chunk (mode is 't')")) ∨
    ∀ name, Lua.Chunk.zeroPosition? name = none →
      Lua.Chunk.load name source = (Lua.parse source).mapError (Lua.Chunk.errorOf name) := by
  unfold Lua.Chunk.load
  split
  · rename_i rest hbytes
    refine .inl fun name hzero => ?_
    have hfault : Lua.Chunk.binaryFault name rest = "attempt to load a binary chunk (mode is 't')" := by
      unfold Lua.Chunk.binaryFault
      split
      · exact absurd ⟨_, hbytes⟩ hsource
      · rfl
    simp only [hzero, hfault]
  · exact .inr fun name hzero => by simp only [hzero]

/-- What an author sees of an error of the parser, where the name of the chunk is plain. -/
theorem compileError_errorOf (hname : Plain name) {e : Lua.SyntaxError} (hline : e.line ≤ maxLine) :
    compileError .lua (Lua.Chunk.errorOf name e).text =
      if e.fault = .tooDeep then compileError .lua ("runtime error: " ++ e.fault.message)
      else ⟨.lua, .backend, some e.line, Text.trimStart (Text.firstLine e.message.toText)⟩ := by
  unfold Lua.Chunk.errorOf
  split
  · rfl
  · exact compileError_position hname hline .lua e.message

/-- A plain name leaves no trace in the error of a source. -/
theorem compile_eq_of_plain {m m' : Metadata} {source : String} (hm : Plain m.name) (hm' : Plain m'.name)
    (hzero : Lua.Chunk.zeroPosition? m.name = none) (hzero' : Lua.Chunk.zeroPosition? m'.name = none)
    (hsource : ¬ Precompiled source) (hline : ∀ e, Lua.parse source = .error e → e.line ≤ maxLine) :
    compile m source = compile m' source := by
  unfold compile
  rcases load_cases hsource with hload | hload
  · rw [hload _ hzero, hload _ hzero']
  · rw [hload _ hzero, hload _ hzero']
    cases hparse : Lua.parse source with
    | ok body => rfl
    | error e => simp only [Except.mapError, compileError_errorOf hm (hline e hparse),
        compileError_errorOf hm' (hline e hparse)]

/-- Errors in the text of a script are told with the line and the message of the parser exactly if the name of the
script is plain. Two scripts with plain names and the same text so get the same result. -/
theorem diagnostics_exact_iff_plain (m : Metadata) :
    ((∀ line ≤ maxLine, ∀ message, OneLine message →
        compileError .lua (syntaxText m.name line message) = ⟨.lua, .backend, some line, message⟩) ↔
      Plain m.name) ∧
    ∀ (m' : Metadata) (source : String), Plain m.name → Plain m'.name →
      Lua.Chunk.zeroPosition? m.name = none → Lua.Chunk.zeroPosition? m'.name = none →
      ¬ Precompiled source → (∀ e, Lua.parse source = .error e → e.line ≤ maxLine) →
      compile m source = compile m' source :=
  ⟨⟨plain_of_exact, fun hname _ hline _ => compileError_syntaxText hname hline⟩, fun _ _ => compile_eq_of_plain⟩

theorem diagnostics_exact_iff_plain_of_short_names :
    compileError .lua (syntaxText "t" 3 "unexpected symbol") = ⟨.lua, .backend, some 3, "unexpected symbol"⟩ ∧
      compile ⟨default, "t"⟩ "local = 1" = compile ⟨default, "a:b"⟩ "local = 1" := by
  have hexact := diagnostics_exact_iff_plain ⟨default, "t"⟩
  refine ⟨hexact.1.2 (by decide +kernel) 3 (by decide) _ (by decide), ?_⟩
  refine hexact.2 _ _ (by decide +kernel) (by decide +kernel) (by decide +kernel) (by decide +kernel) ?_ ?_
  · rintro ⟨rest, hrest⟩
    have hhead : "local = 1".toUTF8.toList.head? = some 0x1B := congrArg List.head? hrest
    exact absurd hhead (by decide +kernel)
  · intro e he
    have hline : (match Lua.parse "local = 1" with
        | .error e => decide (e.line ≤ maxLine)
        | .ok _ => true) = true := by decide +kernel
    rw [he] at hline
    exact of_decide_eq_true hline

/-- A name that looks like a place gives the line, and what is left of the text the message. -/
theorem name_taken_for_place :
    OneLine "<name> expected near '='" ∧ Lua.Chunk.zeroPosition? "a:7:b" = none ∧ 1 ≤ maxLine ∧
      compileError .lua (syntaxText "a:7:b" 1 "<name> expected near '='") =
        ⟨.lua, .backend, some 7, "b:1: <name> expected near '='"⟩ ∧
      compile ⟨default, "a:7:b"⟩ "local = 1" ≠ compile ⟨default, "t"⟩ "local = 1" := by
  decide +kernel

end ScriptHost.Compile.LuaBackend
