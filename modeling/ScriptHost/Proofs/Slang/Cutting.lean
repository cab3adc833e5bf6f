import ScriptHost.Proofs.Slang.Elements

/-! Cuts of a text into elements, and the Lua that is written for them. A cut stays a cut when more
text follows, unless what is left of the text could still grow into something else. -/

namespace ScriptHost.Compile.Slang

variable {cs rest more : List Char} {es fs : List Element}

/-- A text is some elements, one after the other, and a rest. -/
inductive Cuts : List Char → List Element → List Char → Prop
  | nil {rest : List Char} : Cuts rest [] rest
  | cons {cs mid rest : List Char} {e : Element} {es : List Element} : Begins cs e mid →
      Cuts mid es rest → Cuts cs (e :: es) rest

theorem Cuts.trans {mid : List Char} (h : Cuts cs es mid) (hmid : Cuts mid fs rest) :
    Cuts cs (es ++ fs) rest := by
  induction h with
  | nil => exact hmid
  | cons hb _ ih => exact .cons hb (ih hmid)

/-- A cut can be stopped between any two of its elements. -/
theorem Cuts.of_append (h : Cuts cs (es ++ fs) rest) : ∃ mid, Cuts cs es mid ∧ Cuts mid fs rest := by
  induction es generalizing cs with
  | nil => exact ⟨cs, .nil, h⟩
  | cons e es ih =>
    cases h with
    | cons hb hcut =>
      obtain ⟨mid, hes, hfs⟩ := ih hcut
      exact ⟨mid, .cons hb hes, hfs⟩

theorem Cuts.source_append (h : Cuts cs es rest) : es.flatMap Element.source ++ rest = cs := by
  induction h with
  | nil => rfl
  | cons hb _ ih => rw [List.flatMap_cons, List.append_assoc, ih, hb.source_append]

theorem Cuts.plains (h : ∀ c ∈ cs, c ∉ marks) : Cuts (cs ++ rest) (cs.map .plain) rest := by
  induction cs with
  | nil => exact .nil
  | cons c cs ih =>
    rw [List.forall_mem_cons] at h
    exact .cons (.plain (.of_not_mem h.1 _)) (ih h.2)

theorem Begins.exists_cons {e : Element} (h : Begins cs e rest) : ∃ c tail, cs = c :: tail := by
  cases cs with
  | nil => exact absurd h.source_append (by simp [source_ne_nil])
  | cons c tail => exact ⟨c, tail, rfl⟩

theorem Begins.det {mid mid' : List Char} {e e' : Element} (h : Begins cs e mid)
    (h' : Begins cs e' mid') : e = e' ∧ mid = mid' := by
  obtain ⟨c, tail, rfl⟩ := h.exists_cons
  exact Prod.mk.inj (Except.ok.inj
    ((nextElement_eq_ok_iff.2 h).symm.trans (nextElement_eq_ok_iff.2 h')))

/-- Of two cuts of a text, one goes on where the other stops. -/
theorem Cuts.comparable {rest' : List Char} (h : Cuts cs es rest) (h' : Cuts cs fs rest') :
    (∃ gs, fs = es ++ gs ∧ Cuts rest gs rest') ∨ ∃ gs, es = fs ++ gs ∧ Cuts rest' gs rest := by
  induction h generalizing fs with
  | nil => exact .inl ⟨fs, rfl, h'⟩
  | cons hb hcut ih =>
    cases h' with
    | nil => exact .inr ⟨_, rfl, .cons hb hcut⟩
    | cons hb' hcut' =>
      obtain ⟨rfl, rfl⟩ := hb.det hb'
      rcases ih hcut' with ⟨gs, rfl, hgs⟩ | ⟨gs, rfl, hgs⟩
      · exact .inl ⟨gs, rfl, hgs⟩
      · exact .inr ⟨gs, rfl, hgs⟩

theorem Cuts.of_nil (h : Cuts [] es rest) : es = [] ∧ rest = [] := by
  have hsource := h.source_append
  obtain ⟨hes, rfl⟩ := List.append_eq_nil_iff.1 hsource
  cases es with
  | nil => exact ⟨rfl, rfl⟩
  | cons e es => simp [source_ne_nil] at hes

/-- A cut of the whole text goes through any other. -/
theorem Cuts.resume (h : Cuts cs es []) (h' : Cuts cs fs rest) :
    ∃ gs, es = fs ++ gs ∧ Cuts rest gs [] := by
  rcases h.comparable h' with ⟨gs, rfl, hgs⟩ | h
  · obtain ⟨rfl, rfl⟩ := hgs.of_nil
    exact ⟨[], by simp, .nil⟩
  · exact h

/-- A source is read through any cut of it. -/
theorem Cuts.elementsFrom (h : Cuts cs es rest) (done : List Element) (line : UInt32) :
    elementsFrom done line cs =
      elementsFrom (es.reverse ++ done) (line + breakCount (es.flatMap Element.source)) rest := by
  induction h generalizing done line with
  | nil => simp [breakCount, Text.breaks]
  | cons hb _ ih =>
    obtain ⟨c, tail, rfl⟩ := hb.exists_cons
    rw [Slang.elementsFrom]
    split
    · rename_i herr
      cases herr.symm.trans (nextElement_eq_ok_iff.2 hb)
    · rename_i hok
      cases hok.symm.trans (nextElement_eq_ok_iff.2 hb)
      rw [ih, List.flatMap_cons, breakCount_append, UInt32.add_assoc]
      simp

theorem elementsFrom_eq_ok (done : List Element) (line : UInt32)
    (h : elementsFrom done line cs = .ok es) :
    ∃ fs, Cuts cs fs [] ∧ es = done.reverse ++ fs := by
  fun_induction elementsFrom done line cs with
  | case1 done line =>
    cases h
    exact ⟨[], .nil, by simp⟩
  | case2 => cases h
  | case3 done line c cs e rest hnext ih =>
    obtain ⟨fs, hcut, rfl⟩ := ih h
    exact ⟨e :: fs, .cons (nextElement_eq_ok_iff.1 hnext) hcut, by simp⟩

theorem elements_eq_ok_iff : elements cs = .ok es ↔ Cuts cs es [] := by
  constructor
  · intro h
    obtain ⟨fs, hcut, rfl⟩ := elementsFrom_eq_ok [] 1 h
    exact hcut
  · intro h
    rw [elements, h.elementsFrom, Slang.elementsFrom]
    simp

/-- A text begins with what opens a construct. -/
inductive Opens : Construct → List Char → Prop
  | quoted {quote : Char} {cs : List Char} : quote = '"' ∨ quote = '\'' → Opens .quoted (quote :: cs)
  | block {cs : List Char} : Opens .block ('/' :: '*' :: cs)
  | comment {level : Nat} {cs : List Char} : Opens .block ('-' :: '-' :: (opener level ++ cs))
  | bracket {level : Nat} {cs : List Char} : Opens .bracket (opener level ++ cs)

/-- Where reading fails, the text begins with what opens a construct, and the construct has no end,
as no element is there. -/
theorem opens_of_nextElement {c : Char} {construct : Construct}
    (h : nextElement c cs = .error construct) :
    Opens construct (c :: cs) ∧ ∀ e rest, ¬ Begins (c :: cs) e rest := by
  constructor
  · unfold nextElement at h
    split at h
    · split at h <;> cases h
      exact .quoted ‹_›
    · split at h
      · cases h
      · split at h <;> cases h
        exact .block
      · split at h
        · rename_i hl
          unfold bracketElement at h
          split at h <;> cases h
          rw [bracketLevel?_eq hl]
          exact .comment
        · cases h
      · cases h
      · cases h
      · cases h
      · cases h
      · split at h
        · rename_i hl
          unfold bracketElement at h
          split at h <;> cases h
          rw [bracketLevel?_eq hl]
          exact .bracket
        · cases h
      · cases h
  · intro e rest hb
    rw [nextElement_eq_ok_iff.2 hb] at h
    cases h

/-- A construct without an end is reported with the line on which it opens. -/
theorem elementsFrom_eq_error {u : Unterminated} (done : List Element) (line : UInt32)
    (h : elementsFrom done line cs = .error u) :
    ∃ fs rest, Cuts cs fs rest ∧ Opens u.construct rest ∧ (∀ e after, ¬ Begins rest e after) ∧
      u.line = line + breakCount (fs.flatMap Element.source) := by
  fun_induction elementsFrom done line cs with
  | case1 => cases h
  | case2 done line c cs construct hnext =>
    cases h
    obtain ⟨hopens, hnone⟩ := opens_of_nextElement hnext
    exact ⟨[], c :: cs, .nil, hopens, hnone, (UInt32.add_zero line).symm⟩
  | case3 done line c cs e rest hnext ih =>
    obtain ⟨fs, stuck, hcut, hopens, hnone, hline⟩ := ih h
    refine ⟨e :: fs, stuck, .cons (nextElement_eq_ok_iff.1 hnext) hcut, hopens, hnone, ?_⟩
    rw [hline, List.flatMap_cons, breakCount_append, UInt32.add_assoc]

/-- What is read of a text does not depend on what was read before it. -/
theorem elementsFrom_done (done : List Element) (line : UInt32) (cs : List Char) :
    elementsFrom done line cs = (elementsFrom [] line cs).map (done.reverse ++ ·) := by
  have hread (first : List Element) :
      elementsFrom (first ++ done) line cs =
        (elementsFrom first line cs).map (done.reverse ++ ·) := by
    fun_induction elementsFrom first line cs with
    | case1 first line => simp [Slang.elementsFrom, Except.map]
    | case2 first line c cs con hnext =>
      rw [Slang.elementsFrom]
      split <;> simp_all [Except.map]
    | case3 first line c cs e rest hnext ih =>
      rw [Slang.elementsFrom]
      split
      · simp_all
      · simp_all
  simpa using hread []

/-! ### More text -/

/-- More text makes nothing else of what is left: either no long bracket can open across it, or the
line ends with it. -/
def Settled (rest more : List Char) : Prop := (∃ c ∈ rest, c ≠ '=') ∨ LineEnd more

theorem Settled.append_left (h : Settled rest more) (cs : List Char) :
    Settled (cs ++ rest) more := by
  rcases h with ⟨c, hc, hne⟩ | h
  · exact .inl ⟨c, List.mem_append_right _ hc, hne⟩
  · exact .inr h

/-- The next character is the one that is left, or the line ends. -/
theorem Settled.head?_append (h : Settled rest more) :
    (rest ++ more).head? = rest.head? ∨ ∀ c ∈ (rest ++ more).head?, c = '\n' := by
  cases rest with
  | cons c cs => exact .inl rfl
  | nil =>
    rcases h with ⟨c, hc, -⟩ | rfl | ⟨tail, rfl⟩
    · cases hc
    · exact .inl rfl
    · exact .inr (by simp)

theorem Settled.head?_ne (h : Settled rest more) {c : Char} (hc : c ≠ '\n')
    (hne : rest.head? ≠ some c) : (rest ++ more).head? ≠ some c := by
  intro heq
  rcases h.head?_append with h | h
  · exact hne (h ▸ heq)
  · exact hc (h c heq)

theorem bracketLevel?_eq_none_iff :
    bracketLevel? ('[' :: cs) = none ↔ (cs.dropWhile (· == '=')).head? ≠ some '[' := by
  simp only [bracketLevel?]
  split
  · rename_i hd
    simp [hd]
  · rename_i hne
    simp only [true_iff]
    intro heq
    obtain ⟨tail, htail⟩ := List.head?_eq_some_iff.1 heq
    exact hne tail htail

theorem bracketLevel?_cons_of_ne {c : Char} (hc : c ≠ '[') : bracketLevel? (c :: cs) = none := by
  unfold bracketLevel?
  split
  · exact absurd (List.cons.inj ‹_›).1 hc
  · rfl

/-- After equals signs, a text has a bracket. -/
def opensAfter (cs : List Char) : Prop := (cs.dropWhile (· == '=')).head? = some '['

theorem opensAfter_append {cs ds : List Char} (h : opensAfter cs ↔ opensAfter ds)
    (lead : List Char) : opensAfter (lead ++ cs) ↔ opensAfter (lead ++ ds) := by
  induction lead with
  | nil => exact h
  | cons c lead ih =>
    by_cases hc : c = '='
    · simpa [opensAfter, hc] using ih
    · simp [opensAfter, hc]

/-- Whether a long bracket opens at a character depends on what follows only in whether that opens
with equals signs and a bracket. -/
theorem bracketLevel?_cons_append_congr {cs ds : List Char} (h : opensAfter cs ↔ opensAfter ds)
    (c : Char) (lead : List Char) :
    bracketLevel? (c :: lead ++ cs) = none ↔ bracketLevel? (c :: lead ++ ds) = none := by
  by_cases hc : c = '['
  · subst hc
    rw [List.cons_append, List.cons_append, bracketLevel?_eq_none_iff, bracketLevel?_eq_none_iff]
    exact not_congr (opensAfter_append h lead)
  · simp [bracketLevel?_cons_of_ne hc]

theorem bracketLevel?_lineEnd (h : LineEnd cs) : bracketLevel? cs = none := by
  rcases h with rfl | ⟨tail, rfl⟩ <;> rfl

/-- Where no long bracket opens, none opens across the end of a settled text. -/
theorem bracketLevel?_append (h : bracketLevel? cs = none) (hnil : cs = [] → LineEnd more)
    (hs : ∀ tail, cs = '[' :: tail → Settled tail more) : bracketLevel? (cs ++ more) = none := by
  have hopen {cs : List Char} (h : (cs.dropWhile (· == '=')).head? ≠ some '[')
      (hs : Settled cs more) : ((cs ++ more).dropWhile (· == '=')).head? ≠ some '[' := by
    induction cs with
    | nil =>
      rcases hs with ⟨c, hc, -⟩ | rfl | ⟨tail, rfl⟩
      · cases hc
      · exact h
      · simp
    | cons c cs ih =>
      by_cases hc : c = '='
      · subst hc
        have hs' : Settled cs more := hs.imp_left fun ⟨c, hc, hne⟩ =>
          ⟨c, (List.mem_cons.1 hc).resolve_left hne, hne⟩
        simpa using ih (by simpa using h) hs'
      · simpa [hc] using h
  cases cs with
  | nil => exact bracketLevel?_lineEnd (hnil rfl)
  | cons c cs =>
    by_cases hc : c = '['
    · subst hc
      exact bracketLevel?_eq_none_iff.2 (hopen (bracketLevel?_eq_none_iff.1 h) (hs cs rfl))
    · exact bracketLevel?_cons_of_ne hc

theorem Stands.append {c : Char} (h : Stands c rest) (hs : Settled rest more) :
    Stands c (rest ++ more) where
  quote := h.quote
  bang := h.bang
  slash hc := ⟨hs.head?_ne (by decide) (h.slash hc).1, hs.head?_ne (by decide) (h.slash hc).2⟩
  hyphen hc := hs.head?_ne (by decide) (h.hyphen hc)
  ampersand hc := hs.head?_ne (by decide) (h.ampersand hc)
  bar hc := hs.head?_ne (by decide) (h.bar hc)
  bracket hc := bracketLevel?_append (h.bracket hc) nofun fun tail heq => by
    cases heq
    exact hs

/-- An element stays the first one when more text follows. -/
theorem Begins.append {e : Element} (h : Begins cs e rest) (hs : Settled rest more) :
    Begins (cs ++ more) e (rest ++ more) := by
  cases h with
  | plain h => exact .plain (h.append hs)
  | and => exact .and
  | or => exact .or
  | not h => exact .not (hs.head?_ne (by decide) h)
  | notEqual => exact .notEqual
  | slashes => exact .slashes
  | block hf => simpa using @Begins.block _ (rest ++ more) hf
  | quoted hq hi => simpa using @Begins.quoted _ _ (rest ++ more) hq hi
  | comment hf => simpa using @Begins.comment _ _ (rest ++ more) hf
  | string hf => simpa using @Begins.string _ _ (rest ++ more) hf
  | @note body _ hl hn hr =>
    have hline : LineEnd (rest ++ more) := by
      rcases hr with rfl | ⟨tail, rfl⟩
      · exact hs.resolve_left (by simp)
      · exact .inr ⟨tail ++ more, rfl⟩
    have hnone : bracketLevel? (body ++ rest ++ more) = none := by
      refine bracketLevel?_append hl (fun hnil => ?_) fun tail heq => ?_
      · rwa [(List.append_eq_nil_iff.1 hnil).2] at hline
      · cases body with
        | nil => rcases hr with rfl | ⟨_, rfl⟩ <;> cases heq
        | cons c body =>
          cases heq
          exact hs.append_left body
    rw [List.append_assoc] at hnone
    simpa using Begins.note hnone hn hline

/-- A cut of a text is one of any longer text. -/
theorem Cuts.append (h : Cuts cs es rest) (hs : Settled rest more) :
    Cuts (cs ++ more) es (rest ++ more) := by
  induction h with
  | nil => exact .nil
  | cons hb hcut ih =>
    refine .cons (hb.append ?_) (ih hs)
    rw [← hcut.source_append]
    exact hs.append_left _

/-! ### Less text -/

theorem bracketLevel?_truncate (h : bracketLevel? (cs ++ more) = none) : bracketLevel? cs = none := by
  cases hcs : bracketLevel? cs with
  | none => rfl
  | some read =>
    rw [bracketLevel?_eq hcs, List.append_assoc, bracketLevel?_opener] at h
    cases h

theorem head?_ne_truncate {c : Char} (h : (cs ++ more).head? ≠ some c) : cs.head? ≠ some c := by
  cases cs with
  | nil => simp
  | cons d cs => exact h

theorem Stands.truncate {c : Char} (h : Stands c (rest ++ more)) : Stands c rest where
  quote := h.quote
  bang := h.bang
  slash hc := ⟨head?_ne_truncate (h.slash hc).1, head?_ne_truncate (h.slash hc).2⟩
  hyphen hc := head?_ne_truncate (h.hyphen hc)
  ampersand hc := head?_ne_truncate (h.ampersand hc)
  bar hc := head?_ne_truncate (h.bar hc)
  bracket hc := bracketLevel?_truncate (h.bracket hc)

/-- An element stays the first one when the text ends somewhere behind it. -/
theorem Begins.truncate {e : Element} (h : Begins cs e (rest ++ more)) :
    Begins (e.source ++ rest) e rest := by
  cases h with
  | plain hs => exact .plain hs.truncate
  | and => exact .and
  | or => exact .or
  | not hne => exact .not (head?_ne_truncate hne)
  | notEqual => exact .notEqual
  | slashes => exact .slashes
  | block hf => simpa [Element.source] using Begins.block hf
  | quoted hq hi => simpa [Element.source] using Begins.quoted hq hi
  | comment hf => simpa [Element.source] using Begins.comment hf
  | string hf => simpa [Element.source] using Begins.string hf
  | note hl hn hr =>
    rw [← List.append_assoc] at hl
    refine .note (bracketLevel?_truncate hl) hn ?_
    cases rest with
    | nil => exact .inl rfl
    | cons c rest =>
      obtain ⟨tail, heq⟩ := hr.resolve_left (by simp)
      exact .inr ⟨rest, by rw [(List.cons.inj heq).1]⟩

/-- The part of a text that some elements make up is cut into them on its own. -/
theorem Cuts.truncate (h : Cuts cs es (rest ++ more)) :
    Cuts (es.flatMap Element.source ++ rest) es rest := by
  generalize hend : rest ++ more = last at h
  induction h with
  | nil => exact .nil
  | @cons cs mid last e es hb hcut ih =>
    subst hend
    have hmid := hcut.source_append
    rw [← List.append_assoc] at hmid
    rw [List.flatMap_cons, List.append_assoc]
    exact .cons (hmid.symm ▸ hb).truncate (ih rfl)

/-! ### Writing -/

/-- Elements written as Lua, between a character written before and one that follows. -/
def written (after : Option Char) : (before : Option Char) → List Element → List Char
  | _, [] => []
  | before, e :: es =>
    e.lua before ((firstChar? es).or after) ++
      written after (e.lua before ((firstChar? es).or after)).getLast? es

theorem spaceBefore_cases (before : Option Char) :
    spaceBefore before = [] ∨ spaceBefore before = [' '] := by
  unfold spaceBefore
  split
  · split <;> simp
  · exact .inl rfl

theorem spaceAfter_cases (after : Option Char) :
    spaceAfter after = [] ∨ spaceAfter after = [' '] := by
  unfold spaceAfter
  split
  · split <;> simp
  · exact .inl rfl

theorem lua_ne_nil (e : Element) (before after : Option Char) : e.lua before after ≠ [] := by
  cases e with
  | word op => cases op <;> simp [Element.lua, WordOp.word]
  | quoted quote body => exact source_ne_nil (.quoted quote body)
  | note body => exact source_ne_nil (.note body)
  | bracket comment level body => exact source_ne_nil (.bracket comment level body)
  | _ => simp [Element.lua]

theorem writeFrom_eq (out : List Char) (es : List Element) :
    writeFrom out es = out.reverse ++ written none out.head? es := by
  induction es generalizing out with
  | nil => simp [writeFrom, written]
  | cons e es ih =>
    have hne := lua_ne_nil e out.head? (firstChar? es)
    have hlast := List.getLast?_eq_some_getLast hne
    rw [writeFrom, ih]
    simp [written, List.head?_append, hlast]

/-- A translation is what is written for a cut of the whole source. -/
theorem convert_eq_ok_iff {source t : String} :
    convert source = .ok t ↔
      ∃ es, Cuts source.toList es [] ∧ String.ofList (written none none es) = t := by
  unfold convert
  constructor
  · intro h
    cases hes : elements source.toList with
    | error e => simp [hes, Except.map] at h
    | ok es =>
      refine ⟨es, elements_eq_ok_iff.1 hes, ?_⟩
      simpa [hes, Except.map, writeFrom_eq] using h
  · rintro ⟨es, hes, rfl⟩
    simp [elements_eq_ok_iff.2 hes, Except.map, writeFrom_eq]

theorem convert_eq_error {source : String} {u : Unterminated} (h : convert source = .error u) :
    ∃ es rest, Cuts source.toList es rest ∧ Opens u.construct rest ∧
      (∀ e after, ¬ Begins rest e after) ∧
      u.line = lineBehind (es.flatMap Element.source) := by
  unfold convert at h
  cases hes : elements source.toList with
  | error v =>
    rw [hes] at h
    cases h
    exact elementsFrom_eq_error [] 1 hes
  | ok es => simp [hes, Except.map] at h

/-- The character written last. -/
def lastWritten (after before : Option Char) (es : List Element) : Option Char :=
  (written after before es).getLast?.or before

theorem firstChar?_append (es fs : List Element) (after : Option Char) :
    (firstChar? (es ++ fs)).or after = (firstChar? es).or ((firstChar? fs).or after) := by
  cases es with
  | nil => rfl
  | cons d ds =>
    obtain ⟨c, cs, hc⟩ := List.exists_cons_of_ne_nil (source_ne_nil d)
    simp [firstChar?, hc]

theorem written_append (after before : Option Char) (es fs : List Element) :
    written after before (es ++ fs) =
      written ((firstChar? fs).or after) before es ++
        written after (lastWritten ((firstChar? fs).or after) before es) fs := by
  induction es generalizing before with
  | nil => simp [written, lastWritten]
  | cons e es ih =>
    have hlast := List.getLast?_eq_some_getLast
      (lua_ne_nil e before ((firstChar? es).or ((firstChar? fs).or after)))
    rw [List.cons_append, written, firstChar?_append, ih, written, List.append_assoc]
    simp [lastWritten, written, hlast]

/-- What follows the line of a comment begins with the end of that line. -/
theorem Cuts.lineEnd (hcut : Cuts cs es []) (hr : LineEnd cs) :
    es = [] ∨ ∃ fs, es = .plain '\n' :: fs := by
  cases hcut with
  | nil => exact .inl rfl
  | @cons _ mid _ e fs hb _ =>
    rcases hr with rfl | ⟨tail, rfl⟩
    · exact absurd hb.source_append (by simp [source_ne_nil])
    · generalize htext : '\n' :: tail = text at hb
      cases hb with
      | plain => cases htext; exact .inr ⟨fs, rfl⟩
      | quoted hq => rcases hq with rfl | rfl <;> cases htext
      | _ => cases htext

theorem lineEnd_written (h : es = [] ∨ ∃ fs, es = .plain '\n' :: fs) (before : Option Char) :
    written none before es = written none none es ∧ LineEnd (written none none es) ∧
      ((firstChar? es).or none = none ∨ (firstChar? es).or none = some '\n') := by
  rcases h with rfl | ⟨fs, rfl⟩
  · exact ⟨rfl, .inl rfl, .inl rfl⟩
  · exact ⟨rfl, .inr ⟨_, rfl⟩, .inr rfl⟩

end ScriptHost.Compile.Slang
