import ScriptHost.Proofs.Slang.BlockComment
import ScriptHost.Proofs.Slang.Cursor
import ScriptHost.Proofs.Slang.Passages

/-! What a step of the cursor does: over which characters it moves on, and that it leaves what comes of the
source as it is. Every step but those that end a loop or raise a level moves on, so the cursor comes to the
end of the source, with the translation of the source, in at most twice as many steps as there are
characters and one more. -/

namespace ScriptHost.Compile.Slang

open Text (breaks)

namespace Cursor

variable {c d : Cursor} {cs : List Char} {x : Char}

/-! ### What a step does -/

/-- From one stage to the next over some characters. A level is only raised while there are levels left
that are no longer than the comment. -/
inductive Move : Stage → List Char → Stage → Prop
  | element {lead : List Char} : lead ≠ [] → Move .between lead .between
  | quote {lead : List Char} {quote : Char} {start : UInt32} : lead ≠ [] →
      Move .between lead (.quoted quote start)
  | slash {lead : List Char} {start : UInt32} : lead ≠ [] → Move .between lead (.block start [])
  | hyphens {lead : List Char} : lead ≠ [] → Move .between lead .note
  | opening {lead : List Char} {comment : Bool} {start : UInt32} {level : Nat} : lead ≠ [] →
      Move .between lead (.bracket comment start level)
  | quoted {lead : List Char} {quote : Char} {start : UInt32} : lead ≠ [] →
      Move (.quoted quote start) lead (.quoted quote start)
  | unquote {lead : List Char} {quote : Char} {start : UInt32} : lead ≠ [] →
      Move (.quoted quote start) lead .between
  | block {start : UInt32} {body : List Char} (x : Char) :
      Move (.block start body) [x] (.block start (x :: body))
  | blockEnd {start : UInt32} {body : List Char} :
      Move (.block start body) ['*', '/'] (.level body.reverse 0)
  | raise {body : List Char} {n : Nat} : n + 1 ≤ body.length →
      Move (.level body n) [] (.level body (n + 1))
  | settle {body : List Char} {n : Nat} : Move (.level body n) [] .between
  | note {lead : List Char} : lead ≠ [] → Move .note lead .note
  | noteEnd : Move .note [] .between
  | bracket {lead : List Char} {comment : Bool} {start : UInt32} {level : Nat} : lead ≠ [] →
      Move (.bracket comment start level) lead (.bracket comment start level)
  | close {lead : List Char} {comment : Bool} {start : UInt32} {level : Nat} : lead ≠ [] →
      Move (.bracket comment start level) lead .between

/-- What comes of a text whose last characters are to be read yet, with `out` written before them; `total`
is the line behind the last character. -/
def finish (total : UInt32) (out cs : List Char) : Except Unterminated (List Char) :=
  (elementsFrom [] (total - breakCount cs) cs).map (writeFrom out)

/-- What comes of a stage: the loop to its end, then the elements behind it. -/
def meaning (c : Cursor) : Stage → Except Unterminated (List Char)
  | .between => finish (lineBehind c.text) c.out c.rest
  | .quoted quote start =>
    match quotedBody quote c.out c.rest with
    | some (out, cs) => finish (lineBehind c.text) (quote :: out) cs
    | none => .error ⟨.quoted, start⟩
  | .block start body =>
    match upTo ['*', '/'] body c.rest with
    | some (body, cs) =>
      finish (lineBehind c.text) ((luaComment body.reverse).reverse ++ c.out) cs
    | none => .error ⟨.block, start⟩
  | .level body n =>
    let level := freeLevel body (body.length + 1 - n) n
    finish (lineBehind c.text) (('-' :: '-' :: opener level ++ body ++ closer level).reverse ++ c.out)
      c.rest
  | .note =>
    finish (lineBehind c.text) ((c.rest.takeWhile (· != '\n')).reverse ++ c.out)
      (c.rest.dropWhile (· != '\n'))
  | .bracket comment start level =>
    match upTo (closer level) c.out c.rest with
    | some (out, cs) => finish (lineBehind c.text) ((closer level).reverse ++ out) cs
    | none => .error ⟨if comment then .block else .bracket, start⟩

/-- A step leaves what comes of a stage as it is: it moves on over some characters, or it has come to the
end. -/
inductive Advances (c : Cursor) (stage : Stage) : Outcome → Prop
  | next {stage' : Stage} {lead : List Char} {d : Cursor} : c.Eats lead d → Move stage lead stage' →
      d.meaning stage' = c.meaning stage → Advances c stage (.next stage' d)
  | ended {result : Except Unterminated (List Char)} : result = c.meaning stage →
      Advances c stage (.ended result)

theorem advances_quoted (c : Cursor) (quote : Char) (start : UInt32) :
    c.Advances (.quoted quote start) (c.step (.quoted quote start)) := by
  cases hrest : c.rest with
  | nil =>
    have hmeaning : c.meaning (.quoted quote start) = .error ⟨.quoted, start⟩ := by
      simp [meaning, hrest, quotedBody]
    rw [step, bump_of_end hrest]
    exact .ended hmeaning.symm
  | cons x cs =>
    obtain ⟨d, hbump, heats, hd, hout⟩ := bump_of_rest hrest
    have hne : [x] ≠ [] := List.cons_ne_nil x []
    have hmeaning : c.meaning (.quoted quote start) = match quotedBody quote c.out (x :: cs) with
      | some (out, cs) => finish (lineBehind c.text) (quote :: out) cs
      | none => .error ⟨.quoted, start⟩ := by rw [meaning, hrest]
    rw [quotedBody.eq_def] at hmeaning
    rw [step, hbump]
    dsimp only at hmeaning ⊢
    split
    · rename_i hbreak
      rw [if_pos hbreak] at hmeaning
      exact .ended hmeaning.symm
    · rename_i hbreak
      rw [if_neg hbreak] at hmeaning
      split
      · rename_i hescape
        rw [if_pos hescape] at hmeaning
        cases cs with
        | nil =>
          rw [bump_of_end (c := d.write ['\\']) hd]
          exact .ended hmeaning.symm
        | cons y cs =>
          obtain ⟨e, hbump', heats', he, hout'⟩ := bump_of_rest (c := d.write ['\\']) hd
          rw [hbump']
          refine .next (((heats.write _).trans heats').write _) (.quoted (by simp)) ?_
          rw [hmeaning, meaning, write_rest, write_out, write_text, he, hout',
            ((heats.write _).trans heats').text]
          simp [hout, hescape]
      · rename_i hescape
        rw [if_neg hescape] at hmeaning
        split
        · rename_i hquote
          rw [if_pos hquote] at hmeaning
          refine .next (heats.write _) (.unquote hne) ?_
          rw [hmeaning, meaning, write_rest, write_out, write_text, hd, hout, heats.text, hquote]
          rfl
        · rename_i hquote
          rw [if_neg hquote] at hmeaning
          refine .next (heats.write _) (.quoted hne) ?_
          rw [hmeaning, meaning, write_rest, write_out, write_text, hd, hout, heats.text]
          rfl

theorem advances_block (c : Cursor) (start : UInt32) (body : List Char) :
    c.Advances (.block start body) (c.step (.block start body)) := by
  have hzero := c.peek_zero
  cases hrest : c.rest with
  | nil =>
    have hmeaning : c.meaning (.block start body) = .error ⟨.block, start⟩ := by
      simp [meaning, hrest, upTo, Text.after?]
    rw [step, hzero, hrest]
    exact .ended hmeaning.symm
  | cons x cs =>
    have hone : c.peek 1 = cs.head? := peek_of_drop (by rw [hrest]; rfl)
    rw [hrest, List.head?_cons] at hzero
    have hmeaning : c.meaning (.block start body) = match upTo ['*', '/'] body (x :: cs) with
      | some (body, cs) =>
        finish (lineBehind c.text) ((luaComment body.reverse).reverse ++ c.out) cs
      | none => .error ⟨.block, start⟩ := by rw [meaning, hrest]
    by_cases hend : x = '*' ∧ cs.head? = some '/'
    · obtain ⟨rfl, hslash⟩ := hend
      obtain ⟨more, rfl⟩ := List.head?_eq_some_iff.1 hslash
      obtain ⟨heats, hmore⟩ := skip_two hrest (by decide) (by decide)
      have hafter : Text.after? ['*', '/'] ('*' :: '/' :: more) = some more := rfl
      rw [step, hzero, hone]
      refine .next heats .blockEnd ?_
      rw [hmeaning, upTo_of_after? hafter, meaning, hmore, heats.text]
      simp [luaComment, commentLevel, skip]
    · obtain ⟨d, hbump, heats, hd, hout⟩ := bump_of_rest hrest
      have hstep : c.step (.block start body) = .next (.block start (x :: body)) d := by
        rw [step, hzero, hone]
        split
        · rename_i hx hy
          exact absurd ⟨Option.some.inj hx, hy⟩ hend
        · rw [hbump]
        · rename_i hx
          cases hx
      have hnone : Text.after? ['*', '/'] (x :: cs) = none := by
        refine Option.eq_none_iff_forall_ne_some.2 fun more hmore => hend ?_
        cases Text.after?_eq_some_iff.1 hmore
        exact ⟨rfl, rfl⟩
      rw [hstep]
      refine .next heats (.block x) ?_
      rw [hmeaning, upTo, hnone, meaning, hd, hout, heats.text]

theorem advances_level (c : Cursor) {body : List Char} {n : Nat} (hn : n ≤ body.length) :
    c.Advances (.level body n) (c.step (.level body n)) := by
  have hfuel : body.length + 1 - n = (body.length - n) + 1 := by omega
  have hsome : (upTo (closer n) [] body).isSome = true ↔ closer n <:+: body := by
    rw [Option.isSome_iff_ne_none, ne_eq, upTo_eq_none_iff, not_not]
  rw [step]
  split
  · rename_i hin
    have hlength := hin.length_le
    simp [closer, equals] at hlength
    refine .next (Eats.refl c) (.raise (by omega)) ?_
    rw [meaning, meaning, hfuel, freeLevel, if_pos (hsome.2 hin),
      show body.length + 1 - (n + 1) = body.length - n by omega]
  · rename_i hout
    refine .next ((Eats.refl c).write _) .settle ?_
    rw [meaning, meaning, hfuel, freeLevel, if_neg (mt hsome.1 hout)]
    rfl

theorem advances_note (c : Cursor) : c.Advances .note (c.step .note) := by
  have hzero := c.peek_zero
  cases hrest : c.rest with
  | nil =>
    rw [step, hzero, hrest]
    refine .next (Eats.refl c) .noteEnd ?_
    simp [meaning, hrest]
  | cons x cs =>
    rw [step, hzero, hrest]
    dsimp only [List.head?_cons]
    split
    · rename_i hbreak
      refine .next (Eats.refl c) .noteEnd ?_
      simp [meaning, hrest, hbreak]
    · rename_i hbreak
      obtain ⟨heats, hcs, hout⟩ := copy_of_rest hrest
      refine .next heats (.note (List.cons_ne_nil x [])) ?_
      simp [meaning, hrest, hcs, hout, heats.text, hbreak]

theorem advances_bracket (c : Cursor) (hpos : c.pos ≤ c.text.length) (comment : Bool)
    (start : UInt32) (level : Nat) :
    c.Advances (.bracket comment start level) (c.step (.bracket comment start level)) := by
  rw [step, if_pos hpos]
  split
  · rename_i hclose
    obtain ⟨more, hmore⟩ := hclose
    have hrest : (c.write (closer level)).rest = closer level ++ more := hmore.symm
    obtain ⟨heats, htail⟩ := skip_of_rest _ hrest (not_mem_closer level)
    have hafter : Text.after? (closer level) c.rest = some more :=
      Text.after?_eq_some_iff.2 hmore.symm
    have hne : closer level ≠ [] := by simp [closer]
    refine .next (((Eats.refl c).write _).trans heats) (.close hne) ?_
    rw [meaning, meaning, upTo_of_after? hafter, htail, heats.text]
    rfl
  · rename_i hopen
    have hnone : Text.after? (closer level) c.rest = none := by
      refine Option.eq_none_iff_forall_ne_some.2 fun more hmore => hopen ⟨more, ?_⟩
      exact (Text.after?_eq_some_iff.1 hmore).symm
    cases hrest : c.rest with
    | nil =>
      have hmeaning : c.meaning (.bracket comment start level) =
          .error ⟨if comment then .block else .bracket, start⟩ := by
        rw [hrest] at hnone
        simp [meaning, hrest, upTo, hnone]
      rw [bump_of_end hrest]
      exact .ended hmeaning.symm
    | cons x cs =>
      obtain ⟨d, hbump, heats, hd, hout⟩ := bump_of_rest hrest
      rw [hbump]
      refine .next (heats.write _) (.bracket (List.cons_ne_nil x [])) ?_
      rw [hrest] at hnone
      rw [meaning, meaning, hrest, upTo, hnone, write_rest, write_out, write_text, hd, hout, heats.text]
      rfl

/-! ### Between two elements -/

/-- The cursor is in its text, and on the line behind the line breaks that it has consumed. -/
structure Sound (c : Cursor) : Prop where
  pos_le : c.pos ≤ c.text.length
  line_eq : c.line = lineBehind (c.text.take c.pos)

theorem Sound.eats (hs : c.Sound) {lead : List Char} (h : c.Eats lead d) : d.Sound where
  pos_le := by
    have hlength := congrArg List.length h.rest
    simp only [rest, List.length_drop, List.length_append, h.text] at hlength
    have hpos := h.pos
    have hin := hs.pos_le
    rw [h.text]
    omega
  line_eq := by
    have htake : d.text.take d.pos = c.text.take c.pos ++ lead := by
      rw [h.text, h.pos, List.take_add, ← rest, h.rest, List.take_left]
    rw [h.line, hs.line_eq, htake, lineBehind_append]

/-- The line of the cursor, told from the end. -/
theorem Sound.line_eq_sub (hs : c.Sound) : c.line = lineBehind c.text - breakCount c.rest := by
  have htext : c.text.take c.pos ++ c.rest = c.text := List.take_append_drop c.pos c.text
  rw [hs.line_eq, ← htext, lineBehind_append, UInt32.add_sub_cancel, htext]

theorem finish_nil (total : UInt32) (out : List Char) : finish total out [] = .ok out.reverse := by
  simp [finish, elementsFrom, Except.map, writeFrom]

theorem finish_of_ok {total : UInt32} {e : Element} {more : List Char}
    (h : nextElement x cs = .ok (e, more)) (out : List Char) :
    finish total out (x :: cs) = finish total ((e.lua out.head? more.head?).reverse ++ out) more := by
  have hline : total - breakCount (x :: cs) + breakCount e.source = total - breakCount more := by
    rw [← nextElement_eq h, breakCount_append]
    grind
  unfold finish
  rw [elementsFrom]
  split
  · rename_i herror
    cases herror.symm.trans h
  · rename_i hok
    cases hok.symm.trans h
    rw [elementsFrom_done, hline]
    cases hmore : elementsFrom [] (total - breakCount more) more with
    | error u => rfl
    | ok es =>
      obtain ⟨fs, hcut, rfl⟩ := elementsFrom_eq_ok [] _ hmore
      show Except.ok (writeFrom _ _) = Except.ok (writeFrom _ _)
      simp only [List.reverse_nil, List.nil_append, List.reverse_cons, List.cons_append, writeFrom,
        hcut.firstChar?_eq]

theorem finish_of_error {total : UInt32} {construct : Construct} (h : nextElement x cs = .error construct)
    (out : List Char) :
    finish total out (x :: cs) = .error ⟨construct, total - breakCount (x :: cs)⟩ := by
  unfold finish
  rw [elementsFrom]
  split
  · rename_i herror
    cases herror.symm.trans h
    rfl
  · rename_i hok
    cases hok.symm.trans h

theorem quotedBody_done (quote : Char) (body done cs : List Char) :
    quotedBody quote (body ++ done) cs =
      (quotedBody quote body cs).map fun read => (read.1 ++ done, read.2) := by
  fun_induction quotedBody quote body cs with
  | case1 => simp [quotedBody]
  | case2 => rw [quotedBody.eq_def]; simp
  | case3 => rw [quotedBody.eq_def]; simp
  | case4 body d ds _ ih =>
    rw [quotedBody.eq_def]
    simpa using ih
  | case5 _ _ hbreak hescape => rw [quotedBody.eq_def]; simp [hbreak, hescape]
  | case6 _ _ _ hbreak hescape hquote ih => rw [← ih, quotedBody.eq_def]; simp [hbreak, hescape, hquote]

theorem upTo_done (stop body done cs : List Char) :
    upTo stop (body ++ done) cs = (upTo stop body cs).map fun read => (read.1 ++ done, read.2) := by
  induction cs generalizing body with
  | nil => simp [upTo, Function.comp_def]
  | cons x cs ih =>
    unfold upTo
    split
    · rfl
    · exact ih (x :: body)

/-- A step over a whole element, which writes it. -/
theorem advances_element {e : Element} {lead more : List Char} (hrest : c.rest = x :: cs)
    (hnext : nextElement x cs = .ok (e, more)) (heats : c.Eats lead d) (hne : lead ≠ [])
    (hd : d.rest = more) (hout : d.out = (e.lua c.out.head? more.head?).reverse ++ c.out) :
    c.Advances .between (.next .between d) := by
  refine .next heats (.element hne) ?_
  rw [meaning, meaning, hd, hout, heats.text, hrest, finish_of_ok hnext]

theorem advances_plain (hrest : c.rest = x :: cs) (hstands : Stands x cs) :
    c.Advances .between (.next .between c.copy) := by
  obtain ⟨heats, hcs, hout⟩ := copy_of_rest hrest
  exact advances_element hrest (nextElement_plain hstands) heats (List.cons_ne_nil x []) hcs hout

theorem advances_quote (hs : c.Sound) (hrest : c.rest = x :: cs) (hquote : x = '"' ∨ x = '\'') :
    c.Advances .between (.next (.quoted x c.line) c.copy) := by
  obtain ⟨heats, hcs, hout⟩ := copy_of_rest hrest
  refine .next heats (.quote (List.cons_ne_nil x [])) ?_
  have hdone := quotedBody_done x [] (x :: c.out) cs
  rw [List.nil_append] at hdone
  rw [meaning, meaning, hcs, hout, heats.text, hrest, hdone]
  cases hbody : quotedBody x [] cs with
  | none =>
    have hnext : nextElement x cs = .error .quoted := by
      unfold nextElement
      rw [if_pos hquote, hbody]
    rw [finish_of_error hnext, hs.line_eq_sub, hrest]
    rfl
  | some read =>
    have hnext : nextElement x cs = .ok (.quoted x read.1.reverse, read.2) := by
      unfold nextElement
      rw [if_pos hquote, hbody]
    rw [finish_of_ok hnext]
    simp [Element.lua, Element.source]

theorem advances_slash (hs : c.Sound) (hrest : c.rest = '/' :: '*' :: cs) :
    c.Advances .between (.next (.block c.line []) (c.skip 2)) := by
  obtain ⟨heats, hcs⟩ := skip_two hrest (by decide) (by decide)
  refine .next heats (.slash (List.cons_ne_nil _ _)) ?_
  rw [meaning, meaning, hcs, heats.text, hrest]
  cases hbody : upTo ['*', '/'] [] cs with
  | none =>
    have hnext : nextElement '/' ('*' :: cs) = .error .block := by simp [nextElement, hbody]
    rw [finish_of_error hnext, hs.line_eq_sub, hrest]
  | some read =>
    have hnext : nextElement '/' ('*' :: cs) = .ok (.block read.1.reverse, read.2) := by
      simp [nextElement, hbody]
    rw [finish_of_ok hnext, lua_block]
    rfl

/-- A step over what opens a long bracket. -/
theorem advances_opening {lead inside : List Char} {comment : Bool} {level : Nat} (hs : c.Sound)
    (hrest : c.rest = x :: cs) (hnext : nextElement x cs = bracketElement comment level inside)
    (heats : c.Eats lead d) (hlead : lead = (if comment then ['-', '-'] else []) ++ opener level)
    (hd : d.rest = inside) (hout : d.out = lead.reverse ++ c.out) :
    c.Advances .between (.next (.bracket comment c.line level) d) := by
  have hne : lead ≠ [] := by simp [hlead, opener]
  refine .next heats (.opening hne) ?_
  have hdone := upTo_done (closer level) [] (lead.reverse ++ c.out) inside
  rw [List.nil_append] at hdone
  rw [bracketElement] at hnext
  rw [meaning, meaning, hd, hout, heats.text, hrest, hdone]
  cases hbody : upTo (closer level) [] inside with
  | none =>
    rw [hbody] at hnext
    rw [finish_of_error hnext, hs.line_eq_sub, hrest]
    rfl
  | some read =>
    rw [hbody] at hnext
    rw [finish_of_ok hnext]
    simp [Element.lua, Element.source, hlead]

theorem advances_hyphens (hs : c.Sound) (hrest : c.rest = '-' :: '-' :: cs) :
    c.Advances .between (match ((c.skip 2).write ['-', '-']).openBracket with
      | (some level, d) => .next (.bracket true c.line level) d
      | (none, d) => .next .note d) := by
  obtain ⟨heats, hcs⟩ := skip_two hrest (by decide) (by decide)
  have hwritten := heats.write ['-', '-']
  cases hlevel : bracketLevel? cs with
  | none =>
    rw [openBracket_of_none (hcs.symm ▸ hlevel)]
    refine .next hwritten (.hyphens (List.cons_ne_nil _ _)) ?_
    have hnext : nextElement '-' ('-' :: cs) =
        .ok (.note (cs.takeWhile (· != '\n')), cs.dropWhile (· != '\n')) := by
      simp [nextElement, hlevel]
    rw [meaning, meaning, write_rest, write_out, hcs, hwritten.text, hrest,
      finish_of_ok hnext]
    simp [Element.lua, Element.source, skip]
  | some read =>
    obtain ⟨d, hopen, hmore, hd, hout⟩ :=
      openBracket_of_some (c := (c.skip 2).write ['-', '-']) (hcs.symm ▸ hlevel)
    rw [hopen]
    have hnext : nextElement '-' ('-' :: cs) = bracketElement true read.1 read.2 := by
      simp [nextElement, hlevel]
    exact advances_opening hs hrest hnext (hwritten.trans hmore) rfl hd (by rw [hout]; simp [skip])

theorem advances_bracketed (hs : c.Sound) (hrest : c.rest = '[' :: cs) :
    c.Advances .between (match c.openBracket with
      | (some level, d) => .next (.bracket false c.line level) d
      | (none, d) => .next .between d.copy) := by
  cases hlevel : bracketLevel? ('[' :: cs) with
  | none =>
    rw [openBracket_of_none (hrest.symm ▸ hlevel)]
    exact advances_plain hrest (stands_bracket hlevel)
  | some read =>
    obtain ⟨d, hopen, hmore, hd, hout⟩ := openBracket_of_some (hrest.symm ▸ hlevel)
    rw [hopen]
    have hnext : nextElement '[' cs = bracketElement false read.1 read.2 := by
      simp [nextElement, hlevel]
    exact advances_opening hs hrest hnext hmore rfl hd hout

/-- A step over the sign of an operator that is written as a word. -/
theorem advances_word {op : WordOp} {lead more : List Char} (hrest : c.rest = x :: cs)
    (hnext : nextElement x cs = .ok (.word op, more)) (hskip : c.Eats lead d ∧ d.rest = more)
    (hne : lead ≠ []) (hout : d.out = c.out) :
    c.Advances .between (.next .between (d.word op.word)) := by
  obtain ⟨heats, hd⟩ := hskip
  rw [word_eq]
  refine advances_element hrest hnext (heats.write _) hne hd ?_
  rw [write_out, hout, hd]
  rfl

theorem bracketLevel?_of_head? (hopen : cs.head? ≠ some '[') (hequals : cs.head? ≠ some '=') :
    bracketLevel? ('[' :: cs) = none := by
  rw [bracketLevel?_eq_none_iff]
  cases cs with
  | nil => exact hopen
  | cons y cs =>
    have hy : y ≠ '=' := fun hy => hequals (congrArg some hy)
    simpa [hy] using hopen

theorem advances_between (hs : c.Sound) : c.Advances .between (c.step .between) := by
  have hzero := c.peek_zero
  cases hrest : c.rest with
  | nil =>
    have hmeaning : c.meaning .between = .ok c.out.reverse := by rw [meaning, hrest, finish_nil]
    rw [step, dispatch, hzero, hrest]
    exact .ended hmeaning.symm
  | cons x cs =>
    have hone : c.peek 1 = cs.head? := peek_of_drop (by rw [hrest]; rfl)
    rw [step, dispatch, hzero, hrest, hone]
    dsimp only [List.head?_cons]
    split
    · exact advances_quote hs hrest (.inl rfl)
    · exact advances_quote hs hrest (.inr rfl)
    · rename_i hsecond
      obtain ⟨more, rfl⟩ := List.head?_eq_some_iff.1 hsecond
      obtain ⟨heats, hmore⟩ := skip_two hrest (by decide) (by decide)
      exact advances_element hrest rfl (heats.write _) (List.cons_ne_nil _ _) hmore rfl
    · rename_i hsecond
      obtain ⟨more, rfl⟩ := List.head?_eq_some_iff.1 hsecond
      exact advances_slash hs hrest
    · rename_i hsecond
      obtain ⟨more, rfl⟩ := List.head?_eq_some_iff.1 hsecond
      exact advances_hyphens hs hrest
    · exact advances_bracketed hs hrest
    · exact advances_bracketed hs hrest
    · rename_i hsecond
      obtain ⟨more, rfl⟩ := List.head?_eq_some_iff.1 hsecond
      obtain ⟨heats, hmore⟩ := skip_two hrest (by decide) (by decide)
      exact advances_element hrest rfl (heats.write _) (List.cons_ne_nil _ _) hmore rfl
    · rename_i hsecond
      obtain ⟨more, rfl⟩ := List.head?_eq_some_iff.1 hsecond
      exact advances_word hrest rfl (skip_two hrest (by decide) (by decide)) (List.cons_ne_nil _ _) rfl
    · rename_i hsecond
      obtain ⟨more, rfl⟩ := List.head?_eq_some_iff.1 hsecond
      exact advances_word hrest rfl (skip_two hrest (by decide) (by decide)) (List.cons_ne_nil _ _) rfl
    · rename_i hsecond
      have hnext : nextElement '!' cs = .ok (.word .not, cs) := nextElement_eq_ok_iff.2 (.not hsecond)
      exact advances_word hrest hnext (skip_of_rest ['!'] hrest (by decide))
        (List.cons_ne_nil _ _) rfl
    · rename_i hquote hquote' hbang hslash hstar hhyphen hopen hequals _ hand hor
      refine advances_plain hrest ⟨⟨hquote, hquote'⟩, hbang, fun hx => ⟨hslash hx, hstar hx⟩, hhyphen,
        hand, hor, ?_⟩
      rintro rfl
      exact bracketLevel?_of_head? (hopen rfl) (hequals rfl)

end Cursor

/-! ### The run -/

open Cursor

variable {source lead : List Char} {stage stage' : Stage} {c d : Cursor}

/-- A level that is looked at is no higher than its comment is long. -/
def Stage.Fits : Stage → Prop
  | .level body n => n ≤ body.length
  | _ => True

/-- The steps that a stage may still take without consuming anything. What a comment has so far is paid
for by the characters it came from. -/
def Stage.left : Stage → Nat
  | .between | .quoted _ _ | .bracket _ _ _ => 0
  | .note => 1
  | .block _ body => body.length
  | .level body n => body.length - n + 1

/-- More steps than an outcome can take. -/
def Outcome.left : Outcome → Nat
  | .next stage c => 2 * c.rest.length + stage.left + 1
  | .ended _ | .overrun => 0

theorem Cursor.Move.fits (h : Move stage lead stage') : stage'.Fits := by
  cases h with
  | blockEnd => exact Nat.zero_le _
  | raise hn => exact hn
  | _ => trivial

theorem Cursor.Move.left_lt (h : Move stage lead stage') :
    stage'.left < stage.left + 2 * lead.length := by
  cases h with
  | block | blockEnd | raise => simp [Stage.left] <;> omega
  | settle | noteEnd => simp [Stage.left]
  | element hne | quote hne | slash hne | hyphens hne | opening hne | quoted hne | unquote hne
  | note hne | bracket hne | close hne =>
    have hlength := List.length_pos_iff.2 hne
    simp [Stage.left]
    omega

/-- A step that consumes nothing leaves a loop or looks at the next level. -/
theorem Cursor.Move.ne_nil_or (h : Move stage lead stage') : lead ≠ [] ∨
    stage ≠ .between ∧ stage' = .between ∨
      ∃ body n, stage = .level body n ∧ stage' = .level body (n + 1) := by
  cases h with
  | block | blockEnd => exact .inl (List.cons_ne_nil _ _)
  | raise => exact .inr (.inr ⟨_, _, rfl, rfl⟩)
  | settle | noteEnd => exact .inr (.inl ⟨nofun, rfl⟩)
  | element hne | quote hne | slash hne | hyphens hne | opening hne | quoted hne | unquote hne
  | note hne | bracket hne | close hne => exact .inl hne

/-- What holds of the cursor at every step through a source. -/
structure Reached (source : List Char) (stage : Stage) (c : Cursor) : Prop where
  text : c.text = source
  sound : c.Sound
  fits : stage.Fits
  meaning : c.meaning stage = finish (lineBehind source) [] source

/-- What holds of an outcome on the way through a source. -/
def Outcome.Reached (source : List Char) : Outcome → Prop
  | .next stage c => Slang.Reached source stage c
  | .ended result => result = finish (lineBehind source) [] source
  | .overrun => False

theorem reached_start (source : List Char) : (Outcome.start source).Reached source :=
  ⟨rfl, ⟨Nat.zero_le _, rfl⟩, trivial, rfl⟩

theorem Reached.advances (h : Reached source stage c) : c.Advances stage (c.step stage) := by
  cases stage with
  | between => exact advances_between h.sound
  | quoted quote start => exact advances_quoted c quote start
  | block start body => exact advances_block c start body
  | level body n => exact advances_level c h.fits
  | note => exact advances_note c
  | bracket comment start level => exact advances_bracket c h.sound.pos_le comment start level

theorem Cursor.Advances.reached {o : Outcome} (ha : c.Advances stage o)
    (h : Reached source stage c) : o.Reached source := by
  cases ha with
  | next heats hmove hmeaning =>
    exact ⟨heats.text.trans h.text, h.sound.eats heats, hmove.fits, hmeaning.trans h.meaning⟩
  | ended hresult => exact hresult.trans h.meaning

theorem Cursor.Advances.left_lt {o : Outcome} (ha : c.Advances stage o) :
    o.left < (Outcome.next stage c).left := by
  cases ha with
  | next heats hmove hmeaning =>
    have hlength := congrArg List.length heats.rest
    have hleft := hmove.left_lt
    simp only [List.length_append] at hlength
    simp only [Outcome.left]
    omega
  | ended hresult => exact Nat.succ_pos _

theorem Reached.step (h : Reached source stage c) : (c.step stage).Reached source :=
  h.advances.reached h

theorem Outcome.Reached.steps {o : Outcome} (h : o.Reached source) (n : Nat) :
    (o.steps n).Reached source := by
  induction n generalizing o with
  | zero => exact h
  | succ n ih =>
    cases o with
    | next stage c => exact ih (Slang.Reached.step h)
    | ended result => exact h
    | overrun => exact h

/-- A run ends within as many steps as it has left. -/
theorem Outcome.Reached.ended {o : Outcome} {n : Nat} (h : o.Reached source) (hn : o.left ≤ n) :
    o.steps n = .ended (finish (lineBehind source) [] source) := by
  induction n generalizing o with
  | zero =>
    cases o with
    | next stage c => exact absurd hn (Nat.not_succ_le_zero _)
    | ended result => exact congrArg Outcome.ended h
    | overrun => exact h.elim
  | succ n ih =>
    cases o with
    | next stage c =>
      have hleft := (Slang.Reached.advances h).left_lt
      exact ih (Slang.Reached.step h) (by omega)
    | ended result => exact congrArg Outcome.ended h
    | overrun => exact h.elim

theorem finish_eq_convert (source : String) :
    finish (lineBehind source.toList) [] source.toList = (convert source).map String.toList := by
  unfold finish convert elements
  rw [lineBehind, UInt32.add_sub_cancel]
  cases elementsFrom [] 1 source.toList with
  | error u => rfl
  | ok es => exact congrArg Except.ok String.toList_ofList.symm

/-- The cursor goes through every source to its end and never asks for the rest of the text behind its
end. On the way it is in the text, on the line behind the line breaks that it has consumed, as they are
counted; in a source with fewer line breaks than the count has room for, that is the number of the line. A level
that it looks at for a comment is no higher than the comment is long. Each of its steps consumes a
character, except for those that leave a loop or look at the next level; a step between two elements
always consumes one. After at most two steps for each character and one more it has ended, with the
translation of the source. -/
theorem scan_ends_in_range (source : String) :
    (∀ n, (Outcome.start source.toList).steps n ≠ .overrun) ∧
    (∀ n stage c, (Outcome.start source.toList).steps n = .next stage c →
      c.pos ≤ source.toList.length ∧ c.line = lineBehind (source.toList.take c.pos) ∧
      (breaks source.toList + 1 < UInt32.size →
        c.line.toNat = 1 + breaks (source.toList.take c.pos)) ∧
      (∀ body k, stage = .level body k → k ≤ body.length) ∧
      ∀ stage' d, c.step stage = .next stage' d →
        c.pos < d.pos ∨ stage ≠ .between ∧ stage' = .between ∨
          ∃ body k, stage = .level body k ∧ stage' = .level body (k + 1)) ∧
    (Outcome.start source.toList).steps (2 * source.toList.length + 1) =
      .ended ((convert source).map String.toList) := by
  have hreached := (reached_start source.toList).steps
  refine ⟨fun n hn => ?_, fun n stage c hn => ?_, ?_⟩
  · have h := hreached n
    rw [hn] at h
    exact h
  · have h : Reached source.toList stage c := by
      have h := hreached n
      rw [hn] at h
      exact h
    have hline : c.line = lineBehind (source.toList.take c.pos) := h.text ▸ h.sound.line_eq
    refine ⟨h.text ▸ h.sound.pos_le, hline, fun hroom => ?_, ?_, fun stage' d hd => ?_⟩
    · rw [hline]
      exact toNat_lineBehind_of_prefix (List.take_prefix _ _) hroom
    · rintro body k rfl
      exact h.fits
    · have hadvances := h.advances
      rw [hd] at hadvances
      cases hadvances with
      | next heats hmove hmeaning =>
        refine hmove.ne_nil_or.imp_left fun hne => ?_
        rw [heats.pos]
        exact Nat.lt_add_of_pos_right (List.length_pos_iff.2 hne)
  · rw [← finish_eq_convert]
    exact (reached_start source.toList).ended (Nat.le_refl _)

end ScriptHost.Compile.Slang
