import Mathlib.Data.List.Basic
import ScriptHost.Proofs.Slang.Cutting
import ScriptHost.Proofs.Slang.LongBracket
import ScriptHost.Proofs.Slang.Passages

/-! Comments after two slashes. The slashes become the two hyphens of a Lua comment, but the text
behind them is read like any other part of the source. It has no say in what follows exactly when it
completes all that it begins and Lua's comment does not end before its line. -/

namespace ScriptHost.Compile.Slang

open Lua (isSpace)
open Lua.Lexer (isBreak comment comment_bracket comment_line)

variable {p c d r x tail : List Char} {es : List Element}

/-! ### Where a comment of Lua ends -/

/-- A comment of Lua with the text `x` ends with its line, which `tail` begins to follow: only
spaces stand between what Lua takes for the comment and the end of that line. -/
def EndsWithLine (x tail : List Char) : Prop :=
  ∀ line, ∃ stop blank, comment line (x ++ tail) = .ok (stop, blank ++ tail) ∧
    blank.all isSpace = true

/-- From its first line break of either spelling on, a text is blank. -/
def trailsOff (cs : List Char) : Bool := (cs.dropWhile fun c => !isBreak c).all isSpace

theorem trailsOff_append (cs ds : List Char) :
    trailsOff (cs ++ ds) =
      if cs.any isBreak then trailsOff cs && ds.all isSpace else trailsOff ds := by
  induction cs with
  | nil => rfl
  | cons c cs ih =>
    by_cases hc : isBreak c = true
    · simp [trailsOff, hc, Bool.and_assoc]
    · simpa [trailsOff, hc] using ih

theorem dropWhile_lineEnd (h : LineEnd tail) :
    (x ++ tail).dropWhile (fun c => !isBreak c) = x.dropWhile (fun c => !isBreak c) ++ tail := by
  induction x with
  | nil => rcases h with rfl | ⟨tail, rfl⟩ <;> simp [isBreak]
  | cons c x ih =>
    by_cases hc : isBreak c = true
    · simp [hc]
    · simpa [hc] using ih

theorem endsWithLine_iff_trailsOff (hx : bracketLevel? (x ++ tail) = none) (ht : LineEnd tail) :
    EndsWithLine x tail ↔ trailsOff x = true := by
  constructor
  · intro h
    obtain ⟨stop, blank, hcomment, hblank⟩ := h 1
    rw [comment_line hx, dropWhile_lineEnd ht] at hcomment
    obtain ⟨-, heq⟩ := Prod.mk.inj (Except.ok.inj hcomment)
    rw [trailsOff, List.append_cancel_right heq]
    exact hblank
  · intro h line
    exact ⟨line, _, by rw [comment_line hx, dropWhile_lineEnd ht], h⟩

theorem endsWithLine_iff_blank {level : Nat} {body : List Char}
    (hf : FreeOf (closer level) body) :
    EndsWithLine (opener level ++ (body ++ (closer level ++ x))) tail ↔ x.all isSpace = true := by
  have hread (line : Nat) : ∃ stop, comment line
      (opener level ++ (body ++ (closer level ++ x)) ++ tail) = .ok (stop, x ++ tail) := by
    obtain ⟨stop, h⟩ := comment_bracket hf line
    exact ⟨stop, by simpa using h (x ++ tail)⟩
  constructor
  · intro h
    obtain ⟨stop, blank, hcomment, hblank⟩ := h 1
    obtain ⟨stop', hread⟩ := hread 1
    obtain ⟨-, heq⟩ := Prod.mk.inj (Except.ok.inj (hread.symm.trans hcomment))
    rw [List.append_cancel_right heq]
    exact hblank
  · intro h line
    obtain ⟨stop, hread⟩ := hread line
    exact ⟨stop, x, hread, h⟩

/-! ### What translation keeps of a comment -/

theorem blank_lua (e : Element) (before after : Option Char) :
    (e.lua before after).all isSpace = e.source.all isSpace := by
  cases e with
  | word op => cases op <;> simp [Element.lua, Element.source, WordOp.word, WordOp.sign, isSpace]
  | _ => simp [Element.lua, Element.source, isSpace]

theorem breaks_lua (e : Element) (before after : Option Char) :
    (e.lua before after).any isBreak = e.source.any isBreak := by
  cases e with
  | word op =>
    rcases spaceBefore_cases before with hb | hb <;> rcases spaceAfter_cases after with ha | ha <;>
      cases op <;> simp [Element.lua, Element.source, WordOp.word, WordOp.sign, isBreak, hb, ha]
  | block body => simp [Element.lua, Element.source, opener, closer, isBreak, equals]
  | _ => simp [Element.lua, Element.source, isBreak]

theorem trailsOff_of_no_break {cs : List Char} (h : cs.any isBreak = false) :
    trailsOff cs = true := by
  have := trailsOff_append cs []
  simpa [h, trailsOff] using this

/-- Between two marks a text trails off only when it has no line break. -/
theorem trailsOff_between (lead body stop : List Char) (hlead : lead.any isBreak = false)
    (hstop : stop.any isBreak = false) (hmark : stop.all isSpace = false) :
    trailsOff (lead ++ (body ++ stop)) = !body.any isBreak := by
  rw [trailsOff_append, hlead, trailsOff_append, trailsOff_of_no_break hstop, hmark]
  cases body.any isBreak <;> simp

theorem trailsOff_lua (e : Element) (before after : Option Char) :
    trailsOff (e.lua before after) = trailsOff e.source := by
  cases e with
  | word op =>
    have hnone : (Element.word op).source.any isBreak = false := by cases op <;> rfl
    rw [trailsOff_of_no_break hnone, trailsOff_of_no_break (by rw [breaks_lua, hnone])]
  | block body =>
    have hsource := trailsOff_between ['/', '*'] body ['*', '/'] rfl rfl rfl
    have hlua (level : Nat) := trailsOff_between ('-' :: '-' :: opener level) body (closer level)
      (by simp [opener, equals, isBreak]) (by simp [closer, equals, isBreak])
      (by simp [closer, isSpace])
    simpa [Element.lua, Element.source] using (hlua _).trans hsource.symm
  | _ => rfl

/-- A text is translated to a blank one exactly when it is blank. -/
theorem blank_written (after before : Option Char) (es : List Element) :
    (written after before es).all isSpace = (es.flatMap Element.source).all isSpace := by
  induction es generalizing before with
  | nil => rfl
  | cons e es ih => simp only [written, List.flatMap_cons, List.all_append, blank_lua, ih]

theorem trailsOff_written (after before : Option Char) (es : List Element) :
    trailsOff (written after before es) = trailsOff (es.flatMap Element.source) := by
  induction es generalizing before with
  | nil => rfl
  | cons e es ih =>
    simp only [written, List.flatMap_cons, trailsOff_append, breaks_lua, trailsOff_lua,
      blank_written, ih]

/-- An element is written as it is, or neither it nor what is written for it begins like a part of a
long bracket's opening. -/
theorem lua_cases (e : Element) (before after : Option Char) :
    e.lua before after = e.source ∨
      ∃ c cs d ds, e.lua before after = c :: cs ∧ e.source = d :: ds ∧
        (c ≠ '[' ∧ c ≠ '=') ∧ (d ≠ '[' ∧ d ≠ '=') := by
  cases e with
  | word op =>
    rcases spaceBefore_cases before with hb | hb <;> cases op <;>
      simp [Element.lua, Element.source, WordOp.word, WordOp.sign, hb]
  | notEqual | slashes | block => simp [Element.lua, Element.source]
  | _ => exact .inl rfl

theorem opensAfter_written (after before : Option Char) (es : List Element) :
    opensAfter (written after before es) ↔ opensAfter (es.flatMap Element.source) := by
  induction es generalizing before with
  | nil => exact Iff.rfl
  | cons e es ih =>
    rw [written, List.flatMap_cons]
    rcases lua_cases e before ((firstChar? es).or after) with h | ⟨c, cs, d, ds, hc, hd, hcne, hdne⟩
    · rw [h]
      exact opensAfter_append (ih _) _
    · rw [hc, hd]
      simp [opensAfter, hcne, hdne]

theorem bracketLevel?_written (after before : Option Char) (es : List Element) :
    bracketLevel? (written after before es) = none ↔
      bracketLevel? (es.flatMap Element.source) = none := by
  cases es with
  | nil => exact Iff.rfl
  | cons e es =>
    rw [written, List.flatMap_cons]
    rcases lua_cases e before ((firstChar? es).or after) with h | ⟨c, cs, d, ds, hc, hd, hcne, hdne⟩
    · rw [h]
      obtain ⟨d, ds, hd⟩ := List.exists_cons_of_ne_nil (source_ne_nil e)
      rw [hd]
      exact bracketLevel?_cons_append_congr (opensAfter_written _ _ es) d ds
    · rw [hc, hd]
      simp [bracketLevel?_cons_of_ne hcne.1, bracketLevel?_cons_of_ne hdne.1]

theorem Begins.string_or_none {e : Element} {rest : List Char} (h : Begins c e rest) :
    (∃ level body, FreeOf (closer level) body ∧ e = .bracket false level body ∧
      c = opener level ++ (body ++ (closer level ++ rest))) ∨ bracketLevel? c = none := by
  cases h with
  | @string level body _ hf => exact .inl ⟨level, body, hf, rfl, rfl⟩
  | @plain c rest hs =>
    by_cases hc : c = '['
    · subst hc
      exact .inr (hs.bracket rfl)
    · exact .inr (bracketLevel?_cons_of_ne hc)
  | quoted hq _ => exact .inr (bracketLevel?_cons_of_ne (by rcases hq with rfl | rfl <;> decide))
  | _ => exact .inr rfl

/-- A comment written as Lua ends with its line exactly when its text does as it stands. -/
theorem endsWithLine_written (h : Cuts c es []) (ht : LineEnd tail) (after before : Option Char) :
    EndsWithLine (written after before es) tail ↔ EndsWithLine c [] := by
  have hsource : es.flatMap Element.source = c := by simpa using h.source_append
  have hline : bracketLevel? c = none →
      (EndsWithLine (written after before es) tail ↔ EndsWithLine c []) := by
    intro hc
    have hx : bracketLevel? (written after before es) = none :=
      (bracketLevel?_written after before es).2 (by rwa [hsource])
    rw [endsWithLine_iff_trailsOff _ ht, endsWithLine_iff_trailsOff _ (.inl rfl),
      trailsOff_written, hsource]
    · rwa [List.append_nil]
    · exact bracketLevel?_append hx (fun _ => ht) fun _ _ => .inr ht
  cases h with
  | nil => exact hline rfl
  | @cons _ mid _ e es hb hcut =>
    rcases hb.string_or_none with ⟨level, body, hf, rfl, rfl⟩ | hc
    · have hmid : es.flatMap Element.source = mid := by simpa using hcut.source_append
      have hlua (before after : Option Char) (text : List Char) :
          (Element.bracket false level body).lua before after ++ text =
            opener level ++ (body ++ (closer level ++ text)) := by
        simp [Element.lua, Element.source]
      rw [written, hlua, endsWithLine_iff_blank hf, endsWithLine_iff_blank hf, blank_written, hmid]
    · exact hline hc

/-! ### A source with a comment -/

/-- A source that has a comment after two slashes: `p` before them, `c` behind them, and `r` from
the end of their line on. -/
def withComment (p c r : List Char) : List Char := p ++ '/' :: '/' :: (c ++ r)

/-- Two slashes behind a text stand in code: the text is cut up right where they begin. -/
def InCode (p : List Char) : Prop := ∃ es, Cuts (withComment p [] []) es ['/', '/']

/-- The text of a comment completes all that it begins, and Lua's comment of that text ends with its
line. -/
def Harmless (c : List Char) : Prop := (∃ es, elements c = .ok es) ∧ EndsWithLine c []

theorem harmless_nil : Harmless [] :=
  ⟨⟨[], elements_eq_ok_iff.2 .nil⟩, (endsWithLine_iff_trailsOff rfl (.inl rfl)).2 rfl⟩

/-- Two outcomes of a translation that differ in the text of one comment after `head`, if at all. In
both, Lua reads what follows the line of the comment as it reads it alone. -/
inductive Alike (head : List Char) :
    Except Unterminated String → Except Unterminated String → Prop
  | failed (e : Unterminated) : Alike head (.error e) (.error e)
  | translated {x y tail : List Char} : '\n' ∉ x → '\n' ∉ y → LineEnd tail →
      EndsWithLine x tail → EndsWithLine y tail →
      Alike head (.ok (String.ofList (head ++ '-' :: '-' :: (x ++ tail))))
        (.ok (String.ofList (head ++ '-' :: '-' :: (y ++ tail))))

/-- The comments `c` and `d` do not tell in the translation, but for their own text. -/
def SameButComment (p c d r : List Char) : Prop :=
  ∃ head, convert (String.ofList (withComment p [] [])) = .ok (String.ofList (head ++ ['-', '-'])) ∧
    Alike head (convert (String.ofList (withComment p c r)))
      (convert (String.ofList (withComment p d r)))

theorem inCode_plains (h : ∀ c ∈ p, c ∉ marks) : InCode p := ⟨_, Cuts.plains h⟩

theorem InCode.cuts {fs : List Element} (hp : Cuts (withComment p [] []) fs ['/', '/'])
    (c : List Char) : Cuts (p ++ '/' :: '/' :: c) (fs ++ [.slashes]) c := by
  have hsettled : Settled ['/', '/'] c := .inl ⟨'/', by simp, by decide⟩
  have hcut := hp.append hsettled
  refine Cuts.trans (by simpa [withComment] using hcut) (.cons .slashes .nil)

theorem written_after_lineEnd {after : Option Char} (ha : after = none ∨ after = some '\n')
    (before : Option Char) (es : List Element) :
    written after before es = written none before es := by
  have hlua (e : Element) (before next : Option Char) :
      e.lua before (next.or after) = e.lua before (next.or none) := by
    cases next with
    | none => rcases ha with rfl | rfl <;> rfl
    | some c => rfl
  induction es generalizing before with
  | nil => rfl
  | cons e es ih => rw [written, written, hlua, ih]

/-- A source with a comment that completes what it begins is read as far as what follows it is, and
each part is written for itself. -/
theorem convert_withComment {ps fs : List Element} (hp : Cuts (withComment p [] []) ps ['/', '/'])
    (hc : Cuts c fs []) (hn : '\n' ∉ c) (hr : LineEnd r) :
    convert (String.ofList (withComment p c r)) =
      (elementsFrom [] (lineBehind (ps.flatMap Element.source)) r).map fun rs =>
        String.ofList (written (some '/') none ps ++
          '-' :: '-' :: (written none (some '-') fs ++ written none none rs)) := by
  have hsettled : Settled [] r := .inr hr
  have hcut : Cuts (withComment p c r) (ps ++ [.slashes] ++ fs) r := by
    have hrest := hc.append hsettled
    rw [List.nil_append] at hrest
    exact (InCode.cuts hp (c ++ r)).trans hrest
  have hbreaks : breakCount ((ps ++ [Element.slashes] ++ fs).flatMap Element.source) =
      breakCount (ps.flatMap Element.source) := by
    have hfs : fs.flatMap Element.source = c := by simpa using hc.source_append
    simp [breakCount, Text.breaks, List.count_eq_zero.2 hn, hfs, Element.source]
  rw [convert, elements, String.toList_ofList, hcut.elementsFrom, elementsFrom_done, hbreaks, ← lineBehind]
  cases hread : elementsFrom [] (lineBehind (ps.flatMap Element.source)) r with
  | error e => rfl
  | ok rs =>
    obtain ⟨_, hrs, rfl⟩ := elementsFrom_eq_ok [] _ hread
    have hends := lineEnd_written (hrs.lineEnd hr)
    have hfs := written_after_lineEnd (hends none).2.2 (some '-') fs
    have hwritten : written none none (ps ++ .slashes :: (fs ++ rs)) =
        written (some '/') none ps ++
          '-' :: '-' :: (written none (some '-') fs ++ written none none rs) := by
      rw [written_append, written, written_append, (hends _).1, ← hfs]
      rfl
    simp [Except.map, writeFrom_eq, hwritten]

theorem exists_cuts_of_convert_withComment {ps : List Element} {t : String}
    (hp : Cuts (withComment p [] []) ps ['/', '/'])
    (h : convert (String.ofList (withComment p c [])) = .ok t) : ∃ fs, Cuts c fs [] := by
  have hcut := InCode.cuts hp c
  rw [withComment, List.append_nil, convert, elements, String.toList_ofList,
    hcut.elementsFrom] at h
  generalize hread : elementsFrom _ _ c = read at h
  cases read with
  | error e => cases h
  | ok es =>
    obtain ⟨fs, hfs, -⟩ := elementsFrom_eq_ok _ _ hread
    exact ⟨fs, hfs⟩

/-- The empty comment at the end of the source already shows what goes wrong. -/
theorem harmless_of_sameButComment_nil (hp : InCode p) (hc : '\n' ∉ c)
    (h : SameButComment p c [] []) : Harmless c := by
  obtain ⟨ps, hps⟩ := hp
  obtain ⟨head, hhead, halike⟩ := h
  have hwithout := convert_withComment hps .nil (by simp) (.inl rfl)
  simp only [elementsFrom, List.reverse_nil, Except.map, written, List.append_nil] at hwithout
  rw [hwithout, Except.ok.injEq, String.ofList_inj, List.append_cancel_right_eq] at hhead
  generalize hleft : convert (String.ofList (withComment p c [])) = left at halike
  generalize hright : convert (String.ofList (withComment p [] [])) = right at halike
  cases halike with
  | failed e => cases hwithout.symm.trans hright
  | @translated x y tail _ _ _ hxline _ =>
    obtain ⟨fs, hfs⟩ := exists_cuts_of_convert_withComment hps hleft
    have hwith := convert_withComment hps hfs hc (.inl rfl)
    simp only [elementsFrom, List.reverse_nil, Except.map, written, List.append_nil] at hwith
    have hy := hwithout.symm.trans hright
    have hx := hwith.symm.trans hleft
    rw [Except.ok.injEq, String.ofList_inj, hhead, List.append_cancel_left_eq] at hx hy
    simp only [List.cons.injEq, true_and, List.nil_eq, List.append_eq_nil_iff] at hx hy
    obtain ⟨-, rfl⟩ := hy
    refine ⟨⟨fs, elements_eq_ok_iff.2 hfs⟩, ?_⟩
    rw [← endsWithLine_written hfs (.inl rfl) none (some '-'), hx, List.append_nil]
    exact hxline

theorem Harmless.sameButComment (h : Harmless c) (h' : Harmless d) (hp : InCode p) (hc : '\n' ∉ c)
    (hd : '\n' ∉ d) (hr : LineEnd r) : SameButComment p c d r := by
  obtain ⟨ps, hps⟩ := hp
  obtain ⟨⟨fs, hfs⟩, hcline⟩ := h
  obtain ⟨⟨gs, hgs⟩, hdline⟩ := h'
  rw [elements_eq_ok_iff] at hfs hgs
  refine ⟨written (some '/') none ps, ?_, ?_⟩
  · rw [convert_withComment hps .nil (by simp) (.inl rfl)]
    simp [elementsFrom, Except.map, written]
  · rw [convert_withComment hps hfs hc hr, convert_withComment hps hgs hd hr]
    cases hread : elementsFrom [] (lineBehind (ps.flatMap Element.source)) r with
    | error e => exact .failed e
    | ok rs =>
      obtain ⟨_, hrs, rfl⟩ := elementsFrom_eq_ok [] _ hread
      have htail := (lineEnd_written (hrs.lineEnd hr) none).2.1
      refine .translated ?_ ?_ htail ((endsWithLine_written hfs htail none _).2 hcline)
        ((endsWithLine_written hgs htail none _).2 hdline)
      · exact newline_written _ _ _ (by rwa [← hfs.source_append, List.append_nil] at hc)
      · exact newline_written _ _ _ (by rwa [← hgs.source_append, List.append_nil] at hd)

/-- A comment compares with every harmless one, before any rest of the source, exactly when it is
harmless itself. -/
theorem sameButComment_iff_harmless (hp : InCode p) (hc : '\n' ∉ c) :
    (∀ d r, '\n' ∉ d → Harmless d → LineEnd r → SameButComment p c d r) ↔ Harmless c := by
  constructor
  · intro h
    exact harmless_of_sameButComment_nil hp hc (h [] [] (by simp) harmless_nil (.inl rfl))
  · intro h d r hd hharmless hr
    exact h.sameButComment hharmless hp hc hd hr

/-- An operator in a comment does no harm. -/
theorem sameButComment_operator : InCode ['x'] ∧ '\n' ∉ [' ', '!'] ∧
    ∀ d r, '\n' ∉ d → Harmless d → LineEnd r → SameButComment ['x'] [' ', '!'] d r := by
  have hp : InCode ['x'] := inCode_plains (by simp [marks])
  have hc : '\n' ∉ [' ', '!'] := by decide
  have helements : elements [' ', '!'] = .ok [.plain ' ', .word .not] := by cbv
  have hline : EndsWithLine [' ', '!'] [] := (endsWithLine_iff_trailsOff rfl (.inl rfl)).2 rfl
  exact ⟨hp, hc, (sameButComment_iff_harmless hp hc).2 ⟨⟨_, helements⟩, hline⟩⟩

/-- An apostrophe in a comment opens a string, so that the source has no translation, which it has
with an empty comment. -/
theorem not_sameButComment_apostrophe :
    InCode "x = 1 ".toList ∧ '\n' ∉ " don't".toList ∧ LineEnd "\ny = !x".toList ∧
      ¬ SameButComment "x = 1 ".toList " don't".toList [] "\ny = !x".toList := by
  have hwith : convert (String.ofList
      (withComment "x = 1 ".toList " don't".toList "\ny = !x".toList)) = .error ⟨.quoted, 1⟩ := by
    cbv
  have hwithout : convert (String.ofList (withComment "x = 1 ".toList [] "\ny = !x".toList)) =
      .ok "x = 1 --\ny = not x" := by cbv
  refine ⟨inCode_plains (by simp [marks]), by decide, .inr ⟨_, rfl⟩, ?_⟩
  rintro ⟨head, -, halike⟩
  rw [hwith, hwithout] at halike
  cases halike

end ScriptHost.Compile.Slang
