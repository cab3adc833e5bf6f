import ScriptHost.Compile.LuaBackend
import ScriptHost.Proofs.Lua.Adjacent
import ScriptHost.Proofs.Slang.Directives
import ScriptHost.Proofs.Slang.Verbatim

/-! Lua in a Slang source. What Lua reads of a chunk piece by piece is cut into elements of Lua at the
same places, but for strings that hold a line feed without a backslash right before it. -/

namespace ScriptHost.Compile.Slang

open Lua Lua.Lexer

variable {cs rest text mid : List Char} {c : Char} {e : Element} {es : List Element}
  {line between stop : Nat} {ps : List (Piece Empty)}

/-! ### Texts that are taken as they are -/

/-- A text that is made of elements of Lua. -/
def Passable (cs : List Char) : Prop := ∃ es, Cuts cs es [] ∧ ∀ e ∈ es, e.Verbatim

theorem passable_nil : Passable [] := ⟨[], .nil, List.forall_mem_nil _⟩

theorem Begins.passable_iff (h : Begins cs e rest) (he : e.Verbatim) :
    Passable cs ↔ Passable rest := by
  constructor
  · rintro ⟨es, hcut, hes⟩
    obtain ⟨gs, rfl, hgs⟩ := hcut.resume (.cons h .nil)
    exact ⟨gs, hgs, fun g hg => hes g (List.mem_append_right _ hg)⟩
  · rintro ⟨es, hcut, hes⟩
    exact ⟨e :: es, .cons h hcut, List.forall_mem_cons.2 ⟨he, hes⟩⟩

theorem Stands.passable_iff (h : Stands c rest) : Passable (c :: rest) ↔ Passable rest :=
  (Begins.plain h).passable_iff trivial

theorem passable_append_iff (h : ∀ c ∈ text, c ∉ marks) :
    Passable (text ++ rest) ↔ Passable rest := by
  induction text with
  | nil => rfl
  | cons c text ih =>
    rw [List.forall_mem_cons] at h
    exact (Stands.of_not_mem h.1 _).passable_iff.trans (ih h.2)

/-! ### Strings -/

theorem Begins.exists_quotable {quote : Char} (h : Begins (quote :: cs) e rest)
    (hq : quote = '"' ∨ quote = '\'') :
    ∃ inside, Quotable quote inside ∧ cs = inside ++ quote :: rest := by
  generalize htext : quote :: cs = text at h
  cases h with
  | plain hs =>
    cases htext
    exact (hq.elim hs.quote.1 hs.quote.2).elim
  | quoted _ hi =>
    cases htext
    exact ⟨_, hi, rfl⟩
  | string =>
    rw [opener] at htext
    rcases hq with rfl | rfl <;> cases htext
  | _ => rcases hq with rfl | rfl <;> cases htext

/-- A string that begins here holds a line feed only right behind a backslash. -/
def EscapedAt (cs : List Char) : Prop :=
  ∀ quote rest, cs = quote :: rest → quote = '"' ∨ quote = '\'' →
    ∃ inside after, Quotable quote inside ∧ rest = inside ++ quote :: after

theorem Passable.escapedAt (h : Passable cs) : EscapedAt cs := by
  rintro quote rest rfl hq
  obtain ⟨es, hcut, -⟩ := h
  cases hcut with
  | cons hb =>
    obtain ⟨inside, hi, heq⟩ := hb.exists_quotable hq
    exact ⟨inside, _, hi, heq⟩

theorem passable_quoted_iff {quote : Char} {inside : List Char} (hq : quote = '"' ∨ quote = '\'')
    (hi : Guarded quote inside) (hescaped : EscapedAt (quote :: (inside ++ quote :: rest))) :
    Passable (quote :: (inside ++ quote :: rest)) ↔ Passable rest := by
  obtain ⟨inside', after, hi', heq⟩ := hescaped quote _ rfl hq
  have hback : quote ≠ '\\' := by rcases hq with rfl | rfl <;> decide
  obtain rfl := hi.det (guarded_of_quotable hi') hback heq
  exact (Begins.quoted hq hi').passable_iff trivial

/-! ### Comments -/

/-- A comment of Lua up to the end of its line begins, which only a carriage return ends. -/
def EndsAtReturn (cs : List Char) : Prop :=
  ∃ body rest, cs = '-' :: '-' :: (body ++ '\r' :: rest) ∧
    bracketLevel? (body ++ '\r' :: rest) = none ∧ body.any isBreak = false ∧
    rest.head? ≠ some '\n'

theorem passable_return_iff : Passable ('\r' :: rest) ↔ Passable rest :=
  (Stands.of_not_mem (by decide) _).passable_iff

theorem passable_note_iff {body : List Char} (hl : bracketLevel? (body ++ rest) = none)
    (hbody : body.any isBreak = false) (hrest : ∀ c ∈ rest.head?, isBreak c = true)
    (hreturn : ¬ EndsAtReturn ('-' :: '-' :: (body ++ rest))) :
    Passable ('-' :: '-' :: (body ++ rest)) ↔ Passable rest := by
  have hbreak : '\n' ∉ body := by
    intro hmem
    cases (List.any_eq_true.2 ⟨_, hmem, rfl⟩).symm.trans hbody
  cases rest with
  | nil => exact (Begins.note hl hbreak (.inl rfl)).passable_iff trivial
  | cons c tail =>
    have hc : c = '\n' ∨ c = '\r' := by simpa [isBreak] using hrest c rfl
    rcases hc with rfl | rfl
    · exact (Begins.note hl hbreak (.inr ⟨tail, rfl⟩)).passable_iff trivial
    · -- the carriage return is part of the comment for Slang, and ends it for Lua
      have hhead : tail.head? = some '\n' := by
        by_contra hne
        exact hreturn ⟨body, tail, rfl, hl, hbody, hne⟩
      obtain ⟨tail, rfl⟩ := List.head?_eq_some_iff.1 hhead
      have hsplit : body ++ '\r' :: '\n' :: tail = (body ++ ['\r']) ++ '\n' :: tail := by simp
      rw [hsplit] at hl ⊢
      have hbreak' : '\n' ∉ body ++ ['\r'] := by simpa using hbreak
      exact ((Begins.note hl hbreak' (.inr ⟨tail, rfl⟩)).passable_iff trivial).trans
        passable_return_iff.symm

/-! ### Numerals -/

theorem passable_run_iff {hex : Bool} (h : Run (exponentMark hex) text rest)
    (hlast : text.getLast? = some '-' → rest.head? ≠ some '-') :
    Passable (text ++ rest) ↔ Passable rest := by
  induction h with
  | stop => rfl
  | @go c text rest hc _ _ ih =>
    refine (Stands.of_not_mem (goesOn_solid hc).unmarked _).passable_iff.trans ?_
    refine ih fun hl => hlast ?_
    rw [List.getLast?_cons, hl]
    rfl
  | @signed c s text rest hc hs hrun ih =>
    have hmark : goesOn (exponentMark hex) c = true := by simp [goesOn, hc]
    have hsolid := goesOn_solid hmark
    have hsign : Stands s (text ++ rest) := by
      rcases hs with rfl | rfl
      · exact .of_not_mem (by decide) _
      · -- two hyphens would open a comment, but no character of a numeral is one
        refine stands_hyphen ?_
        have hgo {d : Char} (hd : goesOn (exponentMark hex) d = true) : d ≠ '-' := by
          rintro rfl
          exact (goesOn_solid hd).unmarked (by decide)
        cases hrun with
        | stop => exact hlast rfl
        | go hd => simpa using hgo hd
        | signed hm => simpa using hgo (by simp [goesOn, hm])
    refine (Stands.of_not_mem hsolid.unmarked _).passable_iff.trans (hsign.passable_iff.trans ?_)
    refine ih fun hl => hlast ?_
    rw [List.getLast?_cons, List.getLast?_cons, hl]
    rfl

theorem Leads.not_mem_marks {hex : Bool} {lead : List Char} (h : Leads hex lead rest) :
    ∀ c ∈ lead, c ∉ marks := by
  cases h with
  | hex h =>
    obtain ⟨l, hl, hread⟩ := exists_of_firstM h
    obtain ⟨after, -, heq⟩ := Option.map_eq_some_iff.1 hread
    cases heq
    have hall : ∀ l ∈ hexLeads, ∀ c ∈ l, c ∉ marks := by simp [hexLeads, marks]
    exact hall _ hl
  | decimal => exact List.forall_mem_nil _

theorem passable_numeral_iff {l : Lexeme} (h : Numeral line text l rest) :
    Passable (text ++ rest) ↔ Passable rest := by
  have hlast := h.getLast?_ne_hyphen
  cases h with
  | apart hleads hrun =>
    rw [List.append_assoc]
    refine (passable_append_iff (Leads.not_mem_marks hleads)).trans ?_
    refine passable_run_iff hrun fun hl => absurd ?_ hlast
    rw [List.getLast?_append, hl]
    rfl
  | touching hleads hrun hc =>
    have hsolid := Solid.of_isNameChar (isNameChar_of_isNameStart hc)
    rw [List.append_assoc, List.append_assoc]
    refine (passable_append_iff (Leads.not_mem_marks hleads)).trans ?_
    refine (passable_run_iff hrun ?_).trans ?_
    · rintro - ⟨⟩
      exact hsolid.unmarked (by decide)
    · exact (Stands.of_not_mem hsolid.unmarked _).passable_iff

/-! ### Pieces -/

theorem isSpace_not_mem_marks (h : isSpace c = true) : c ∉ marks := by
  have hall : ∀ d ∈ marks, isSpace d = false := by simp [marks, isSpace]
  exact fun hmem => by cases h.symm.trans (hall c hmem)

theorem wide_not_mem_marks (h : 128 ≤ c.toNat) : c ∉ marks := by
  have hall : ∀ d ∈ marks, d.toNat < 128 := by simp [marks]
  exact fun hmem => absurd (hall c hmem) (Nat.not_lt.2 h)

theorem sign_not_mem_marks {s : Sign} (hs : s ≠ .floorDivide) : ∀ c ∈ s.text.toList, c ∉ marks := by
  cases s <;> first | exact absurd rfl hs | simp [Sign.text, marks]

/-- A character that is a token of its own stands for itself. -/
theorem stands_of_ordinary (hc : Ordinary c) (hbang : c ≠ '!')
    (hhyphen : c = '-' → rest.head? ≠ some '-') (hsign : sign? c rest = none)
    (hclash : ∀ d ∈ ['&', '|', '*'], rest.head? = some d → ¬ Parser.Clash (.char c) (.char d)) :
    Stands c rest where
  quote := by simpa using hc.quote
  bang := hbang
  slash := by
    rintro rfl
    refine ⟨fun hhead => ?_, fun hhead => hclash '*' (by simp) hhead (.inr (.inr ⟨rfl, rfl⟩))⟩
    obtain ⟨tail, rfl⟩ := List.head?_eq_some_iff.1 hhead
    cases hsign
  hyphen := hhyphen
  ampersand := by
    rintro rfl hhead
    exact hclash '&' (by simp) hhead (.inl ⟨rfl, rfl⟩)
  bar := by
    rintro rfl hhead
    exact hclash '|' (by simp) hhead (.inr (.inl ⟨rfl, rfl⟩))
  bracket := by
    rintro rfl
    exact absurd rfl hc.bracket

theorem passable_spells_iff (h : Spells line ps stop text rest)
    (hbang : .char '!' ∉ tokens ps) (hslashes : .sign .floorDivide ∉ tokens ps)
    (hclash : ∀ t ∈ (tokens ps).getLast?, ∀ c ∈ ['&', '|', '*'], rest.head? = some c →
      ¬ Parser.Clash t (.char c))
    (hescaped : EscapedAt (text ++ rest)) (hreturn : ¬ EndsAtReturn (text ++ rest)) :
    Passable (text ++ rest) ↔ Passable rest := by
  cases h with
  | lineBreak hc => exact (Stands.of_not_mem (isBreak_not_mem_marks hc) _).passable_iff
  | pair hc hd =>
    exact (Stands.of_not_mem (isBreak_not_mem_marks hc) _).passable_iff.trans
      (Stands.of_not_mem (isBreak_not_mem_marks hd) _).passable_iff
  | space _ hc => exact (Stands.of_not_mem (isSpace_not_mem_marks hc) _).passable_iff
  | wide _ _ hc => exact (Stands.of_not_mem (wide_not_mem_marks hc) _).passable_iff
  | note hl hbody hrest => exact passable_note_iff hl hbody hrest hreturn
  | @comment level stop body rest hf =>
    have hb : Begins _ (.bracket true level body) rest := .comment hf
    simpa using hb.passable_iff trivial
  | quoted hq hi =>
    simp only [List.cons_append, List.append_assoc, List.nil_append] at hescaped ⊢
    exact passable_quoted_iff hq hi hescaped
  | @string level body rest l hf =>
    have hb : Begins _ (.bracket false level body) rest := .string hf
    simpa using hb.passable_iff trivial
  | bracket hl =>
    exact (stands_bracket hl).passable_iff
  | numeral _ hn => exact passable_numeral_iff hn
  | word hc htext =>
    refine passable_append_iff (List.forall_mem_cons.2 ⟨?_, fun d hd => ?_⟩)
    · exact (Solid.of_isNameChar (isNameChar_of_isNameStart hc)).unmarked
    · exact (Solid.of_isNameChar (List.all_eq_true.1 htext d hd)).unmarked
  | @sign c text rest s _ _ htext =>
    rw [← htext]
    refine passable_append_iff (sign_not_mem_marks ?_)
    rintro rfl
    exact hslashes (by simp [tokens])
  | @char c rest hc _ hhyphen hsign =>
    refine (stands_of_ordinary hc ?_ hhyphen hsign (hclash _ rfl)).passable_iff
    rintro rfl
    exact hbang (by simp [tokens])

/-! ### Chunks -/

theorem throughout_of_not_mem (h : '\r' ∉ cs) :
    Throughout (fun cs => ¬ EndsAtReturn cs) line cs := by
  rintro ps stop _ hreads ⟨body, rest, rfl, -⟩
  exact h (hreads.suffix.mem (by simp))

/-- A text with sound tokens, but for division with two slashes, is made of elements of Lua exactly when
no string in it holds a bare line feed. -/
theorem passable_iff (h : Reads line cs ps stop []) (hsound : Parser.Sound (tokens ps ++ [.eof]))
    (hslashes : .sign .floorDivide ∉ tokens ps)
    (hreturn : Throughout (fun cs => ¬ EndsAtReturn cs) line cs) :
    Passable cs ↔ Throughout EscapedAt line cs := by
  generalize hend : ([] : List Char) = rest at h
  induction h with
  | nil =>
    subst hend
    refine iff_of_true passable_nil fun ps stop rest hreads => ?_
    obtain rfl := List.suffix_nil.1 hreads.suffix
    rintro quote rest ⟨⟩
  | @cons line between stop cs mid rest ps qs htakes hrest ih =>
    -- the tokens of the piece and of what follows are sound, and the two do not clash where they meet
    subst hend
    rw [tokens_append] at hslashes
    rw [tokens_append, List.append_assoc] at hsound
    obtain ⟨-, hchain, hjoin⟩ := List.isChain_append.1 hsound.chain
    obtain ⟨hhere, hlater⟩ := (throughout_iff htakes).1 hreturn
    have hbang := not_or.1 (mt List.mem_append.2 hsound.bang)
    have hslashes := not_or.1 (mt List.mem_append.2 hslashes)
    have hmid := ih ⟨hbang.2, hchain⟩ hslashes.2 hlater rfl
    have hclash : ∀ t ∈ (tokens ps).getLast?, ∀ c ∈ ['&', '|', '*'], mid.head? = some c →
        ¬ Parser.Clash t (.char c) := by
      intro t ht c hc hhead
      obtain ⟨tail, rfl⟩ := List.head?_eq_some_iff.1 hhead
      refine hjoin t ht _ ?_
      rw [List.head?_append, head?_tokens hrest hc]
      rfl
    rw [throughout_iff htakes]
    obtain ⟨text, rfl, hspells⟩ := takes_iff.1 htakes
    have hstep := passable_spells_iff hspells hbang.1 hslashes.1 hclash
    constructor
    · intro hpass
      exact ⟨hpass.escapedAt, hmid.1 ((hstep hpass.escapedAt hhere).1 hpass)⟩
    · rintro ⟨hescaped, hmore⟩
      exact (hstep hescaped hhere).2 (hmid.2 hmore)

theorem exists_parse_of_compile {m : Metadata} {source : String} {a : Artifact}
    (h : LuaBackend.backend.compile m source = .ok a) : ∃ b, parse source = .ok b := by
  cases hparse : parse source with
  | ok b => exact ⟨b, rfl⟩
  | error e =>
    simp only [LuaBackend.backend, LuaBackend.compile, Chunk.load, hparse] at h
    split at h
    · rename_i hload
      split at hload
      · cases hload
      · split at hload <;> cases hload
    · cases h

/-- What is translated to itself has no directives, as a translation never has any. -/
theorem directiveFree_of_convert {source : String} (h : convert (preProcess source) = .ok source) :
    DirectiveFree source.toList := by
  obtain ⟨es, hcut, heq⟩ := convert_eq_ok_iff.1 h
  have hsource : es.flatMap Element.source = (preProcess source).toList := by
    simpa using hcut.source_append
  have hfree : DirectiveFree (es.flatMap Element.source) := hsource ▸ directiveFree_preProcess source
  rw [← heq, String.toList_ofList]
  exact hfree.written none none

/-- A source that Lua accepts, without floor division in its code and without a comment that ends at a
carriage return alone. It goes through unchanged exactly when no line of it is a directive, not even
inside a string or a comment, and its strings between quotes hold line feeds only right behind a
backslash. -/
theorem lua_untouched_iff {m : Metadata} {source : String} {a : Artifact}
    (haccepted : LuaBackend.backend.compile m source = .ok a)
    (hslashes : .sign .floorDivide ∉ (lexemes source).1.map Lexeme.token)
    (hreturn : Throughout (fun cs => ¬ EndsAtReturn cs) 1 source.toList) :
    convert (preProcess source) = .ok source ↔
      DirectiveFree source.toList ∧ Throughout EscapedAt 1 source.toList := by
  obtain ⟨b, hparse⟩ := exists_parse_of_compile haccepted
  obtain ⟨ps, stop, hreads, htokens, hsound⟩ := Parser.reads_of_parse hparse
  rw [htokens, List.mem_append, not_or] at hslashes
  have hpass := passable_iff hreads hsound hslashes.1 hreturn
  constructor
  · intro h
    have hfree := directiveFree_of_convert h
    rw [preProcess_eq_self_iff.2 hfree] at h
    exact ⟨hfree, hpass.1 (convert_eq_self_iff.1 h)⟩
  · rintro ⟨hfree, hescaped⟩
    rw [preProcess_eq_self_iff.2 hfree]
    exact convert_eq_self_iff.2 (hpass.2 hescaped)

/-- Escapes, slashes inside a long string and marks inside a comment go through. -/
theorem lua_untouched_escapes :
    let source := "s = \"\\x41\\n\" .. [[//]] -- /* !"
    LuaBackend.backend.compile ⟨⟨0⟩, "test"⟩ source = .ok ⟨.lua, source⟩ ∧
      .sign .floorDivide ∉ (lexemes source).1.map Lexeme.token ∧
      Throughout (fun cs => ¬ EndsAtReturn cs) 1 source.toList ∧
      convert (preProcess source) = .ok source ∧
      DirectiveFree source.toList ∧ Throughout EscapedAt 1 source.toList := by
  intro source
  have haccepted : LuaBackend.backend.compile ⟨⟨0⟩, "test"⟩ source = .ok ⟨.lua, source⟩ := by
    decide +kernel
  have hslashes : .sign .floorDivide ∉ (lexemes source).1.map Lexeme.token := by decide +kernel
  have hreturn : Throughout (fun cs => ¬ EndsAtReturn cs) 1 source.toList :=
    throughout_of_not_mem (by decide +kernel)
  have hconvert : convert (preProcess source) = .ok source := by decide +kernel
  exact ⟨haccepted, hslashes, hreturn, hconvert,
    (lua_untouched_iff haccepted hslashes hreturn).1 hconvert⟩

/-- Sources that Lua accepts, without floor division and without a directive in their code, that do not
go through unchanged: a string with a line break behind `\z`, one with a line break of two characters
behind a backslash, a comment that only a carriage return ends, and a long string of which one line
looks like a directive. -/
theorem not_lua_untouched :
    (∀ source ∈ ["s = \"a\\z\n  b\"", "s = 'a\\\r\nb'", "-- c\rs = [[\n!]]",
        "s = [[\n#pragma once\n]]"],
      LuaBackend.backend.compile ⟨⟨0⟩, "test"⟩ source = .ok ⟨.lua, source⟩ ∧
        .sign .floorDivide ∉ (lexemes source).1.map Lexeme.token ∧
        convert (preProcess source) ≠ .ok source) ∧
      DirectiveFree "s = \"a\\z\n  b\"".toList ∧ DirectiveFree "s = 'a\\\r\nb'".toList ∧
      DirectiveFree "-- c\rs = [[\n!]]".toList ∧
      (lexemes "s = [[\n#pragma once\n]]").1.map Lexeme.token =
        [.name "s", .char '=', .string (.ofString "#pragma once\n"), .eof] := by
  unfold DirectiveFree
  decide +kernel

end ScriptHost.Compile.Slang
