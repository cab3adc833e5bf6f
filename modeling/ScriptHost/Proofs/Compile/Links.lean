import ScriptHost.Proofs.Compile.Header

/-! Front ends as rows of links over a back end. However many links there are, a source meets the first
one that fails, or else the back end meets what they make of it. `Yields` and `Compiles` say so without
recursion on the links, and give every outcome of a compilation and no other. -/

namespace ScriptHost.Compile

variable {links before after ts : List Translator} {t : Translator} {backend : Backend} {m : Metadata}
  {source text : String}

/-! ### Links in a row -/

/-- Links make a text of a source, each from what the one before it has made. -/
inductive Translates : List Translator → String → String → Prop
  | nil {source : String} : Translates [] source source
  | cons {t : Translator} {ts : List Translator} {source mid text : String} :
      t.convert (t.preProcess source) = .ok mid → Translates ts mid text →
      Translates (t :: ts) source text

/-- All links translate, or there is a first one that does not. -/
theorem translates_or_fails (links : List Translator) (source : String) :
    (∃ text, Translates links source text) ∨
      ∃ before t after text e, links = before ++ t :: after ∧ Translates before source text ∧
        t.convert (t.preProcess text) = .error e := by
  induction links generalizing source with
  | nil => exact .inl ⟨source, .nil⟩
  | cons t ts ih =>
    cases hfirst : t.convert (t.preProcess source) with
    | error e => exact .inr ⟨[], t, ts, source, e, rfl, .nil, hfirst⟩
    | ok mid =>
      rcases ih mid with ⟨text, htext⟩ | ⟨before, u, after, text, e, rfl, htext, he⟩
      · exact .inl ⟨text, .cons hfirst htext⟩
      · exact .inr ⟨t :: before, u, after, text, e, rfl, .cons hfirst htext, he⟩

/-! ### One front end -/

namespace FrontEnd

/-- What a front end makes of a source. -/
inductive Yields (f : FrontEnd) (m : Metadata) (source : String) :
    Except CompileError CompiledUnit → Prop
  /-- A link fails, whatever stands behind it. -/
  | untranslated {before after : List Translator} {t : Translator} {text : String}
      {e : TranslateError} : f.links = before ++ t :: after → Translates before source text →
      t.convert (t.preProcess text) = .error e →
      Yields f m source (.error ⟨t.language, .translate, e.line, e.message⟩)
  /-- The back end refuses what the links make of the source. -/
  | refused {text : String} {e : CompileError} : Translates f.links source text →
      f.backend.compile m text = .error e → Yields f m source (.error e)
  /-- The back end accepts it. The unit counts as written in the language of the front end. -/
  | accepted {text : String} {a : Artifact} : Translates f.links source text →
      f.backend.compile m text = .ok a → Yields f m source (.ok ⟨m.script, f.language, a⟩)

theorem compileWith_untranslated {e : TranslateError} (h : Translates before source text)
    (he : t.convert (t.preProcess text) = .error e) :
    compileWith backend m (before ++ t :: after) source =
      .error ⟨t.language, .translate, e.line, e.message⟩ := by
  induction h with
  | nil => simp only [List.nil_append, compileWith, he]
  | cons hfirst _ ih => simp only [List.cons_append, compileWith, hfirst, ih he, Except.map]

theorem compileWith_refused {e : CompileError} (h : Translates links source text)
    (he : backend.compile m text = .error e) : compileWith backend m links source = .error e := by
  induction h with
  | nil => simp only [compileWith, he, Except.map]
  | cons hfirst _ ih => simp only [compileWith, hfirst, ih he, Except.map]

theorem compileWith_accepted {a : Artifact} (h : Translates links source text)
    (ha : backend.compile m text = .ok a) :
    compileWith backend m links source =
      .ok ⟨m.script, (FrontEnd.mk links backend).language, a⟩ := by
  induction h with
  | nil => simp only [compileWith, ha, Except.map, language]
  | cons hfirst _ ih => simp only [compileWith, hfirst, ih ha, Except.map, language]

/-- A front end makes of a source exactly what its links and its back end make of it. -/
theorem compile_eq_iff {f : FrontEnd} {r : Except CompileError CompiledUnit} :
    f.compile m source = r ↔ f.Yields m source r := by
  constructor
  · rintro rfl
    rcases translates_or_fails f.links source with
      ⟨text, htext⟩ | ⟨before, t, after, text, e, hlinks, htext, he⟩
    · cases hback : f.backend.compile m text with
      | error e =>
        rw [compile, compileWith_refused htext hback]
        exact .refused htext hback
      | ok a =>
        rw [compile, compileWith_accepted htext hback]
        exact .accepted htext hback
    · rw [compile, hlinks, compileWith_untranslated htext he]
      exact .untranslated hlinks htext he
  · intro h
    cases h with
    | untranslated hlinks htext he => rw [compile, hlinks, compileWith_untranslated htext he]
    | refused htext he => exact compileWith_refused htext he
    | accepted htext ha => exact compileWith_accepted htext ha

end FrontEnd

/-! ### Front ends side by side -/

namespace Compiler

variable {default l : Language} {frontEnds : List FrontEnd} {f : FrontEnd} {body : String}

/-- The compiler with some front ends, put in one after the other. -/
def ofFrontEnds (default : Language) (frontEnds : List FrontEnd) : Compiler :=
  frontEnds.foldl add (empty default)

/-- The front end that is put in last for a language. -/
def Latest (frontEnds : List FrontEnd) (l : Language) (f : FrontEnd) : Prop :=
  f.language = l ∧
    ∃ before after, frontEnds = before ++ f :: after ∧ ∀ g ∈ after, g.language ≠ l

theorem frontEnd?_add (c : Compiler) (f : FrontEnd) (l : Language) :
    (c.add f).frontEnd? l = if f.language = l then some f else c.frontEnd? l := by
  by_cases hl : f.language = l
  · subst hl
    rw [if_pos rfl, frontEnd?_add_self]
  · rw [if_neg hl, frontEnd?, frontEnd?, add, List.find?_cons_of_neg (by simpa using hl),
      List.find?_filter]
    congr 1
    funext g
    -- Front ends for the language asked for are not among those that the new one takes away.
    by_cases hg : g.language = l
    · simpa [hg] using Ne.symm hl
    · simp [hg]

theorem frontEnd?_foldl_add (c : Compiler) (frontEnds : List FrontEnd) (l : Language) :
    (frontEnds.foldl add c).frontEnd? l =
      (frontEnds.reverse.find? (·.language == l)).or (c.frontEnd? l) := by
  induction frontEnds generalizing c with
  | nil => rfl
  | cons f fs ih =>
    rw [List.foldl_cons, ih, frontEnd?_add, List.reverse_cons, List.find?_append]
    cases fs.reverse.find? (·.language == l) with
    | some g => rfl
    | none => by_cases hf : f.language = l <;> simp [hf]

theorem default_ofFrontEnds (default : Language) (frontEnds : List FrontEnd) :
    (ofFrontEnds default frontEnds).default = default := by
  suffices h : ∀ c : Compiler, (frontEnds.foldl add c).default = c.default from h _
  intro c
  induction frontEnds generalizing c with
  | nil => rfl
  | cons f fs ih => exact ih _

theorem frontEnd?_ofFrontEnds :
    (ofFrontEnds default frontEnds).frontEnd? l = some f ↔ Latest frontEnds l f := by
  have hempty : (empty default).frontEnd? l = none := rfl
  rw [ofFrontEnds, frontEnd?_foldl_add, hempty, Option.or_none, List.find?_eq_some_iff_append]
  constructor
  · rintro ⟨hl, later, earlier, hsplit, hlater⟩
    refine ⟨by simpa using hl, earlier.reverse, later.reverse, ?_, fun g hg => ?_⟩
    · simpa using congrArg List.reverse hsplit
    · simpa using hlater g (List.mem_reverse.1 hg)
  · rintro ⟨hl, earlier, later, rfl, hlater⟩
    refine ⟨by simpa using hl, later.reverse, earlier.reverse, by simp, fun g hg => ?_⟩
    simpa using hlater g (List.mem_reverse.1 hg)

theorem frontEnd?_ofFrontEnds_eq_none :
    (ofFrontEnds default frontEnds).frontEnd? l = none ↔ ∀ f ∈ frontEnds, f.language ≠ l := by
  have hempty : (empty default).frontEnd? l = none := rfl
  rw [ofFrontEnds, frontEnd?_foldl_add, hempty, Option.or_none]
  simp

theorem exists_latest (h : ∃ f ∈ frontEnds, f.language = l) : ∃ f, Latest frontEnds l f := by
  cases hf : (ofFrontEnds l frontEnds).frontEnd? l with
  | some f => exact ⟨f, frontEnd?_ofFrontEnds.1 hf⟩
  | none =>
    obtain ⟨f, hmem, hl⟩ := h
    exact absurd hl (frontEnd?_ofFrontEnds_eq_none.1 hf f hmem)

/-- What a compiler with some front ends makes of a source. -/
inductive Compiles (default : Language) (frontEnds : List FrontEnd) (m : Metadata) (source : String) :
    Except CompileError CompiledUnit → Prop
  | missing {l : Language} {body : String} : Selects default source l body →
      (∀ f ∈ frontEnds, f.language ≠ l) → Compiles default frontEnds m source (.error (missing l))
  | frontEnd {l : Language} {body : String} {f : FrontEnd}
      {r : Except CompileError CompiledUnit} : Selects default source l body →
      Latest frontEnds l f → f.Yields m body r → Compiles default frontEnds m source r

theorem compile_of_latest (hs : Selects default source l body) (hf : Latest frontEnds l f) :
    (ofFrontEnds default frontEnds).compile m source = f.compile m body := by
  rw [← default_ofFrontEnds default frontEnds, ← resolve_eq_iff] at hs
  simp only [compile, hs, frontEnd?_ofFrontEnds.2 hf]

theorem compile_of_missing (hs : Selects default source l body)
    (hf : ∀ f ∈ frontEnds, f.language ≠ l) :
    (ofFrontEnds default frontEnds).compile m source = .error (missing l) := by
  rw [← default_ofFrontEnds default frontEnds, ← resolve_eq_iff] at hs
  simp only [compile, hs, frontEnd?_ofFrontEnds_eq_none.2 hf]

theorem exists_selects (default : Language) (source : String) :
    ∃ l body, Selects default source l body :=
  ⟨_, _, (resolve_eq_iff (c := empty default)).1 rfl⟩

/-- A compiler makes of a source exactly what the front end that was put in last for its language
makes of the part to compile. It has no compiler for the language just if no front end is for it;
whatever links and back ends might say instead then makes no difference. -/
theorem compile_transparent (default : Language) (frontEnds : List FrontEnd) (m : Metadata)
    (source : String) :
    (∀ r, (ofFrontEnds default frontEnds).compile m source = r ↔
      Compiles default frontEnds m source r) ∧
    ∀ l body, Selects default source l body →
      ((∀ f ∈ frontEnds, f.language ≠ l) ↔ ∀ others : List FrontEnd,
        others.map FrontEnd.language = frontEnds.map FrontEnd.language →
        (ofFrontEnds default others).compile m source = .error (missing l)) := by
  constructor
  · intro r
    constructor
    · rintro rfl
      obtain ⟨l, body, hs⟩ := exists_selects default source
      by_cases hf : ∃ f ∈ frontEnds, f.language = l
      · obtain ⟨f, hlatest⟩ := exists_latest hf
        rw [compile_of_latest hs hlatest]
        exact .frontEnd hs hlatest (FrontEnd.compile_eq_iff.1 rfl)
      · have hnone : ∀ f ∈ frontEnds, f.language ≠ l := fun f hmem hl => hf ⟨f, hmem, hl⟩
        rw [compile_of_missing hs hnone]
        exact .missing hs hnone
    · intro h
      cases h with
      | missing hs hnone => exact compile_of_missing hs hnone
      | frontEnd hs hlatest hyields =>
        rw [compile_of_latest hs hlatest]
        exact FrontEnd.compile_eq_iff.2 hyields
  · intro l body hs
    constructor
    · intro hnone others hothers
      refine compile_of_missing hs fun g hg hl => ?_
      have hmem : g.language ∈ frontEnds.map FrontEnd.language := hothers ▸ List.mem_map_of_mem hg
      obtain ⟨f, hf, hfg⟩ := List.mem_map.1 hmem
      exact hnone f hf (hfg.trans hl)
    · intro hall f hf hl
      -- In place of each front end, one whose back end accepts everything.
      let accepting (f : FrontEnd) : FrontEnd := .native ⟨f.language, fun _ code => .ok ⟨.lua, code⟩⟩
      have hmissing := hall (frontEnds.map accepting) (by simp [accepting, Function.comp_def,
        FrontEnd.native, FrontEnd.language])
      have hmem : ∃ g ∈ frontEnds.map accepting, g.language = l :=
        ⟨accepting f, List.mem_map_of_mem hf, hl⟩
      obtain ⟨g, hlatest⟩ := exists_latest hmem
      obtain ⟨before, after, hsplit, -⟩ := hlatest.2
      obtain ⟨f', -, rfl⟩ := List.mem_map.1 (show g ∈ frontEnds.map accepting by simp [hsplit])
      rw [compile_of_latest hs hlatest] at hmissing
      cases hmissing

end Compiler

end ScriptHost.Compile
