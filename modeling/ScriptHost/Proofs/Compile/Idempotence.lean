import ScriptHost.Proofs.Compile.LineNumbers
import ScriptHost.Proofs.Slang.Directives
import ScriptHost.Proofs.Slang.Verbatim

/-! Translations translated again. Without comments between slashes or after two of them, a
translation has no directives and is made of elements of Lua, and such a text is its own
translation. So a row of links from Slang does what one of them does. -/

namespace ScriptHost.Compile

open Slang (Cuts DirectiveFree SlashFree convert convert_eq_ok_iff convert_eq_self_iff
  directiveFree_preProcess elements elements_eq_ok_iff preProcess preProcess_eq_self_iff written)

variable {source text t : String} {backend : Backend} {m : Metadata}

/-- A text that a link from Slang leaves as it is. -/
def Stable (text : String) : Prop := slang.convert (slang.preProcess text) = .ok text

theorem stable_of_slashFree (hfree : SlashFree (preProcess source).toList)
    (h : slang.convert (slang.preProcess source) = .ok t) : Stable t := by
  obtain ⟨es, hcut, rfl⟩ := convert_eq_ok_iff.1 (slang_convert_eq_ok_iff.1 h)
  have hcut : Cuts (preProcess source).toList es [] := hcut
  obtain ⟨fs, hfs, hagain⟩ := hcut.exists_verbatim ((Slang.slashFree_iff hcut).1 hfree) none
  have hsource : es.flatMap Slang.Element.source = (preProcess source).toList := by
    simpa using hcut.source_append
  have hdirectives : DirectiveFree (written none none es) := by
    refine DirectiveFree.written ?_ none none
    rw [hsource]
    exact directiveFree_preProcess source
  have hpre : preProcess (String.ofList (written none none es)) =
      String.ofList (written none none es) :=
    preProcess_eq_self_iff.2 (by simpa using hdirectives)
  refine slang_convert_eq_ok_iff.2 ?_
  show convert (preProcess _) = _
  rw [hpre]
  exact convert_eq_self_iff.2 ⟨fs, by simpa using hagain, hfs⟩

/-- Further links from Slang pass a stable text on, so the unit is the one that the first makes. -/
theorem compileWith_stable (h : Stable t) (n : Nat) :
    (FrontEnd.compileWith backend m (List.replicate n slang) t).map
        ({ · with source := slang.language }) =
      (FrontEnd.compileWith backend m [] t).map ({ · with source := slang.language }) := by
  induction n with
  | zero => rfl
  | succ n ih =>
    have hstep : FrontEnd.compileWith backend m (slang :: List.replicate n slang) t =
        (FrontEnd.compileWith backend m (List.replicate n slang) t).map
          ({ · with source := slang.language }) := by
      simp only [Stable] at h
      simp only [FrontEnd.compileWith, h]
    rw [List.replicate_succ, hstep, ih]
    cases FrontEnd.compileWith backend m [] t <;> rfl

/-- Without comments with slashes, a translation is its own translation, and any number of links from
Slang in a row compile a source as a single one does. -/
theorem translation_idempotent (hfree : SlashFree (preProcess source).toList) :
    (∀ t, slang.convert (slang.preProcess source) = .ok t →
      slang.convert (slang.preProcess t) = .ok t) ∧
    ∀ n backend m, (FrontEnd.mk (List.replicate (n + 1) slang) backend).compile m source =
      (FrontEnd.mk [slang] backend).compile m source := by
  refine ⟨fun t => stable_of_slashFree hfree, fun n backend m => ?_⟩
  show FrontEnd.compileWith backend m (slang :: List.replicate n slang) source =
    FrontEnd.compileWith backend m [slang] source
  rw [FrontEnd.compileWith, FrontEnd.compileWith]
  cases h : slang.convert (slang.preProcess source) with
  | error e => rfl
  | ok t => exact compileWith_stable (stable_of_slashFree hfree h) n

/-- Slashes in a string and in a comment of Lua are none of the code. -/
theorem translation_idempotent_operators :
    SlashFree (preProcess "#pragma p\nx=a&&!'//'--/*").toList ∧
      slang.convert (slang.preProcess "#pragma p\nx=a&&!'//'--/*") =
        .ok "\nx=a and not '//'--/*" ∧
      slang.convert (slang.preProcess "\nx=a and not '//'--/*") = .ok "\nx=a and not '//'--/*" := by
  have hpre : preProcess "#pragma p\nx=a&&!'//'--/*" = "\nx=a&&!'//'--/*" := by rfl
  have hes : elements "\nx=a&&!'//'--/*".toList =
      .ok [.plain '\n', .plain 'x', .plain '=', .plain 'a', .word .and, .word .not,
        .quoted '\'' ['/', '/'], .note ['/', '*']] := by cbv
  have hfree : SlashFree (preProcess "#pragma p\nx=a&&!'//'--/*").toList := by
    rw [hpre, Slang.slashFree_iff (elements_eq_ok_iff.1 hes)]
    simp [Slang.Element.Slashed]
  have ht : slang.convert (slang.preProcess "#pragma p\nx=a&&!'//'--/*") =
      .ok "\nx=a and not '//'--/*" := by
    refine slang_convert_eq_ok_iff.2 ?_
    show convert (preProcess _) = _
    rw [hpre]
    cbv
  exact ⟨hfree, ht, (translation_idempotent hfree).1 _ ht⟩

end ScriptHost.Compile
