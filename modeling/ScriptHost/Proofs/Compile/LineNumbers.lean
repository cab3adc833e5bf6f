import ScriptHost.Compile.LuaBackend
import ScriptHost.Proofs.Compile.Links
import ScriptHost.Proofs.Slang.Passages

/-! Line numbers from the source to the back end. The header, the directives and the operators go in
passages without a line break, and everything else stays, so what is on a line of the source is on
that line of every text on the way. A link that fails names the line of the source. -/

namespace ScriptHost.Compile

open Passage (same level_same)
open Slang (Construct Element Begins Cuts Opens convert convert_eq_ok_iff convert_eq_error directives
  breakCount firstChar? lineBehind meet_between passages preProcess written)
open Text (breaks)

variable {default l : Language} {source body text target : String} {n k : Nat} {p q : List Char}
  {es : List Element}

/-! ### From the source to the first link -/

/-- A source in the text of its header, if it has one, and what stays. -/
inductive Headed (source : String) : List Passage → String → Prop
  | header {first rest : String} {l : Language} : FirstLine source first rest → Names first l →
      Headed source (⟨first.toList, []⟩ :: rest.toList.map same) rest
  | plain {first rest : String} : FirstLine source first rest → (∀ l, ¬ Names first l) →
      Headed source (source.toList.map same) source

theorem exists_headed (h : Selects default source l body) : ∃ ps, Headed source ps body := by
  cases h with
  | header hfirst hnames => exact ⟨_, .header hfirst hnames⟩
  | plain hfirst hnone => exact ⟨_, .plain hfirst hnone⟩

theorem Headed.sourceOf {ps : List Passage} (h : Headed source ps body) :
    sourceOf ps = source.toList := by
  cases h with
  | header hfirst _ => simp [hfirst.eq]
  | plain => simp

theorem Headed.targetOf {ps : List Passage} (h : Headed source ps body) :
    targetOf ps = body.toList := by
  cases h <;> simp

theorem Headed.level {ps : List Passage} (h : Headed source ps body) : ∀ a ∈ ps, a.Level := by
  intro a ha
  cases h with
  | header hfirst _ =>
    rcases List.mem_cons.1 ha with rfl | ha
    · exact .inr ⟨hfirst.line, List.not_mem_nil⟩
    · exact level_map_same ha
  | plain => exact level_map_same ha

/-! ### From link to link -/

/-- Beginnings of a source and of what a number of links make of the part to compile that a reader of
all texts in step has seen together. -/
inductive Carried (source : String) : Nat → String → List Char → List Char → Prop
  | header {body : String} {ps : List Passage} {p q : List Char} : Headed source ps body →
      Meet ps p q → Carried source 0 body p q
  | link {n : Nat} {text : String} {es : List Element} {p q r s : List Char} :
      Carried source n text p q → Meet (directives text.toList) q r →
      Cuts (preProcess text).toList es [] → Meet (passages none none es) r s →
      Carried source (n + 1) (String.ofList (written none none es)) p s

/-- A point stays on its line. -/
theorem Carried.breaks (h : Carried source n text p q) : breaks p = breaks q := by
  induction h with
  | header hps hmeet => exact hmeet.breaks hps.level
  | link _ hdir _ hlua ih =>
    rw [ih, hdir.breaks fun a ha => Slang.level_directives ha,
      hlua.breaks fun a ha => Slang.level_passages ha]

/-- Each point of a source comes to one of a text, each point of the text is one of the source, and
the ends are reached together. -/
structure Carries (source : String) (n : Nat) (text : String) : Prop where
  total : ∀ p, p <+: source.toList → ∃ q, Carried source n text p q
  onto : ∀ q, q <+: text.toList → ∃ p, Carried source n text p q
  ends : Carried source n text source.toList text.toList

theorem carries_body (h : Selects default source l body) : Carries source 0 body := by
  obtain ⟨ps, hps⟩ := exists_headed h
  refine ⟨fun p hp => ?_, fun q hq => ?_, ?_⟩
  · obtain ⟨q, hmeet⟩ := exists_meet_of_source _ (hps.sourceOf ▸ hp)
    exact ⟨q, .header hps hmeet⟩
  · obtain ⟨p, hmeet⟩ := exists_meet_of_target _ (hps.targetOf ▸ hq)
    exact ⟨p, .header hps hmeet⟩
  · have hend := meet_end ps
    rw [hps.sourceOf, hps.targetOf] at hend
    exact .header hps hend

theorem Carried.prefix_text (h : Carried source n text p q) : q <+: text.toList := by
  cases h with
  | header hps hmeet => exact hps.targetOf ▸ hmeet.prefix_target
  | link _ _ _ hlua => simpa using hlua.prefix_target

theorem Carried.prefix_source (h : Carried source n text p q) : p <+: source.toList := by
  induction h with
  | header hps hmeet => exact hps.sourceOf ▸ hmeet.prefix_source
  | link _ _ _ _ ih => exact ih

theorem Carries.link (h : Carries source n text)
    (ht : convert (preProcess text) = .ok target) : Carries source (n + 1) target := by
  obtain ⟨es, hcut, rfl⟩ := convert_eq_ok_iff.1 ht
  have hsource : es.flatMap Element.source = (preProcess text).toList := by
    simpa using hcut.source_append
  refine ⟨fun p hp => ?_, fun s hs => ?_, ?_⟩
  · obtain ⟨q, hq⟩ := h.total p hp
    obtain ⟨r, hr⟩ := exists_meet_of_source (directives text.toList)
      (by simpa using hq.prefix_text)
    obtain ⟨s, hs⟩ := exists_meet_of_source (passages none none es)
      (by simpa [hsource] using hr.prefix_target)
    exact ⟨s, .link hq hr hcut hs⟩
  · obtain ⟨r, hr⟩ := exists_meet_of_target (passages none none es) (by simpa using hs)
    obtain ⟨q, hq⟩ := exists_meet_of_target (directives text.toList)
      (by simpa [hsource] using hr.prefix_source)
    obtain ⟨p, hp⟩ := h.onto q (by simpa using hq.prefix_source)
    exact ⟨p, .link hp hq hcut hr⟩
  · have hdir := meet_end (directives text.toList)
    have hlua := meet_end (passages none none es)
    simp only [Slang.sourceOf_directives, Slang.targetOf_directives] at hdir
    rw [Slang.sourceOf_passages, Slang.targetOf_passages, hsource] at hlua
    simpa using Carried.link h.ends hdir hcut hlua

theorem slang_convert_eq_ok_iff : slang.convert source = .ok target ↔ convert source = .ok target := by
  show (convert source).mapError _ = _ ↔ _
  cases convert source with
  | error e => constructor <;> intro h <;> cases h
  | ok text =>
    show Except.ok text = Except.ok target ↔ _
    rw [Except.ok.injEq, Except.ok.injEq]

theorem Carries.links (h : Carries source k text)
    (ht : Translates (List.replicate n slang) text target) : Carries source (k + n) target := by
  induction n generalizing k text with
  | zero =>
    cases ht
    exact h
  | succ n ih =>
    rw [List.replicate_succ] at ht
    cases ht with
    | cons hfirst hrest =>
      have hnext := ih (h.link (slang_convert_eq_ok_iff.1 hfirst)) hrest
      rwa [Nat.add_right_comm] at hnext

/-! ### Failures -/

/-- Link number `k` meets a construct without an end. It opens at a point of the source. -/
inductive Stuck (source body : String) (k : Nat) : Construct → List Char → Prop
  | opens {text : String} {es : List Element} {rest p q : List Char} {construct : Construct} :
      Translates (List.replicate k slang) body text → Cuts (preProcess text).toList es rest →
      Opens construct rest → (∀ e after, ¬ Begins rest e after) → Carried source k text p q →
      Meet (directives text.toList) q (es.flatMap Element.source) → Stuck source body k construct p

/-- What a link reports is the line of the source on which the construct opens. -/
theorem exists_stuck {e : TranslateError} (hs : Selects default source l body)
    (ht : Translates (List.replicate k slang) body text)
    (he : slang.convert (slang.preProcess text) = .error e) :
    ∃ construct p, Stuck source body k construct p ∧
      p <+: source.toList ∧ e = ⟨some (lineBehind p).toNat, construct.message⟩ := by
  obtain ⟨u, hu, rfl⟩ : ∃ u, convert (preProcess text) = .error u ∧
      e = ⟨some u.line.toNat, u.construct.message⟩ := by
    change (convert (preProcess text)).mapError _ = _ at he
    cases hconvert : convert (preProcess text) with
    | error u =>
      rw [hconvert] at he
      cases he
      exact ⟨u, rfl, rfl⟩
    | ok t =>
      rw [hconvert] at he
      cases he
  obtain ⟨es, rest, hcut, hopens, hnone, hline⟩ := convert_eq_error hu
  have hcarries : Carries source k text := by simpa using (carries_body hs).links ht
  have hread : es.flatMap Element.source <+: (preProcess text).toList :=
    hcut.source_append ▸ List.prefix_append _ _
  obtain ⟨q, hq⟩ := exists_meet_of_target (directives text.toList) (by simpa using hread)
  obtain ⟨p, hp⟩ := hcarries.onto q (by simpa using hq.prefix_source)
  refine ⟨u.construct, p, .opens ht hcut hopens hnone hp hq, hp.prefix_source, ?_⟩
  have hbreaks : breaks p = breaks (es.flatMap Element.source) :=
    hp.breaks.trans (hq.breaks fun a ha => Slang.level_directives ha)
  rw [hline, lineBehind, lineBehind, breakCount, breakCount, hbreaks]

/-! ### The whole way -/

namespace Compiler

/-- The lines of a source on their way through `n` links to a back end. -/
structure KeepsLines (c : Compiler) (backend : Backend) (n : Nat) (m : Metadata) (source : String)
    (l : Language) (body : String) : Prop where
  /-- Either all links translate, and what the back end gets has the line breaks of the source, or
  the first one that fails reports the line on which a construct without an end opens, as it is counted. -/
  compiled :
    (∃ text, Translates (List.replicate n slang) body text ∧
        c.compile m source = (backend.compile m text).map (⟨m.script, l, ·⟩) ∧
        breaks text.toList = breaks source.toList ∧ Carries source n text) ∨
      ∃ k < n, ∃ construct p, Stuck source body k construct p ∧ p <+: source.toList ∧
        c.compile m source =
          .error ⟨.slang, .translate, some (lineBehind p).toNat, construct.message⟩
  /-- In a source with fewer line breaks than the count has room for, that is the number of the line. -/
  counted : breaks source.toList + 1 < UInt32.size → ∀ p, p <+: source.toList →
    (lineBehind p).toNat = 1 + breaks p
  /-- Points of the source stay on their lines on the way. -/
  points : ∀ k text p q, Carried source k text p q → breaks p = breaks q
  /-- Between two elements, what is written so far has the line breaks of what is read so far. It
  stays as it is, and the way goes through there. -/
  elements : ∀ cs es rest, Cuts cs es rest →
    breaks (written rest.head? none es) = breaks (es.flatMap Element.source) ∧
    ∀ fs, Cuts rest fs [] →
      Slang.writeFrom [] (es ++ fs) = Slang.writeFrom (written rest.head? none es).reverse fs ∧
      Meet (passages none none (es ++ fs)) (es.flatMap Element.source)
        (written rest.head? none es)

/-- Lines keep their numbers through any number of links from Slang. -/
theorem lines_kept {c : Compiler} {backend : Backend} (m : Metadata)
    (hs : Selects c.default source l body)
    (hf : c.frontEnd? l = some ⟨List.replicate n slang, backend⟩) :
    KeepsLines c backend n m source l body := by
  refine ⟨?_, fun hroom p hp => Slang.toNat_lineBehind_of_prefix hp hroom, fun k text p q h => h.breaks,
    fun cs es rest hcut => ⟨?_, fun fs hfs => ?_⟩⟩
  · have hcompile : c.compile m source = FrontEnd.compile ⟨List.replicate n slang, backend⟩ m body := by
      simp only [compile, resolve_eq_iff.2 hs, hf]
    have hlang : (FrontEnd.mk (List.replicate n slang) backend).language = l := by
      simpa using List.find?_some hf
    rw [hcompile]
    rcases translates_or_fails (List.replicate n slang) body with
      ⟨text, ht⟩ | ⟨before, t, after, text, e, hlinks, ht, he⟩
    · have hcarries : Carries source n text := by simpa using (carries_body hs).links ht
      refine .inl ⟨text, ht, ?_, hcarries.ends.breaks.symm, hcarries⟩
      cases hback : backend.compile m text with
      | error e => exact FrontEnd.compileWith_refused ht hback
      | ok a =>
        rw [FrontEnd.compile, FrontEnd.compileWith_accepted ht hback, hlang]
        rfl
    · obtain ⟨hlength, hbefore, hrest⟩ := List.append_eq_replicate_iff.1 hlinks.symm
      have ht' : t = slang := List.eq_of_mem_replicate (hrest ▸ List.mem_cons_self)
      subst ht'
      rw [hbefore] at ht
      obtain ⟨construct, p, hstuck, hp, rfl⟩ := exists_stuck hs ht he
      have hk : before.length < n := by
        rw [← hlength, List.length_cons]
        omega
      refine .inr ⟨before.length, hk, construct, p, hstuck, hp, ?_⟩
      rw [FrontEnd.compile, hlinks]
      rw [hbefore] at hlinks ⊢
      exact FrontEnd.compileWith_untranslated ht he
  · exact Slang.breaks_written _ _ _
  · have hnext : firstChar? fs = rest.head? := hfs.firstChar?_eq
    rw [← hnext]
    exact ⟨by simpa using Slang.writeFrom_append [] es fs, by simpa using meet_between none none es fs⟩

/-- Two links in front of Lua, and a source with a header and a directive. -/
theorem lines_kept_two_links :
    let c := (empty .lua).add ⟨[slang, slang], LuaBackend.backend⟩
    Selects c.default "//Slang\n#pragma once\nx = !y" .slang "\n#pragma once\nx = !y" ∧
      KeepsLines c LuaBackend.backend 2 ⟨.nil, "script"⟩ "//Slang\n#pragma once\nx = !y" .slang
        "\n#pragma once\nx = !y" := by
  intro c
  have hlower : Text.lower "Slang" = Language.slang.tag := by
    rw [Text.lower, ← String.toList_inj, String.toList_map]
    decide
  have hfirst : FirstLine "//Slang\n#pragma once\nx = !y" "//Slang" "\n#pragma once\nx = !y" :=
    ⟨by decide, by decide, .inr ⟨_, rfl⟩⟩
  have hs : Selects c.default "//Slang\n#pragma once\nx = !y" .slang "\n#pragma once\nx = !y" :=
    .header hfirst ⟨"Slang", by decide, hlower⟩
  exact ⟨hs, lines_kept ⟨.nil, "script"⟩ hs (frontEnd?_add_self _ _)⟩

end Compiler

end ScriptHost.Compile
