import ScriptHost.Proofs.Slang.Tokens

/-! What Lua looks ahead to behind a token. A space ends any token, and so does a hyphen, but for the
hyphen behind an exponent mark or behind another hyphen. So of a text before a space and the same text
before a hyphen Lua reads the same. -/

namespace ScriptHost.Lua.Lexer

open Compile.Slang (bracketLevel? bracketLevel?_cons_append_congr equals_solid exists_of_firstM goesOn
  goesOn_solid numeralChars_go numeralChars_sign numeralChars_stop opensAfter Solid)

variable {S S' T T' cs text rest lead : List Char} {c : Char} {mark : Char → Bool} {line : Nat}

/-! ### A space or a hyphen -/

/-- A text before the space that ends it, and the same text before a hyphen. -/
inductive Abuts : List Char → List Char → Prop
  | here (rest : List Char) : Abuts [' '] ('-' :: rest)
  | same (c : Char) {S S' : List Char} : Abuts S S' → Abuts (c :: S) (c :: S')

theorem Abuts.append (text : List Char) (h : Abuts T T') : Abuts (text ++ T) (text ++ T') := by
  induction text with
  | nil => exact h
  | cons c text ih => exact .same c ih

theorem Abuts.head?_cases (h : Abuts T T') :
    T'.head? = T.head? ∨ T = [' '] ∧ T'.head? = some '-' := by
  cases h with
  | here => exact .inr ⟨rfl, rfl⟩
  | same => exact .inl rfl

theorem Abuts.any_head? (h : Abuts T T') {p : Char → Bool} (hp : p ' ' = p '-') :
    T'.head?.any p = T.head?.any p := by
  cases h with
  | here => exact hp.symm
  | same => rfl

theorem Abuts.after? (h : Abuts S S') (hlead : ' ' ∉ lead ∧ '-' ∉ lead) :
    (Text.after? lead S = none ∧ Text.after? lead S' = none) ∨
      ∃ T T', Text.after? lead S = some T ∧ Text.after? lead S' = some T' ∧ Abuts T T' := by
  induction lead generalizing S S' with
  | nil => exact .inr ⟨S, S', rfl, rfl, h⟩
  | cons l lead ih =>
    simp only [List.mem_cons, not_or] at hlead
    obtain ⟨⟨hspace, hspace'⟩, hhyphen, hhyphen'⟩ := hlead
    cases h with
    | here =>
      exact .inl ⟨if_neg (Ne.symm hspace), if_neg (Ne.symm hhyphen)⟩
    | same c h =>
      by_cases hc : l = c
      · simpa [Text.after?, hc] using ih h ⟨hspace', hhyphen'⟩
      · exact .inl ⟨if_neg hc, if_neg hc⟩

/-- The first of some texts with which a text begins is the same before either. -/
theorem Abuts.firstM {α : Type} (h : Abuts S S') (text : α → List Char) (l : List α)
    (hl : ∀ a ∈ l, ' ' ∉ text a ∧ '-' ∉ text a) :
    let find (cs : List Char) := l.firstM fun a => (Text.after? (text a) cs).map (a, ·)
    (find S = none ∧ find S' = none) ∨
      ∃ a T T', find S = some (a, T) ∧ find S' = some (a, T') ∧ Abuts T T' := by
  induction l with
  | nil => exact .inl ⟨rfl, rfl⟩
  | cons a l ih =>
    rw [List.forall_mem_cons] at hl
    rcases h.after? hl.1 with ⟨hS, hS'⟩ | ⟨T, T', hS, hS', hT⟩
    · simpa [hS, hS'] using ih hl.2
    · exact .inr ⟨a, T, T', by simp [hS], by simp [hS'], hT⟩

theorem Abuts.opensAfter_iff (h : Abuts T T') : opensAfter T ↔ opensAfter T' := by
  induction h with
  | here => simp [opensAfter]
  | same c _ ih =>
    by_cases hc : c = '='
    · simpa [opensAfter, hc] using ih
    · simp [opensAfter, hc]

/-! ### Numerals -/

/-- The characters that a numeral takes of a text, and the rest. -/
inductive Run (mark : Char → Bool) : (text rest : List Char) → Prop
  | stop {rest : List Char} : rest.head?.any (goesOn mark) = false → Run mark [] rest
  | go {c : Char} {text rest : List Char} : goesOn mark c = true →
      (mark c = true → (text ++ rest).head? ≠ some '+' ∧ (text ++ rest).head? ≠ some '-') →
      Run mark text rest → Run mark (c :: text) rest
  | signed {c s : Char} {text rest : List Char} : mark c = true → s = '+' ∨ s = '-' →
      Run mark text rest → Run mark (c :: s :: text) rest

theorem Run.numeralChars (h : Run mark text rest) :
    numeralChars mark (text ++ rest) = (text, rest) := by
  induction h with
  | stop h => exact numeralChars_stop h
  | go hc hs _ ih => rw [List.cons_append, numeralChars_go hc hs, ih]
  | signed hc hs _ ih => rw [List.cons_append, List.cons_append, numeralChars_sign hc hs, ih]

theorem exists_run (mark : Char → Bool) (cs : List Char) :
    ∃ text rest, cs = text ++ rest ∧ Run mark text rest := by
  match cs with
  | [] => exact ⟨[], [], rfl, .stop rfl⟩
  | c :: cs =>
    by_cases hc : goesOn mark c = true
    · by_cases hsign : mark c = true ∧ ∃ s, (s = '+' ∨ s = '-') ∧ cs.head? = some s
      · obtain ⟨hm, s, hs, hhead⟩ := hsign
        obtain ⟨cs', rfl⟩ := List.head?_eq_some_iff.1 hhead
        obtain ⟨text, rest, rfl, hrun⟩ := exists_run mark cs'
        exact ⟨c :: s :: text, rest, rfl, .signed hm hs hrun⟩
      · obtain ⟨text, rest, rfl, hrun⟩ := exists_run mark cs
        exact ⟨c :: text, rest, rfl, .go hc (fun hm => ⟨fun h => hsign ⟨hm, '+', .inl rfl, h⟩,
          fun h => hsign ⟨hm, '-', .inr rfl, h⟩⟩) hrun⟩
    · exact ⟨[], c :: cs, rfl, .stop (by simpa using hc)⟩
termination_by cs.length
decreasing_by all_goals simp_all <;> omega

/-- What may follow the characters of a numeral: of the first character behind them it counts whether
the numeral goes on with it and, behind an exponent mark, which one it is. -/
theorem Run.of_head? (h : Run mark text rest)
    (hgo : T.head?.any (goesOn mark) = rest.head?.any (goesOn mark))
    (hmark : (∃ c ∈ text.getLast?, mark c = true) → T.head? = rest.head?) : Run mark text T := by
  induction h with
  | stop hstop => exact .stop (hgo.trans hstop)
  | @go c text rest hc hs _ ih =>
    have hlast {d : Char} {tail : List Char} (htext : text = d :: tail) :
        (c :: text).getLast? = text.getLast? := by
      rw [htext, List.getLast?_cons_cons]
    cases text with
    | nil =>
      refine .go hc (fun hm => ?_) (ih hgo (by simp))
      have hhead : T.head? = rest.head? := hmark ⟨c, rfl, hm⟩
      rw [List.nil_append, hhead]
      exact hs hm
    | cons d tail => exact .go hc hs (ih hgo (by rwa [hlast rfl] at hmark))
  | @signed c s text rest hm hs _ ih =>
    refine .signed hm hs (ih hgo ?_)
    cases text with
    | nil => simp
    | cons d tail => rwa [List.getLast?_cons_cons, List.getLast?_cons_cons] at hmark

/-- What stands before the digits of a numeral, and whether that makes them hexadecimal. -/
inductive Leads : (hex : Bool) → (lead cs : List Char) → Prop
  | hex {lead cs : List Char} :
      (hexLeads.firstM fun l => (Text.after? l (lead ++ cs)).map (l, ·)) = some (lead, cs) →
      Leads true lead cs
  | decimal {cs : List Char} :
      (hexLeads.firstM fun l => (Text.after? l cs).map (l, ·)) = none → Leads false [] cs

theorem exists_leads (cs : List Char) :
    ∃ hex lead after, cs = lead ++ after ∧ Leads hex lead after := by
  cases hread : hexLeads.firstM fun l => (Text.after? l cs).map (l, ·) with
  | none => exact ⟨false, [], cs, rfl, .decimal hread⟩
  | some read =>
    obtain ⟨lead, after⟩ := read
    obtain ⟨l, -, hl⟩ := exists_of_firstM hread
    obtain ⟨after', hafter, heq⟩ := Option.map_eq_some_iff.1 hl
    cases heq
    obtain rfl := Text.after?_eq_some_iff.1 hafter
    exact ⟨true, _, _, rfl, .hex hread⟩

theorem Leads.numeral {hex : Bool} (h : Leads hex lead cs) (line : Nat) :
    numeral line (lead ++ cs) =
      numeralToken line (lead ++ (numeralChars (exponentMark hex) cs).1)
        (numeralChars (exponentMark hex) cs).2 := by
  cases h with
  | hex h => simp [Lexer.numeral, h]
  | decimal h => simp [Lexer.numeral, h]

theorem Leads.abuts {hex : Bool} (h : Leads hex lead S) (hS : Abuts S S') : Leads hex lead S' := by
  have hleads : ∀ l ∈ hexLeads, ' ' ∉ id l ∧ '-' ∉ id l := by decide
  cases h with
  | hex h =>
    rcases (hS.append lead).firstM id hexLeads hleads with ⟨hnone, -⟩ | ⟨l, T, T', hT, hT', -⟩
    · simp only [id_eq] at hnone
      cases h.symm.trans hnone
    · simp only [id_eq] at hT hT'
      cases h.symm.trans hT
      obtain ⟨l, -, hl⟩ := exists_of_firstM hT'
      obtain ⟨after, hafter, heq⟩ := Option.map_eq_some_iff.1 hl
      cases heq
      obtain rfl := List.append_cancel_left (Text.after?_eq_some_iff.1 hafter)
      exact .hex hT'
  | decimal h =>
    rcases hS.firstM id hexLeads hleads with ⟨-, hnone⟩ | ⟨l, T, T', hT, -, -⟩
    · exact .decimal hnone
    · simp only [id_eq] at hT
      cases h.symm.trans hT

/-- The spelling of a numeral, before a rest, and its token. A letter that it touches is part of it. -/
inductive Numeral (line : Nat) : (text : List Char) → Lexeme → (rest : List Char) → Prop
  | apart {hex : Bool} {lead run rest : List Char} {n : Number} :
      Leads hex lead (run ++ rest) → Run (exponentMark hex) run rest →
      rest.head?.any isNameStart = false → Number.parse? (lead ++ run) = some n →
      Numeral line (lead ++ run) ⟨.number n, line, Bytes.ofString (String.ofList (lead ++ run))⟩ rest
  | touching {hex : Bool} {lead run rest : List Char} {n : Number} {c : Char} :
      Leads hex lead (run ++ c :: rest) → Run (exponentMark hex) run (c :: rest) →
      isNameStart c = true → Number.parse? (lead ++ run ++ [c]) = some n →
      Numeral line (lead ++ run ++ [c])
        ⟨.number n, line, Bytes.ofString (String.ofList (lead ++ run ++ [c]))⟩ rest

theorem numeralOf_eq_ok_iff {spelling : List Char} {l : Lexeme} :
    numeralOf line spelling cs = .ok (l, rest) ↔
      ∃ n, Number.parse? spelling = some n ∧
        l = ⟨.number n, line, Bytes.ofString (String.ofList spelling)⟩ ∧ cs = rest := by
  unfold numeralOf
  cases Number.parse? spelling with
  | none => simp
  | some n => simp [eq_comm]

theorem numeral_eq_ok_iff {l : Lexeme} :
    numeral line cs = .ok (l, rest) ↔ ∃ text, cs = text ++ rest ∧ Numeral line text l rest := by
  constructor
  · intro h
    obtain ⟨hex, lead, after, rfl, hleads⟩ := exists_leads cs
    obtain ⟨run, rest', rfl, hrun⟩ := exists_run (exponentMark hex) after
    rw [hleads.numeral, hrun.numeralChars] at h
    cases rest' with
    | nil =>
      obtain ⟨n, hn, rfl, rfl⟩ := numeralOf_eq_ok_iff.1 h
      exact ⟨lead ++ run, by simp, .apart hleads hrun rfl hn⟩
    | cons c rest' =>
      rw [numeralToken] at h
      split at h
      · rename_i hc
        obtain ⟨n, hn, rfl, rfl⟩ := numeralOf_eq_ok_iff.1 h
        exact ⟨lead ++ run ++ [c], by simp, .touching hleads hrun hc hn⟩
      · rename_i hc
        obtain ⟨n, hn, rfl, rfl⟩ := numeralOf_eq_ok_iff.1 h
        exact ⟨lead ++ run, by simp, .apart hleads hrun (by simpa using hc) hn⟩
  · rintro ⟨text, rfl, h⟩
    cases h with
    | apart hleads hrun hc hn =>
      rw [List.append_assoc, hleads.numeral, hrun.numeralChars,
        Compile.Slang.numeralToken_apart hc]
      exact numeralOf_eq_ok_iff.2 ⟨_, hn, rfl, rfl⟩
    | @touching hex lead run rest n c hleads hrun hc hn =>
      have htext : lead ++ run ++ [c] ++ rest = lead ++ (run ++ c :: rest) := by simp
      rw [htext, hleads.numeral, hrun.numeralChars, numeralToken, if_pos hc]
      exact numeralOf_eq_ok_iff.2 ⟨_, hn, rfl, rfl⟩

/-- A numeral does not end with the mark of an exponent. -/
theorem Leads.exponentMark_getLast? {hex : Bool} {run : List Char} {n : Number} {first : Char}
    (h : Leads hex lead (run ++ rest)) (hn : Number.parse? (lead ++ run) = some n)
    (hhead : (lead ++ run).head? = some first) (hfirst : first.isDigit = true ∨ first = '.') :
    ¬ ∃ c ∈ run.getLast?, exponentMark hex c = true := by
  rintro ⟨c, hc, hmark⟩
  obtain ⟨text, rfl⟩ := List.getLast?_eq_some_iff.1 hc
  have hmalformed : Number.parse? (lead ++ (text ++ [c])) = none := by
    cases h with
    | hex _ =>
      have hc : Text.hexDigit? c = none ∧ c ≠ '.' ∧ isSpace c = false := by
        simp only [exponentMark, if_true, Bool.or_eq_true, beq_iff_eq] at hmark
        rcases hmark with rfl | rfl <;> exact ⟨rfl, by decide, rfl⟩
      rw [← List.append_assoc]
      exact parse?_open hc.1 hc.2.1 hc.2.2 _
    | decimal h =>
      have hc : Text.digit? c = none ∧ c ≠ '.' ∧ isSpace c = false := by
        simp only [exponentMark, Bool.false_eq_true, if_false, Bool.or_eq_true, beq_iff_eq] at hmark
        rcases hmark with rfl | rfl <;> exact ⟨rfl, by decide, rfl⟩
      obtain ⟨tail, htail⟩ := List.head?_eq_some_iff.1 hhead
      rw [List.nil_append] at htail ⊢
      rw [htail] at h ⊢
      refine parse?_decimal_open hfirst ?_ hc.1 hc.2.1 hc.2.2 htail.symm
      rintro rfl
      constructor <;> intro hx <;> obtain ⟨tail, rfl⟩ := List.head?_eq_some_iff.1 hx <;>
        simp [hexLeads, List.firstM, Text.after?] at h
  cases hmalformed.symm.trans hn

theorem Numeral.abuts {l : Lexeme} {first : Char} (h : Numeral line text l T) (hT : Abuts T T')
    (hhead : text.head? = some first) (hfirst : first.isDigit = true ∨ first = '.') :
    Numeral line text l T' := by
  have hgo (hex : Bool) : T'.head?.any (goesOn (exponentMark hex)) =
      T.head?.any (goesOn (exponentMark hex)) := hT.any_head? (by cases hex <;> rfl)
  cases h with
  | @apart hex lead run rest n hleads hrun hc hn =>
    refine .apart (hleads.abuts (hT.append run)) (hrun.of_head? (hgo hex) fun hmark => ?_) ?_ hn
    · exact absurd hmark (hleads.exponentMark_getLast? hn hhead hfirst)
    · rw [hT.any_head? rfl, hc]
  | touching hleads hrun hc hn =>
    exact .touching (hleads.abuts ((Abuts.same _ hT).append _)) (hrun.of_head? rfl fun _ => rfl) hc hn

theorem Numeral.ne_eof {l : Lexeme} (h : Numeral line text l rest) : l.token ≠ .eof := by
  cases h <;> rintro ⟨⟩

theorem Numeral.getLast?_ne_hyphen {l : Lexeme} (h : Numeral line text l rest) :
    text.getLast? ≠ some '-' := by
  have hparse {text : List Char} {n : Number} (hn : Number.parse? text = some n) :
      text.getLast? ≠ some '-' := by
    intro hlast
    obtain ⟨lead, rfl⟩ := List.getLast?_eq_some_iff.1 hlast
    cases (parse?_hyphen lead).symm.trans hn
  cases h with
  | apart _ _ _ hn => exact hparse hn
  | touching _ _ _ hn => exact hparse hn

end ScriptHost.Lua.Lexer
