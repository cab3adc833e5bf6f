import ScriptHost.Compile.Chain
import ScriptHost.Proofs.Slang.Cutting

/-! Sources that cannot be translated. A string, a comment or a long bracket that is opened and not
closed is the only thing that a translation refuses, and a source has at most one that is reached:
what opens it stands where an element of the source would begin. -/

namespace ScriptHost.Compile.Slang

variable {cs : List Char} {construct : Construct}

/-! ### Constructs without an end -/

/-- A text begins with what opens a construct, and nothing after that closes it. -/
inductive Unended : Construct → List Char → Prop
  | quoted {quote : Char} {cs : List Char} : quote = '"' ∨ quote = '\'' →
      (¬ ∃ inside rest, Quotable quote inside ∧ cs = inside ++ quote :: rest) →
      Unended .quoted (quote :: cs)
  | block {cs : List Char} : ¬ ['*', '/'] <:+: cs → Unended .block ('/' :: '*' :: cs)
  | comment {level : Nat} {cs : List Char} : ¬ closer level <:+: cs →
      Unended .block ('-' :: '-' :: (opener level ++ cs))
  | bracket {level : Nat} {cs : List Char} : ¬ closer level <:+: cs →
      Unended .bracket (opener level ++ cs)

/-- What opens a construct and begins no element has no end: its end would make it one. -/
theorem Opens.unended (h : Opens construct cs) (hno : ∀ e rest, ¬ Begins cs e rest) :
    Unended construct cs := by
  cases h with
  | quoted hq =>
    refine .quoted hq ?_
    rintro ⟨inside, rest, hi, rfl⟩
    exact hno _ _ (.quoted hq hi)
  | block =>
    refine .block fun hin => ?_
    obtain ⟨inside, rest, hf, rfl⟩ := exists_freeOf_of_infix hin
    exact hno _ _ (.block hf)
  | comment =>
    refine .comment fun hin => ?_
    obtain ⟨inside, rest, hf, rfl⟩ := exists_freeOf_of_infix hin
    exact hno _ _ (.comment hf)
  | bracket =>
    refine .bracket fun hin => ?_
    obtain ⟨inside, rest, hf, rfl⟩ := exists_freeOf_of_infix hin
    exact hno _ _ (.string hf)

theorem bracketElement_eq_error {level : Nat} (comment : Bool) (h : ¬ closer level <:+: cs) :
    bracketElement comment level cs = .error (if comment then .block else .bracket) := by
  rw [bracketElement, upTo_eq_none_iff.2 h]

/-- Reading an element fails on what has no end, and on nothing else. -/
theorem nextElement_eq_error_iff {c : Char} :
    nextElement c cs = .error construct ↔ Unended construct (c :: cs) := by
  constructor
  · intro h
    obtain ⟨hopens, hno⟩ := opens_of_nextElement h
    exact hopens.unended hno
  · intro h
    generalize htext : c :: cs = text at h
    cases h with
    | quoted hq hno =>
      cases htext
      simp [nextElement, hq, (quotedBody_eq_none_iff hq).2 hno]
    | block hno =>
      cases htext
      simp [nextElement, upTo_eq_none_iff.2 hno]
    | comment hno =>
      cases htext
      simp [nextElement, bracketElement_eq_error true hno]
    | @bracket level inside hno =>
      have hl := bracketLevel?_opener level inside
      simp only [opener, List.cons_append] at hl htext
      cases htext
      rw [nextElement, if_neg (by decide)]
      simp only [hl]
      exact bracketElement_eq_error false hno

theorem Unended.exists_cons (h : Unended construct cs) : ∃ c tail, cs = c :: tail := by
  cases h <;> exact ⟨_, _, rfl⟩

theorem Unended.det {construct' : Construct} (h : Unended construct cs)
    (h' : Unended construct' cs) : construct = construct' := by
  obtain ⟨c, tail, rfl⟩ := h.exists_cons
  exact Except.error.inj
    ((nextElement_eq_error_iff.2 h).symm.trans (nextElement_eq_error_iff.2 h'))

theorem Unended.not_begins (h : Unended construct cs) (e : Element) (rest : List Char) :
    ¬ Begins cs e rest := by
  obtain ⟨c, tail, rfl⟩ := h.exists_cons
  intro hb
  cases (nextElement_eq_error_iff.2 h).symm.trans (nextElement_eq_ok_iff.2 hb)

/-- No cut goes on behind what has no end. -/
theorem Unended.eq_nil {es : List Element} {rest : List Char} (h : Unended construct cs)
    (hcut : Cuts cs es rest) : es = [] ∧ rest = cs := by
  cases hcut with
  | nil => exact ⟨rfl, rfl⟩
  | cons hb => exact absurd hb (h.not_begins _ _)

/-! ### Where a translation fails -/

/-- A source is some elements and a construct without an end. -/
structure FailsAt (source : String) (p q : List Char) (construct : Construct) : Prop where
  split : source.toList = p ++ q
  boundary : ∃ es, Cuts (p ++ q) es q
  unended : Unended construct q

variable {source : String} {p q : List Char}

theorem convert_eq_error_iff {u : Unterminated} :
    convert source = .error u ↔
      ∃ p q, FailsAt source p q u.construct ∧ u.line = lineBehind p := by
  constructor
  · intro h
    obtain ⟨es, rest, hcut, hopens, hno, hline⟩ := convert_eq_error h
    have hsplit := hcut.source_append
    exact ⟨es.flatMap Element.source, rest,
      ⟨hsplit.symm, ⟨es, hsplit.symm ▸ hcut⟩, hopens.unended hno⟩, hline⟩
  · rintro ⟨p, q, ⟨hsplit, ⟨es, hcut⟩, hunended⟩, hline⟩
    have hp : es.flatMap Element.source = p := List.append_cancel_right hcut.source_append
    obtain ⟨c, tail, rfl⟩ := hunended.exists_cons
    have hread : elements source.toList = .error ⟨u.construct, lineBehind p⟩ := by
      rw [elements, hsplit, hcut.elementsFrom, hp, ← lineBehind, elementsFrom]
      split
      · rename_i herr
        cases herr.symm.trans (nextElement_eq_error_iff.2 hunended)
        rfl
      · rename_i hok
        cases hok.symm.trans (nextElement_eq_error_iff.2 hunended)
    rw [convert, hread, ← hline]
    rfl

/-- What stands before the failure is translated on its own. -/
theorem FailsAt.convert_before (h : FailsAt source p q construct) :
    ∃ t, convert (String.ofList p) = .ok t := by
  obtain ⟨es, hcut⟩ := h.boundary
  have hp : es.flatMap Element.source = p := List.append_cancel_right hcut.source_append
  have hcut : Cuts (es.flatMap Element.source ++ []) es [] := by
    rw [← List.nil_append q] at hcut
    exact hcut.truncate
  rw [List.append_nil, hp] at hcut
  exact ⟨_, convert_eq_ok_iff.2 ⟨es, by simpa using hcut, rfl⟩⟩

/-- A translation fails at one place only: of two cuts of the source one goes on from the other,
and none goes on behind a construct without an end. -/
theorem FailsAt.det {p' q' : List Char} {construct' : Construct}
    (h : FailsAt source p q construct) (h' : FailsAt source p' q' construct') :
    p = p' ∧ q = q' ∧ construct = construct' := by
  obtain ⟨es, hcut⟩ := h.boundary
  obtain ⟨fs, hcut'⟩ := h'.boundary
  rw [← h.split] at hcut
  rw [← h'.split] at hcut'
  have hq : q = q' := by
    rcases hcut.comparable hcut' with ⟨gs, -, hgs⟩ | ⟨gs, -, hgs⟩
    · exact (h.unended.eq_nil hgs).2.symm
    · exact (h'.unended.eq_nil hgs).2
  subst hq
  have hp : p ++ q = p' ++ q := h.split.symm.trans h'.split
  exact ⟨List.append_cancel_right hp, rfl, h.unended.det h'.unended⟩

theorem slang_convert_eq_error_iff {e : TranslateError} :
    slang.convert source = .error e ↔
      ∃ u, convert source = .error u ∧ e = ⟨some u.line.toNat, u.construct.message⟩ := by
  show (convert source).mapError _ = _ ↔ _
  cases convert source with
  | error u =>
    show Except.error _ = Except.error e ↔ _
    simp [eq_comm]
  | ok t =>
    show Except.ok t = Except.error e ↔ _
    simp

theorem exists_slang_convert_eq_ok {t : String} (h : convert source = .ok t) :
    ∃ t, slang.convert source = .ok t := by
  refine ⟨t, ?_⟩
  show (convert source).mapError _ = _
  rw [h]
  rfl

/-- A translation fails exactly where elements of the source are followed by a construct without an
end. The error has the line on which the construct opens, as it is counted, and tells its kind; in a source with
fewer line breaks than the count has room for, that is the number of the line. There is one such place at
most, and the text before it has a translation. Without such a place there is a translation. -/
theorem translation_fails_iff (source : String) :
    (∀ e, slang.convert source = .error e ↔
      ∃ p q construct, FailsAt source p q construct ∧
        e = ⟨some (lineBehind p).toNat, construct.message⟩) ∧
    (∀ p q construct, FailsAt source p q construct →
      Text.breaks source.toList + 1 < UInt32.size → (lineBehind p).toNat = 1 + Text.breaks p) ∧
    (∀ p q construct p' q' construct', FailsAt source p q construct →
      FailsAt source p' q' construct' → p = p' ∧ q = q' ∧ construct = construct') ∧
    (∀ p q construct, FailsAt source p q construct →
      ∃ t, slang.convert (String.ofList p) = .ok t) ∧
    ((¬ ∃ p q construct, FailsAt source p q construct) →
      ∃ t, slang.convert source = .ok t) := by
  refine ⟨fun e => ?_, fun p q construct h hroom => ?_, fun _ _ _ _ _ _ h h' => h.det h',
    fun p q construct h => ?_, fun hno => ?_⟩
  · rw [slang_convert_eq_error_iff]
    constructor
    · rintro ⟨⟨construct, line⟩, hu, rfl⟩
      obtain ⟨p, q, hfails, rfl⟩ := convert_eq_error_iff.1 hu
      exact ⟨p, q, construct, hfails, rfl⟩
    · rintro ⟨p, q, construct, hfails, rfl⟩
      exact ⟨⟨construct, lineBehind p⟩, convert_eq_error_iff.2 ⟨p, q, hfails, rfl⟩, rfl⟩
  · exact toNat_lineBehind_of_prefix (h.split ▸ List.prefix_append p q) hroom
  · obtain ⟨t, ht⟩ := h.convert_before
    exact exists_slang_convert_eq_ok ht
  · cases ht : convert source with
    | ok t => exact exists_slang_convert_eq_ok ht
    | error u =>
      obtain ⟨p, q, hfails, -⟩ := convert_eq_error_iff.1 ht
      exact absurd ⟨p, q, _, hfails⟩ hno

end ScriptHost.Compile.Slang
