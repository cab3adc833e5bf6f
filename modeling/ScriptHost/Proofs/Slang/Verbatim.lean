import ScriptHost.Proofs.Slang.LineComment

/-! Elements that are Lua as they stand. A source is its own translation when it is cut into such
elements, and only then, as what is written for any other element begins with another character. What
is written for a source without comments between slashes is such a text: it is cut where the source
is, and the words and the sign that are written for operators are plain characters. -/

namespace ScriptHost.Compile.Slang

variable {cs rest : List Char} {e : Element} {es : List Element} {before after : Option Char}

/-! ### Elements that are written as they are -/

/-- Elements of Lua. -/
def Element.Verbatim : Element → Prop
  | plain _ | quoted _ _ | note _ | bracket _ _ _ => True
  | word _ | notEqual | slashes | block _ => False

theorem Element.Verbatim.lua_eq (h : e.Verbatim) (before after : Option Char) :
    e.lua before after = e.source := by
  cases e with
  | word | notEqual | slashes | block => cases h
  | _ => rfl

theorem head?_lua_ne (h : ¬ e.Verbatim) (before after : Option Char) :
    (e.lua before after).head? ≠ e.source.head? := by
  cases e with
  | word op =>
    rcases spaceBefore_cases before with hb | hb <;> cases op <;>
      simp [Element.lua, Element.source, WordOp.sign, WordOp.word, hb]
  | notEqual | slashes | block => simp [Element.lua, Element.source]
  | _ => exact absurd trivial h

theorem written_of_verbatim (h : ∀ e ∈ es, e.Verbatim) (after before : Option Char) :
    written after before es = es.flatMap Element.source := by
  induction es generalizing before with
  | nil => rfl
  | cons e es ih =>
    rw [List.forall_mem_cons] at h
    rw [written, h.1.lua_eq, ih h.2, List.flatMap_cons]

theorem verbatim_of_written_eq (h : written after before es = es.flatMap Element.source) :
    ∀ e ∈ es, e.Verbatim := by
  induction es generalizing before with
  | nil => exact List.forall_mem_nil _
  | cons e es ih =>
    rw [written, List.flatMap_cons] at h
    have hverbatim : e.Verbatim := by
      by_contra hnot
      have hhead := congrArg List.head? h
      obtain ⟨c, text, hc⟩ := List.exists_cons_of_ne_nil
        (lua_ne_nil e before ((firstChar? es).or after))
      obtain ⟨d, sign, hd⟩ := List.exists_cons_of_ne_nil (source_ne_nil e)
      have hne := head?_lua_ne hnot before ((firstChar? es).or after)
      rw [hc, hd] at hhead hne
      exact hne hhead
    rw [hverbatim.lua_eq, List.append_cancel_left_eq] at h
    exact List.forall_mem_cons.2 ⟨hverbatim, ih h⟩

/-- A text is its own translation exactly when it is made of elements of Lua. -/
theorem convert_eq_self_iff {source : String} :
    convert source = .ok source ↔ ∃ es, Cuts source.toList es [] ∧ ∀ e ∈ es, e.Verbatim := by
  rw [convert_eq_ok_iff]
  refine exists_congr fun es => and_congr_right fun hcut => ?_
  have hsource : es.flatMap Element.source = source.toList := by simpa using hcut.source_append
  constructor
  · intro h
    have hwritten : written none none es = es.flatMap Element.source := by
      rw [hsource, ← h, String.toList_ofList]
    exact verbatim_of_written_eq hwritten
  · intro h
    rw [written_of_verbatim h, hsource, String.ofList_toList]

/-! ### Translations read again -/

/-- Comments between slashes, and those after two slashes. -/
def Element.Slashed : Element → Prop
  | slashes | block _ => True
  | plain _ | word _ | notEqual | quoted _ _ | note _ | bracket _ _ _ => False

/-- Nowhere in its code does a text have two slashes, or a slash before an asterisk. -/
def SlashFree (cs : List Char) : Prop :=
  ∀ es c rest, Cuts cs es ('/' :: c :: rest) → c ≠ '/' ∧ c ≠ '*'

theorem Begins.slashed_iff {c : Char} (h : Begins ('/' :: c :: cs) e rest) :
    e.Slashed ↔ c = '/' ∨ c = '*' := by
  generalize htext : '/' :: c :: cs = text at h
  cases h with
  | plain hs =>
    cases htext
    have hslash := hs.slash rfl
    simp at hslash
    simp [Element.Slashed, hslash]
  | slashes | block =>
    cases htext
    simp [Element.Slashed]
  | quoted hq => rcases hq with rfl | rfl <;> cases htext
  | _ => cases htext

theorem Begins.slash_of_slashed (h : Begins cs e rest) (he : e.Slashed) :
    ∃ c tail, cs = '/' :: c :: tail ∧ (c = '/' ∨ c = '*') := by
  cases h with
  | slashes => exact ⟨'/', _, rfl, .inl rfl⟩
  | block => exact ⟨'*', _, rfl, .inr rfl⟩
  | _ => cases he

/-- In a text that is cut to its end, comments with slashes are the elements that begin so. -/
theorem slashFree_iff (hcut : Cuts cs es []) : SlashFree cs ↔ ∀ e ∈ es, ¬ e.Slashed := by
  constructor
  · intro h e he hslashed
    obtain ⟨ps, fs, rfl⟩ := List.append_of_mem he
    obtain ⟨mid, hps, hmid⟩ := hcut.of_append
    cases hmid with
    | cons hb =>
      obtain ⟨c, tail, rfl, hc⟩ := hb.slash_of_slashed hslashed
      have hne := h ps c tail hps
      exact hc.elim hne.1 hne.2
  · intro h fs c rest hfs
    obtain ⟨gs, rfl, hgs⟩ := hcut.resume hfs
    cases hgs with
    | @cons _ _ _ g gs hb =>
      have hnot := h g (by simp)
      rw [hb.slashed_iff] at hnot
      exact not_or.1 hnot

/-- The characters with which operators are written. -/
def operatorChars : List Char := [' ', '~', '=', 'a', 'n', 'd', 'o', 'r', 't']

theorem not_mem_marks {c : Char} (h : c ∈ operatorChars) : c ∉ marks := by
  have hall : ∀ c ∈ operatorChars, c ∉ marks := by simp [operatorChars, marks]
  exact hall c h

/-- An element without slashes is one of Lua or an operator. -/
theorem lua_cases_of_not_slashed (h : ¬ e.Slashed) (before after : Option Char) :
    e.Verbatim ∨ ∀ c ∈ e.lua before after, c ∈ operatorChars := by
  cases e with
  | word op =>
    refine .inr ?_
    rcases spaceBefore_cases before with hb | hb <;>
      rcases spaceAfter_cases after with ha | ha <;>
        cases op <;> simp [Element.lua, WordOp.word, operatorChars, hb, ha]
  | notEqual => exact .inr (by simp [Element.lua, operatorChars])
  | slashes | block => exact absurd trivial h
  | _ => exact .inl trivial

/-- What is written for elements begins as they do, or as an operator is written. -/
theorem head?_written_ne (h : ∀ e ∈ es, ¬ e.Slashed) {c : Char} (hc : c ∉ operatorChars)
    (hne : (es.flatMap Element.source).head? ≠ some c) (after before : Option Char) :
    (written after before es).head? ≠ some c := by
  cases es with
  | nil => exact hne
  | cons e es =>
    rw [List.forall_mem_cons] at h
    obtain ⟨d, text, hd⟩ := List.exists_cons_of_ne_nil
      (lua_ne_nil e before ((firstChar? es).or after))
    rw [written, hd]
    rcases lua_cases_of_not_slashed h.1 before ((firstChar? es).or after) with hv | hop
    · rw [hv.lua_eq] at hd
      rw [List.flatMap_cons, hd] at hne
      simpa using hne
    · rw [hd] at hop
      intro heq
      cases heq
      exact hc (hop c List.mem_cons_self)

/-- A character stands for itself before what is written for elements if it does before them. -/
theorem Stands.written {c : Char} (hs : Stands c (es.flatMap Element.source))
    (h : ∀ e ∈ es, ¬ e.Slashed) (after before : Option Char) :
    Stands c (written after before es) where
  quote := hs.quote
  bang := hs.bang
  slash hc := ⟨head?_written_ne h (by decide) (hs.slash hc).1 after before,
    head?_written_ne h (by decide) (hs.slash hc).2 after before⟩
  hyphen hc := head?_written_ne h (by decide) (hs.hyphen hc) after before
  ampersand hc := head?_written_ne h (by decide) (hs.ampersand hc) after before
  bar hc := head?_written_ne h (by decide) (hs.bar hc) after before
  bracket hc := by
    have hsource := bracketLevel?_eq_none_iff.1 (hs.bracket hc)
    exact bracketLevel?_eq_none_iff.2 ((opensAfter_written after before es).not.2 hsource)

/-- The text of a comment of Lua stays on its line before what is written for elements. -/
theorem begins_note_written {body : List Char}
    (hb : Begins ('-' :: '-' :: (body ++ es.flatMap Element.source)) (.note body)
      (es.flatMap Element.source)) (hcut : Cuts (es.flatMap Element.source) es [])
    (before : Option Char) :
    Begins ('-' :: '-' :: (body ++ written none before es)) (.note body)
      (written none before es) := by
  generalize htext : '-' :: '-' :: (body ++ es.flatMap Element.source) = text at hb
  cases hb with
  | note hl hn hr =>
    cases htext
    obtain ⟨hwritten, hend, -⟩ := lineEnd_written (hcut.lineEnd hr) before
    rw [hwritten]
    refine .note ?_ hn hend
    cases body with
    | nil => exact bracketLevel?_lineEnd hend
    | cons c body =>
      exact (bracketLevel?_cons_append_congr (opensAfter_written none none es) c body).2 hl

/-- What is written for elements without slashes is cut into elements of Lua. -/
theorem Cuts.exists_verbatim (h : Cuts cs es []) (hes : ∀ e ∈ es, ¬ e.Slashed) (before : Option Char) :
    ∃ fs, (∀ f ∈ fs, f.Verbatim) ∧ Cuts (written none before es) fs [] := by
  generalize hend : ([] : List Char) = rest at h
  induction h generalizing before with
  | nil =>
    subst hend
    exact ⟨[], List.forall_mem_nil _, .nil⟩
  | @cons cs mid rest e es hb hcut ih =>
    subst hend
    rw [List.forall_mem_cons] at hes
    obtain ⟨fs, hfs, hmid⟩ := ih hes.2 (e.lua before ((firstChar? es).or none)).getLast? rfl
    have hsource : es.flatMap Element.source = mid := by simpa using hcut.source_append
    rw [written]
    -- an element of Lua is found again, and an operator has become plain characters
    rcases lua_cases_of_not_slashed hes.1 before ((firstChar? es).or none) with hv | hop
    · refine ⟨e :: fs, List.forall_mem_cons.2 ⟨hv, hfs⟩, .cons ?_ hmid⟩
      rw [hv.lua_eq]
      subst hsource
      cases hb with
      | plain hs => exact .plain (hs.written hes.2 _ _)
      | quoted hq hi => simpa [Element.source] using Begins.quoted hq hi
      | comment hf => simpa [Element.source] using Begins.comment hf
      | string hf => simpa [Element.source] using Begins.string hf
      | note hl hn hr => exact begins_note_written (.note hl hn hr) hcut _
      | and | or | not | notEqual | slashes | block => cases hv
    · refine ⟨(e.lua before ((firstChar? es).or none)).map .plain ++ fs, ?_,
        (Cuts.plains fun c hc => not_mem_marks (hop c hc)).trans hmid⟩
      intro f hf
      rcases List.mem_append.1 hf with hf | hf
      · obtain ⟨c, -, rfl⟩ := List.mem_map.1 hf
        exact trivial
      · exact hfs f hf

end ScriptHost.Compile.Slang
