import ScriptHost.Proofs.Slang.Cutting

/-! Directives and the Lua that is written for a source. A directive stands first on its line, and
only blanks may stand before it. What is written for an element that is no Lua is visible and holds
no directive, and what is visible stays on its line, so a text without directives is written without
directives. -/

namespace ScriptHost.Compile.Slang

open Text (lines unlines)

variable {c : Char} {cs out text sign : List Char} {lead : Bool} {before last : Option Char}
  {es : List Element}

/-! ### Lines without directives -/

/-- What a directive begins with. -/
def directive : List Char := "#pragma".toList

theorem directive_eq : directive = ['#', 'p', 'r', 'a', 'g', 'm', 'a'] := by decide

theorem isPragma_iff {l : List Char} : isPragma l = true ↔ directive <+: l.dropWhile Text.isBlank :=
  List.isPrefixOf_iff_prefix

theorem isPragma_cons_of_blank (hc : Text.isBlank c = true) (l : List Char) :
    isPragma (c :: l) = isPragma l := by
  simp [isPragma, hc]

theorem isPragma_cons_of_not_blank (hc : ¬ Text.isBlank c = true) (l : List Char) :
    isPragma (c :: l) = true ↔ directive <+: c :: l := by
  rw [isPragma_iff, List.dropWhile_cons_of_neg hc]

/-- No line of the text is a directive. -/
def DirectiveFree (cs : List Char) : Prop := ∀ l ∈ lines cs, isPragma l = false

/-- Whether only blanks stand on the line behind a character, when that is so before it. -/
def leads (lead : Bool) (c : Char) : Bool := c == '\n' || (lead && Text.isBlank c)

/-- No directive begins in a text, where `lead` tells whether only blanks stand before the text on
its first line. -/
def NoDirective : (lead : Bool) → List Char → Prop
  | _, [] => True
  | lead, c :: cs => (lead = true → ¬ directive <+: c :: cs) ∧ NoDirective (leads lead c) cs

/-- What has no line break begins a text when it begins its first line. -/
theorem prefix_line_iff {l : List Char} {ls : List (List Char)} {start : List Char}
    (hstart : '\n' ∉ start) (h : lines cs = l :: ls) : start <+: cs ↔ start <+: l := by
  induction start generalizing cs l with
  | nil => simp
  | cons d start ih =>
    obtain ⟨hd, hstart⟩ := not_or.1 (mt List.mem_cons.2 hstart)
    cases cs with
    | nil =>
      cases h
      rfl
    | cons c cs =>
      obtain ⟨l', ls', hcs, -⟩ := Text.exists_pieces_eq_cons '\n' cs
      by_cases hc : c = '\n'
      · subst hc
        cases (Text.pieces_cons_self '\n' cs).symm.trans h
        simp [List.cons_prefix_cons, Ne.symm hd]
      · cases (Text.pieces_cons_of_ne hc hcs).symm.trans h
        rw [List.cons_prefix_cons, List.cons_prefix_cons, ih hstart hcs]

theorem noDirective_iff_lines {l : List Char} {ls : List (List Char)} (h : lines cs = l :: ls) :
    NoDirective lead cs ↔ (lead = true → isPragma l = false) ∧ ∀ m ∈ ls, isPragma m = false := by
  induction cs generalizing lead l ls with
  | nil =>
    cases h
    exact ⟨fun _ => ⟨fun _ => rfl, List.forall_mem_nil _⟩, fun _ => trivial⟩
  | cons c cs ih =>
    obtain ⟨l', ls', hcs, -⟩ := Text.exists_pieces_eq_cons '\n' cs
    have hline : directive <+: c :: cs ↔ directive <+: l := prefix_line_iff (by decide) h
    rw [NoDirective, hline, ih hcs]
    by_cases hbreak : c = '\n'
    · subst hbreak
      cases (Text.pieces_cons_self '\n' cs).symm.trans h
      have hcs : Text.pieces '\n' cs = l' :: ls' := hcs
      simp [leads, hcs, isPragma, directive_eq]
    · cases (Text.pieces_cons_of_ne hbreak hcs).symm.trans h
      by_cases hblank : Text.isBlank c = true
      · have hne : ¬ '#' = c := by
          rintro rfl
          cases hblank
        have hno : ¬ directive <+: c :: l' := fun hpre => hne (List.cons_prefix_cons.1 hpre).1
        simp [leads, hbreak, hblank, hno, isPragma_cons_of_blank]
      · have hline : isPragma (c :: l') = false ↔ ¬ directive <+: c :: l' := by
          rw [Bool.eq_false_iff, ne_eq, isPragma_cons_of_not_blank hblank]
        simp [leads, hbreak, hblank, hline]

theorem directiveFree_iff : DirectiveFree cs ↔ NoDirective true cs := by
  obtain ⟨l, ls, h, -⟩ := Text.exists_pieces_eq_cons '\n' cs
  have h : lines cs = l :: ls := h
  rw [DirectiveFree, noDirective_iff_lines h, h, List.forall_mem_cons]
  simp

/-! ### Directives taken out -/

theorem lines_preProcess (source : String) :
    lines (preProcess source).toList =
      (lines source.toList).map fun l => if isPragma l then [] else l := by
  obtain ⟨l, ls, h, -⟩ := Text.exists_pieces_eq_cons '\n' source.toList
  have h : lines source.toList = l :: ls := h
  rw [preProcess, String.toList_ofList]
  refine Text.pieces_join (by simp [h]) fun m hm => ?_
  obtain ⟨n, hn, rfl⟩ := List.mem_map.1 hm
  split
  · exact List.not_mem_nil
  · exact Text.not_mem_of_mem_lines hn

theorem directiveFree_preProcess (source : String) : DirectiveFree (preProcess source).toList := by
  intro l hl
  rw [lines_preProcess] at hl
  obtain ⟨m, -, rfl⟩ := List.mem_map.1 hl
  split
  · rfl
  · exact Bool.eq_false_iff.2 ‹_›

/-- A source stays as it is when it has no directives, and only then. -/
theorem preProcess_eq_self_iff {source : String} :
    preProcess source = source ↔ DirectiveFree source.toList := by
  constructor
  · intro h
    rw [← h]
    exact directiveFree_preProcess source
  · intro h
    have hlines : (lines source.toList).map (fun l => if isPragma l then [] else l) =
        lines source.toList :=
      (List.map_congr_left fun l hl => if_neg (Bool.eq_false_iff.1 (h l hl))).trans
        (List.map_id' _)
    rw [preProcess, hlines, unlines, lines, Text.join_pieces, String.ofList_toList]

/-! ### Texts written in another spelling -/

/-- A text that stays on its line and is no blank part of it. -/
def Visible (text : List Char) : Prop := '\n' ∉ text ∧ ∃ c ∈ text, Text.isBlank c = false

/-- A text in another spelling, behind the character that was written last. Marks are written as
other marks, and what is written for one goes on with no directive that has begun before. -/
inductive Respells : (before : Option Char) → (cs out : List Char) → Prop
  | nil {before : Option Char} : Respells before [] []
  | same {before : Option Char} {cs out : List Char} (c : Char) : Respells (some c) cs out →
      Respells before (c :: cs) (c :: out)
  | mark {before last : Option Char} {sign text cs out : List Char} : Visible sign →
      Visible text → '#' ∉ text →
      (spaceBefore before = [' '] → ∀ d ∈ text.head?, d ∉ directive) →
      Respells last cs out → Respells before (sign ++ cs) (text ++ out)

theorem foldl_leads (h : '\n' ∉ text) : text.foldl leads lead = (lead && text.all Text.isBlank) := by
  induction text generalizing lead with
  | nil => simp
  | cons c text ih =>
    obtain ⟨hc, htext⟩ := not_or.1 (mt List.mem_cons.2 h)
    have hc : (c == '\n') = false := beq_eq_false_iff_ne.2 (Ne.symm hc)
    rw [List.foldl_cons, ih htext, leads, hc, Bool.false_or, Bool.and_assoc, List.all_cons]

theorem Visible.foldl_leads (h : Visible text) (lead : Bool) : text.foldl leads lead = false := by
  obtain ⟨hline, c, hc, hvisible⟩ := h
  rw [Slang.foldl_leads hline, Bool.and_eq_false_iff]
  exact .inr (List.all_eq_false.2 ⟨c, hc, by simp [hvisible]⟩)

theorem NoDirective.of_append (h : NoDirective lead (text ++ cs)) :
    NoDirective (text.foldl leads lead) cs := by
  induction text generalizing lead with
  | nil => exact h
  | cons c text ih => exact ih h.2

theorem NoDirective.append (htext : '#' ∉ text) (h : NoDirective (text.foldl leads lead) cs) :
    NoDirective lead (text ++ cs) := by
  induction text generalizing lead with
  | nil => exact h
  | cons c text ih =>
    obtain ⟨hc, htext⟩ := not_or.1 (mt List.mem_cons.2 htext)
    exact ⟨fun _ hpre => hc (List.cons_prefix_cons.1 hpre).1, ih htext h⟩

/-- A directive that has begun goes on in both texts, or in neither. -/
theorem Respells.prefix (h : Respells before cs out) (hbefore : spaceBefore before = [' '])
    {start : List Char} (hstart : start <:+ directive) (hout : start <+: out) : start <+: cs := by
  induction h generalizing start with
  | nil => exact hout
  | @same before cs out c hrest ih =>
    cases start with
    | nil => exact List.nil_prefix
    | cons d start =>
      obtain ⟨hd, htail⟩ := List.cons_prefix_cons.1 hout
      subst hd
      have hapart : ∀ d ∈ directive, spaceBefore (some d) = [' '] := by
        simp [directive_eq, spaceBefore, Text.isBlank]
      exact List.cons_prefix_cons.2 ⟨rfl, ih (hapart d (hstart.subset List.mem_cons_self))
        ((List.suffix_cons d start).trans hstart) htail⟩
  | @mark before last sign text cs out _ htext _ hhead _ _ =>
    cases start with
    | nil => exact List.nil_prefix
    | cons d start =>
      obtain ⟨-, x, hx, -⟩ := htext
      obtain ⟨y, text, rfl⟩ := List.exists_cons_of_ne_nil (List.ne_nil_of_mem hx)
      obtain ⟨rfl, -⟩ := List.cons_prefix_cons.1 hout
      exact absurd (hstart.subset List.mem_cons_self) (hhead hbefore d rfl)

/-- No directive comes about by another spelling. -/
theorem Respells.noDirective (h : Respells before cs out) (hcs : NoDirective lead cs) :
    NoDirective lead out := by
  induction h generalizing lead with
  | nil => trivial
  | @same before cs out c hrest ih =>
    refine ⟨fun hlead hpre => hcs.1 hlead ?_, ih hcs.2⟩
    -- the sign of a directive is kept, so the directive in the new text was one in the old text
    obtain ⟨rfl, htail⟩ := List.cons_prefix_cons.1 hpre
    exact List.cons_prefix_cons.2 ⟨rfl, hrest.prefix (by decide) (List.suffix_cons _ _) htail⟩
  | mark hsign htext hno _ _ ih =>
    have hcs := hcs.of_append
    rw [hsign.foldl_leads] at hcs
    refine .append hno ?_
    rw [htext.foldl_leads]
    exact ih hcs

/-! ### What is written for elements -/

theorem Respells.keep (text : List Char) (h : Respells (text.getLast?.or before) cs out) :
    Respells before (text ++ cs) (text ++ out) := by
  induction text generalizing before with
  | nil => simpa using h
  | cons c text ih =>
    refine .same c (ih ?_)
    cases text with
    | nil => exact h
    | cons d text =>
      rw [List.getLast?_cons_cons] at h
      rwa [List.getLast?_eq_some_getLast (List.cons_ne_nil d text)] at h ⊢

theorem respells_word (op : WordOp) (after : Option Char) (h : Respells last cs out) :
    Respells before (op.sign ++ cs) ((Element.word op).lua before after ++ out) := by
  have hsign : Visible op.sign := by cases op <;> exact ⟨by decide, _, List.mem_cons_self, rfl⟩
  have hword : ∃ c ∈ op.word, Text.isBlank c = false := by
    cases op <;> exact ⟨_, List.mem_cons_self, rfl⟩
  obtain ⟨c, hc, hvisible⟩ := hword
  refine .mark hsign ⟨?_, c, by simp [Element.lua, hc], hvisible⟩ ?_ (fun hb => ?_) h
  · rcases spaceBefore_cases before with hb | hb <;>
      rcases spaceAfter_cases after with ha | ha <;>
        cases op <;> simp [Element.lua, WordOp.word, hb, ha]
  · rcases spaceBefore_cases before with hb | hb <;>
      rcases spaceAfter_cases after with ha | ha <;>
        cases op <;> simp [Element.lua, WordOp.word, hb, ha]
  · simp [Element.lua, hb, directive_eq]

/-- The marks of a comment between slashes are written as long brackets after two hyphens, and the
text of the comment stays. -/
theorem respells_block (body : List Char) (after : Option Char) (h : Respells last cs out) :
    Respells before ((Element.block body).source ++ cs)
      ((Element.block body).lua before after ++ out) := by
  have hopen (level : Nat) : Visible ('-' :: '-' :: opener level) :=
    ⟨by simp [opener, equals], '-', List.mem_cons_self, rfl⟩
  have hclose (level : Nat) : Visible (closer level) :=
    ⟨by simp [closer, equals], ']', List.mem_cons_self, rfl⟩
  have hend (level : Nat) (before : Option Char) :
      Respells before (['*', '/'] ++ cs) (closer level ++ out) :=
    .mark ⟨by decide, '*', List.mem_cons_self, rfl⟩ (hclose level) (by simp [closer, equals])
      (fun _ => by simp [closer, directive_eq]) h
  have hbody (level : Nat) : Respells before (['/', '*'] ++ (body ++ (['*', '/'] ++ cs)))
      ('-' :: '-' :: opener level ++ (body ++ (closer level ++ out))) :=
    .mark ⟨by decide, '/', List.mem_cons_self, rfl⟩ (hopen level) (by simp [opener, equals])
      (fun _ => by simp [directive_eq]) (show Respells none _ _ from .keep body (hend level _))
  simpa [Element.source, Element.lua] using hbody (freeLevel body (body.length + 1) 0)

theorem Element.respells (e : Element) (after : Option Char)
    (h : Respells (e.lua before after).getLast? cs out) :
    Respells before (e.source ++ cs) (e.lua before after ++ out) := by
  have hkept (hlua : e.lua before after = e.source) :
      Respells before (e.source ++ cs) (e.lua before after ++ out) := by
    rw [hlua] at h ⊢
    rw [List.getLast?_eq_some_getLast (source_ne_nil e)] at h
    refine .keep _ ?_
    rwa [List.getLast?_eq_some_getLast (source_ne_nil e)]
  cases e with
  | word op => exact respells_word op after h
  | block body => exact respells_block body after h
  | notEqual =>
    show Respells before (['!', '='] ++ cs) (['~', '='] ++ out)
    exact .mark ⟨by decide, '!', List.mem_cons_self, rfl⟩ ⟨by decide, '~', List.mem_cons_self, rfl⟩
      (by decide) (fun _ => by simp [directive_eq]) h
  | slashes =>
    show Respells before (['/', '/'] ++ cs) (['-', '-'] ++ out)
    exact .mark ⟨by decide, '/', List.mem_cons_self, rfl⟩ ⟨by decide, '-', List.mem_cons_self, rfl⟩
      (by decide) (fun _ => by simp [directive_eq]) h
  | _ => exact hkept rfl

theorem respells_written (after before : Option Char) (es : List Element) :
    Respells before (es.flatMap Element.source) (written after before es) := by
  induction es generalizing before with
  | nil => exact .nil
  | cons e es ih => exact e.respells _ (ih _)

/-- What is written for a text without directives has none. -/
theorem DirectiveFree.written (h : DirectiveFree (es.flatMap Element.source))
    (after before : Option Char) : DirectiveFree (written after before es) := by
  rw [directiveFree_iff] at h ⊢
  exact (respells_written after before es).noDirective h

end ScriptHost.Compile.Slang
