import Mathlib.Tactic.ByContra
import ScriptHost.Proofs.Lua.Reading

/-! Comments between slashes, which become long comments of Lua. The level of the long comment is the
least whose closing bracket does not occur in the text of the comment. Lua ends the comment there and
nowhere else, and takes it for one, but for two kinds of neighbours: a text that ends like the closing
bracket begins, and a hyphen right before the comment. -/

namespace ScriptHost.Compile.Slang

open Lua (Lexeme)
open Lua.Lexer

variable {body p r s stop : List Char} {es : List Element} {level fuel line : Nat}

/-! ### Where a text ends -/

theorem freeOf_iff : FreeOf stop body ↔ ∀ s, s <:+ body → s ≠ [] → ¬ stop <+: s ++ stop := by
  induction body with
  | nil => exact ⟨fun _ s hs hne => absurd (List.suffix_nil.1 hs) hne, fun _ => .nil⟩
  | cons c body ih =>
    constructor
    · rintro (_ | ⟨hfirst, hbody⟩) s hs hne
      rcases List.suffix_cons_iff.1 hs with rfl | hs
      · exact hfirst
      · exact ih.1 hbody s hs hne
    · intro h
      exact .cons (h _ List.suffix_rfl (List.cons_ne_nil _ _))
        (ih.2 fun s hs => h s (hs.trans (List.suffix_cons c body)))

theorem FreeOf.not_infix (h : FreeOf stop body) (hstop : stop ≠ []) : ¬ stop <:+: body := by
  rw [List.infix_iff_prefix_suffix]
  rintro ⟨s, hpre, hs⟩
  have hne : s ≠ [] := by
    rintro rfl
    exact hstop (List.prefix_nil.1 hpre)
  exact freeOf_iff.1 h s hs hne (hpre.trans (List.prefix_append _ _))

/-- A text without the marks of an end has none across its end. -/
theorem freeOf_slash_iff : FreeOf ['*', '/'] body ↔ ¬ ['*', '/'] <:+: body := by
  refine ⟨fun h => h.not_infix (List.cons_ne_nil _ _), fun h => freeOf_iff.2 fun s hs hne hstop => ?_⟩
  refine h (List.infix_iff_prefix_suffix.2 ⟨s, ?_, hs⟩)
  match s, hne with
  | [c], _ => simp [List.cons_prefix_cons] at hstop
  | c :: d :: s, _ =>
    simp only [List.cons_append, List.cons_prefix_cons, List.nil_prefix, and_true] at hstop ⊢
    exact hstop

/-- A closing bracket that begins in a text before one stands in the text, or the text ends like a
closing bracket begins. -/
theorem closer_prefix_append (hs : s ≠ []) (h : closer level <+: s ++ closer level) :
    closer level <+: s ∨ s = ']' :: equals level := by
  obtain ⟨rest, hrest⟩ := h
  rcases List.append_eq_append_iff.1 hrest with ⟨more, rfl, -⟩ | ⟨more, hmore, hclose⟩
  · exact .inl (List.prefix_append _ _)
  · cases more with
    | nil => exact .inl ⟨[], by simpa using hmore⟩
    | cons c more =>
      obtain ⟨d, s, rfl⟩ := List.exists_cons_of_ne_nil hs
      simp only [closer, List.cons_append, List.cons.injEq] at hmore hclose
      obtain ⟨rfl, hmore⟩ := hmore
      obtain ⟨rfl, -⟩ := hclose
      refine .inr (congrArg _ ?_)
      rcases List.append_eq_append_iff.1 hmore with ⟨tail, rfl, htail⟩ | ⟨tail, hequals, htail⟩
      · cases tail <;> simp_all
      · cases tail with
        | nil => simpa using hequals.symm
        | cons x tail =>
          obtain ⟨rfl, -⟩ := List.cons.inj htail
          have hmem : ']' ∈ equals level := by simp [hequals]
          simp [equals] at hmem

theorem freeOf_closer_iff : FreeOf (closer level) body ↔
    ¬ closer level <:+: body ∧ ¬ (']' :: equals level) <:+ body := by
  constructor
  · intro h
    refine ⟨h.not_infix (by simp [closer]), fun hs => ?_⟩
    exact freeOf_iff.1 h _ hs (List.cons_ne_nil _ _) ⟨equals level ++ [']'], by simp [closer]⟩
  · rintro ⟨hin, hend⟩
    refine freeOf_iff.2 fun s hs hne hstop => ?_
    rcases closer_prefix_append hne hstop with h | rfl
    · exact hin (List.infix_iff_prefix_suffix.2 ⟨s, h, hs⟩)
    · exact hend hs

/-! ### The level -/

/-- A level is found: the closing bracket of no lower one is missing in the text, and with as many
levels as the text has characters the bracket is too long to stand in it. -/
theorem freeLevel_spec (h : body.length ≤ level + fuel) :
    ¬ closer (freeLevel body fuel level) <:+: body ∧ level ≤ freeLevel body fuel level ∧
      ∀ k, level ≤ k → k < freeLevel body fuel level → closer k <:+: body := by
  induction fuel generalizing level with
  | zero =>
    refine ⟨fun hin => ?_, Nat.le_refl _, fun k hk hlt => absurd hlt (Nat.not_lt.2 hk)⟩
    have hlen := hin.length_le
    simp [freeLevel, closer, equals] at hlen
    omega
  | succ fuel ih =>
    rw [freeLevel]
    split
    · rename_i hsome
      have hin : closer level <:+: body := by
        by_contra hno
        rw [upTo_eq_none_iff.2 hno] at hsome
        cases hsome
      obtain ⟨hfree, hle, hlower⟩ := @ih (level + 1) (by omega)
      refine ⟨hfree, by omega, fun k hk hlt => ?_⟩
      rcases Nat.eq_or_lt_of_le hk with rfl | hk
      · exact hin
      · exact hlower k hk hlt
    · rename_i hnone
      refine ⟨fun hin => hnone ?_, Nat.le_refl _, fun k hk hlt => absurd hlt (Nat.not_lt.2 hk)⟩
      rw [Option.isSome_iff_ne_none, ne_eq, upTo_eq_none_iff, not_not]
      exact hin

/-- The level of the long comment that a comment between slashes becomes. -/
def commentLevel (body : List Char) : Nat := freeLevel body (body.length + 1) 0

/-- What a comment between slashes is written as. -/
def luaComment (body : List Char) : List Char :=
  '-' :: '-' :: (opener (commentLevel body) ++ (body ++ closer (commentLevel body)))

theorem lua_block (body : List Char) (before after : Option Char) :
    (Element.block body).lua before after = luaComment body := by
  simp [Element.lua, luaComment, commentLevel]

/-! ### The comment in Lua -/

/-- A source with a comment between slashes. -/
def withBlock (p body r : List Char) : List Char := p ++ '/' :: '*' :: (body ++ '*' :: '/' :: r)

/-- Behind some elements and a comment between slashes, the rest is cut as on its own. -/
theorem cuts_withBlock_iff {all : List Element} (hbody : ¬ ['*', '/'] <:+: body)
    (hp : Cuts (withBlock p body []) es (withBlock [] body [])) :
    Cuts (withBlock p body r) all [] ↔ ∃ gs, all = es ++ .block body :: gs ∧ Cuts r gs [] := by
  have hsettled : Settled (withBlock [] body []) r := .inl ⟨'/', by simp [withBlock], by decide⟩
  have hsource (p : List Char) : withBlock p body [] ++ r = withBlock p body r := by simp [withBlock]
  have hcut := hp.append hsettled
  rw [hsource, hsource] at hcut
  have hblock : Begins (withBlock [] body r) (.block body) r := by
    simpa [withBlock] using @Begins.block body r (freeOf_slash_iff.2 hbody)
  constructor
  · intro hall
    obtain ⟨gs, rfl, hgs⟩ := hall.resume hcut
    cases hgs with
    | cons hb hrest =>
      obtain ⟨rfl, rfl⟩ := hb.det hblock
      exact ⟨_, rfl, hrest⟩
  · rintro ⟨gs, rfl, hgs⟩
    exact hcut.trans (.cons hblock hgs)

/-- A source with a comment between slashes is translated whenever what follows the comment is. -/
theorem exists_convert_withBlock_iff (hbody : ¬ ['*', '/'] <:+: body)
    (hp : Cuts (withBlock p body []) es (withBlock [] body [])) :
    (∃ t, convert (String.ofList (withBlock p body r)) = .ok t) ↔
      ∃ t, convert (String.ofList r) = .ok t := by
  simp only [convert_eq_ok_iff, String.toList_ofList]
  constructor
  · rintro ⟨_, all, hall, -⟩
    obtain ⟨gs, -, hgs⟩ := (cuts_withBlock_iff hbody hp).1 hall
    exact ⟨_, gs, hgs, rfl⟩
  · rintro ⟨_, gs, hgs, -⟩
    exact ⟨_, _, (cuts_withBlock_iff hbody hp).2 ⟨gs, rfl, hgs⟩, rfl⟩

/-- A comment between slashes behind some elements is written behind what is written for them. -/
theorem exists_of_convert_withBlock {t : String} (hbody : ¬ ['*', '/'] <:+: body)
    (hp : Cuts (withBlock p body []) es (withBlock [] body []))
    (h : convert (String.ofList (withBlock p body r)) = .ok t) :
    ∃ b, t.toList = written (some '/') none es ++ (luaComment body ++ b) := by
  obtain ⟨all, hall, rfl⟩ := convert_eq_ok_iff.1 h
  rw [String.toList_ofList] at hall
  obtain ⟨gs, rfl, -⟩ := (cuts_withBlock_iff hbody hp).1 hall
  rw [String.toList_ofList, written_append, written, lua_block]
  exact ⟨_, rfl⟩

/-- Behind the pieces of what stands before it, Lua reads the comment written for a comment between
slashes as one comment, which ends where `b` begins. -/
def OneComment (a body b : List Char) (ps : List (Piece Empty)) (line : Nat) : Prop :=
  Reads 1 (a ++ (luaComment body ++ b)) ps line (luaComment body ++ b) ∧
    ∃ last, Takes line (luaComment body ++ b) [.comment line last] last b

/-- A text that ends like its closing bracket begins has the comment end too early. -/
theorem not_suffix_of_takes {b : List Char} {ps : List (Piece Empty)} {last : Nat}
    (h : Takes line (luaComment body ++ b) ps last b) :
    ¬ (']' :: equals (commentLevel body)) <:+ body := by
  rintro ⟨lead, hlead⟩
  have hin : closer (commentLevel body) <:+: body ++ [']'] := by
    refine ⟨lead, [], ?_⟩
    conv => rhs; rw [← hlead]
    simp [closer]
  -- Lua's comment ends with the first closing bracket, and that leaves more of the text than `b`.
  obtain ⟨inside, rest, hf, hsplit⟩ := exists_freeOf_of_infix hin
  obtain ⟨last', hread⟩ := comment_bracket hf line
  have hspells : Spells line _ last' _ (rest ++ (equals (commentLevel body) ++ ']' :: b)) :=
    .comment hf hread
  have hcomment := hspells.takes
  have htext : '-' :: '-' :: (opener (commentLevel body) ++ (inside ++ closer (commentLevel body))) ++
      (rest ++ (equals (commentLevel body) ++ ']' :: b)) = luaComment body ++ b := by
    have hsplit := congrArg (· ++ (equals (commentLevel body) ++ ']' :: b)) hsplit
    simp only [List.append_assoc, List.cons_append, List.nil_append] at hsplit
    simp [luaComment, closer, hsplit]
  rw [htext] at hcomment
  have hlen := congrArg List.length (h.det hcomment).2.2
  simp at hlen
  omega

/-- Lua reads the comment as one when its text does not end like its closing bracket begins and no
hyphen stands right before it. -/
theorem oneComment_of_suffix {a b : List Char} {ps : List (Piece Empty)}
    (ha : Reads 1 (a ++ [' ']) ps line [' ']) (hhyphen : a.getLast? ≠ some '-')
    (hend : ¬ (']' :: equals (commentLevel body)) <:+ body) : OneComment a body b ps line := by
  have hfree : FreeOf (closer (commentLevel body)) body :=
    freeOf_closer_iff.2 ⟨(freeLevel_spec (by omega)).1, hend⟩
  obtain ⟨last, hread⟩ := comment_bracket hfree line
  refine ⟨?_, last, ?_⟩
  · simpa [luaComment] using ha.abuts (.here _) fun _ => hhyphen
  · have hspells : Spells line _ last _ b := .comment hfree hread
    simpa [luaComment] using hspells.takes

/-- A comment between slashes behind code that Lua reads completely. A level for it is always found,
the least whose closing bracket is not in the text of the comment, and there is a translation whenever
there is one of what follows the comment. What is written is for Lua the code before it and one
comment, which ends where the rest begins, exactly when the code before it does not end with a hyphen
and the text does not end with a closing bracket and as many equals signs as the level has. -/
theorem blockComment_correct_iff {ps : List (Piece Empty)} {stop : Nat}
    (hbody : ¬ ['*', '/'] <:+: body)
    (hp : Cuts (withBlock p body []) es (withBlock [] body []))
    (hlua : Reads 1 (written (some '/') none es ++ [' ']) ps stop [' ']) :
    (¬ closer (commentLevel body) <:+: body ∧ ∀ k < commentLevel body, closer k <:+: body) ∧
    ∀ r, ((∃ t, convert (String.ofList (withBlock p body r)) = .ok t) ↔
        ∃ t, convert (String.ofList r) = .ok t) ∧
      ∀ t, convert (String.ofList (withBlock p body r)) = .ok t →
        ∃ b, t.toList = written (some '/') none es ++ (luaComment body ++ b) ∧
          (OneComment (written (some '/') none es) body b ps stop ↔
            (written (some '/') none es).getLast? ≠ some '-' ∧
              ¬ (']' :: equals (commentLevel body)) <:+ body) := by
  obtain ⟨hfree, -, hlower⟩ := @freeLevel_spec body 0 (body.length + 1) (by omega)
  refine ⟨⟨hfree, fun k hk => hlower k (Nat.zero_le k) hk⟩, fun r => ?_⟩
  refine ⟨exists_convert_withBlock_iff hbody hp, fun t ht => ?_⟩
  obtain ⟨b, hb⟩ := exists_of_convert_withBlock hbody hp ht
  refine ⟨b, hb, fun h => ?_, fun h => oneComment_of_suffix hlua h.1 h.2⟩
  obtain ⟨hreads, last, htakes⟩ := h
  exact ⟨hreads.getLast?_ne_hyphen rfl, not_suffix_of_takes htakes⟩

/-- A text with closing brackets inside takes a higher level. -/
theorem blockComment_correct_brackets :
    ¬ ['*', '/'] <:+: "a]]b".toList ∧
      Cuts (withBlock ['x'] "a]]b".toList []) [.plain 'x'] (withBlock [] "a]]b".toList []) ∧
      Reads 1 (written (some '/') none [.plain 'x'] ++ [' '])
        [.token (wordLexeme 1 (String.ofList ['x']))] 1 [' '] ∧
      ∀ r t, convert (String.ofList (withBlock ['x'] "a]]b".toList r)) = .ok t →
        ∃ b, t.toList = ['x'] ++ (luaComment "a]]b".toList ++ b) ∧
          OneComment ['x'] "a]]b".toList b [.token (wordLexeme 1 (String.ofList ['x']))] 1 := by
  have hbody : ¬ ['*', '/'] <:+: "a]]b".toList := by decide
  have hp : Cuts (withBlock ['x'] "a]]b".toList []) [.plain 'x'] (withBlock [] "a]]b".toList []) :=
    .cons (.plain (.of_not_mem (by decide) _)) .nil
  have hspells : Spells 1 [.token (wordLexeme 1 (String.ofList ['x']))] 1 ['x'] [' '] :=
    .word (by decide) rfl rfl
  have hlua : Reads 1 (written (some '/') none [.plain 'x'] ++ [' '])
      [.token (wordLexeme 1 (String.ofList ['x']))] 1 [' '] := .one hspells.takes
  refine ⟨hbody, hp, hlua, fun r t ht => ?_⟩
  obtain ⟨b, hb, hiff⟩ := ((blockComment_correct_iff hbody hp hlua).2 r).2 t ht
  exact ⟨b, hb, hiff.2 ⟨by decide, by decide⟩⟩

/-- A comment whose text ends with a bracket is not read as one, as Lua ends it one character early.
Neither is one behind a hyphen, which opens a comment of Lua together with the first hyphen that is
written. -/
theorem not_oneComment_bracket :
    convert "/*a]*/x" = .ok "--[[a]]]x" ∧
      "--[[a]]]x".toList = luaComment "a]".toList ++ ['x'] ∧
      (∀ ps line, ¬ OneComment [] "a]".toList ['x'] ps line) ∧
    convert "x-/*c*/y" = .ok "x---[[c]]y" ∧
      "x---[[c]]y".toList = "x-".toList ++ (luaComment ['c'] ++ ['y']) ∧
      ∀ ps line, ¬ OneComment "x-".toList ['c'] ['y'] ps line := by
  refine ⟨by cbv, by decide, fun ps line h => ?_, by cbv, by decide, fun ps line h => ?_⟩
  · obtain ⟨-, last, htakes⟩ := h
    exact not_suffix_of_takes htakes (by decide)
  · exact h.1.getLast?_ne_hyphen rfl (by decide)

end ScriptHost.Compile.Slang
