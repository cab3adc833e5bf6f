/-! What a text begins with. -/

namespace ScriptHost.Text

/-- What follows `lead` in a text that begins with it. -/
def after? : (lead cs : List Char) → Option (List Char)
  | [], cs => some cs
  | _ :: _, [] => none
  | l :: ls, c :: cs => if l = c then after? ls cs else none

theorem after?_eq_some_iff {lead cs rest : List Char} :
    after? lead cs = some rest ↔ cs = lead ++ rest := by
  induction lead generalizing cs with
  | nil => simp [after?]
  | cons l ls ih =>
    cases cs with
    | nil => simp [after?]
    | cons c cs =>
      unfold after?
      split
      · subst_vars; simp [ih]
      · rename_i h
        simp [Ne.symm h]

@[simp] theorem after?_append (lead rest : List Char) : after? lead (lead ++ rest) = some rest :=
  after?_eq_some_iff.2 rfl

/-- What follows `lead` in a text that begins with it. -/
def restAfter? (lead s : String) : Option String :=
  (after? lead.toList s.toList).map String.ofList

end ScriptHost.Text
