import ScriptHost.Config.Loading
import ScriptHost.Proofs.Config.Paths

/-! Whatever a configuration is loaded from has its keys in order: documents, and what the environment
overrides. -/

namespace ScriptHost

open Text (Reader)
open ScriptHost.Tree (Ordered)

/-! ### Readers -/

namespace Text.Reader

variable {α β σ : Type} {P : α → Prop} {Q : β → Prop} {r : Reader α}

/-- Whatever a reader takes off, it is of a kind. -/
def Yields (r : Reader α) (P : α → Prop) : Prop := ∀ cs a rest, r.run cs = some (a, rest) → P a

theorem yields_pure {a : α} (h : P a) : Yields (pure a) P := by
  intro cs b rest heq
  cases heq
  exact h

theorem yields_failure : Yields (failure : Reader α) P := by
  intro cs a rest heq
  cases heq

theorem Yields.bind {f : α → Reader β} (hr : Yields r P) (hf : ∀ a, P a → Yields (f a) Q) :
    Yields (r >>= f) Q := by
  intro cs b rest heq
  obtain ⟨⟨a, cs'⟩, ha, hb⟩ := Option.bind_eq_some_iff.1 heq
  exact hf a (hr cs a cs' ha) cs' b rest hb

theorem yields_bind {f : α → Reader β} (hf : ∀ a, Yields (f a) Q) : Yields (r >>= f) Q := by
  have hr : Yields r fun _ => True := fun _ _ _ _ => trivial
  exact hr.bind fun a _ => hf a

theorem yields_ite {c : Prop} [Decidable c] {s : Reader α} (hr : Yields r P) (hs : Yields s P) :
    Yields (if c then r else s) P := by
  split
  · exact hr
  · exact hs

theorem yields_loop {step : σ → Reader (σ ⊕ α)} {I : σ → Prop} {start : σ} (hstart : I start)
    (hstep : ∀ s, I s → Yields (step s) fun r => r.elim I P) : Yields (loop step start) P := by
  have hrepeat (bound : Nat) : ∀ s, I s → Yields (repeatUpTo step bound s) P := by
    induction bound with
    | zero => exact fun s _ => yields_failure
    | succ bound ih =>
      intro s hs
      unfold repeatUpTo
      refine (hstep s hs).bind ?_
      rintro (s' | a) h
      · exact ih s' h
      · exact yields_pure h
  exact yields_bind fun cs => hrepeat _ start hstart

end Text.Reader

open Text.Reader

/-! ### The environment -/

namespace Environment

theorem entriesStep_ordered {value : Reader RawTree} (hvalue : Yields value Ordered)
    {es : List (String × RawTree)} (hes : Ordered (.table es)) :
    Yields (entriesStep value es) fun r => r.elim (Ordered <| .table ·) (Ordered <| .table ·) := by
  unfold entriesStep
  refine yields_bind fun isEnd => yields_ite (yields_pure hes) ?_
  refine yields_bind fun k => yields_bind fun _ => hvalue.bind fun v hv => ?_
  have hnext := hes.insert hv k
  refine yields_bind fun isComma => yields_ite (yields_pure hnext) ?_
  exact yields_bind fun _ => yields_pure hnext

theorem value_ordered (depth : Nat) : Yields (value depth) Ordered := by
  induction depth with
  | zero => exact yields_failure
  | succ depth ih =>
    have hend (v : RawTree) (hv : Ordered v) : Yields (do skipBlanks; return v) Ordered :=
      yields_bind fun _ => yields_pure hv
    have hleaf (a : Option Scalar) := (yields_pure (Ordered.leaf a)).bind hend
    have hnil : Ordered (.table ([] : List (String × RawTree))) :=
      .table List.Pairwise.nil fun e he => by cases he
    unfold value
    refine yields_bind fun _ => yields_bind fun isTrue => yields_bind fun isFalse => ?_
    refine yields_ite (hleaf _) (yields_ite (hleaf _) (yields_bind fun next => ?_))
    split
    · refine yields_bind fun _ => Yields.bind (yields_loop hnil fun es hes => entriesStep_ordered ih hes) ?_
      intro es hes
      exact (yields_pure hes).bind hend
    · exact yields_bind fun _ => yields_bind fun _ => hleaf none
    · exact yields_bind fun s => hleaf _
    · refine yields_bind fun _ => yields_bind fun cs => yields_ite ?_ ?_
      · exact yields_bind fun _ => yields_bind fun _ => yields_bind fun _ => hleaf none
      · exact yields_bind fun _ => yields_bind fun _ => hleaf none
    · exact yields_bind fun word => hleaf _

theorem ordered_ofText (s : String) : Ordered (ofText s) := by
  unfold ofText Reader.readAll?
  split
  · rename_i v hv
    exact value_ordered _ _ _ _ hv
  · exact .leaf _

theorem ordered_nest {v : RawTree} (hv : Ordered v) (path : List String) : Ordered (nest v path) := by
  induction path with
  | nil => exact hv
  | cons k path ih =>
    refine .table (List.pairwise_singleton _ _) ?_
    intro e he
    rw [List.mem_singleton.1 he]
    exact ih

/-- What the environment overrides has its keys in order. -/
theorem ordered_overrides (vars : List (String × String)) : Ordered (.table (overrides vars)) := by
  suffices hfold : ∀ es, Ordered (.table es) → Ordered (.table (vars.foldl _ es)) from
    hfold [] (.table List.Pairwise.nil fun e he => by cases he)
  induction vars with
  | nil => exact fun es hes => hes
  | cons v vars ih =>
    intro es hes
    rw [List.foldl_cons]
    apply ih
    split
    · rename_i k path _
      have hnew := ordered_nest (ordered_ofText v.2) path
      apply hes.mergeEntries
      intro e he
      rw [List.mem_singleton.1 he]
      exact ⟨hnew, fun t ht => ht.merge hnew⟩
    · exact hes

end Environment

/-! ### Documents -/

namespace Toml

namespace Node

/-- Every table that counts has its keys in order. -/
inductive Ordered : Node → Prop
  | value {v : RawTree} : Tree.Ordered v → Ordered (value v)
  | table (o : Opening) {es : List (String × Node)} : Entries.Sorted es → (∀ e ∈ es, Ordered e.2) →
      Ordered (table o es)
  /-- Nothing is kept of a list of tables. -/
  | tables (last : List (String × Node)) : Ordered (tables last)

/-- Entries of which every one does. -/
def AllOrdered (es : List (String × Node)) : Prop := Entries.Sorted es ∧ ∀ e ∈ es, Ordered e.2

variable {es es' : List (String × Node)} {n : Node} {k : String}

theorem allOrdered_nil : AllOrdered [] := ⟨List.Pairwise.nil, fun e he => by cases he⟩

theorem AllOrdered.insert (h : AllOrdered es) (hn : Ordered n) (k : String) :
    AllOrdered (Entries.insert k n es) := by
  refine ⟨Entries.sorted_insert h.1 k n, ?_⟩
  intro e he
  rcases Entries.mem_insert he with rfl | he
  · exact hn
  · exact h.2 e he

theorem AllOrdered.lookup (h : AllOrdered es) (hn : es.lookup k = some n) : Ordered n :=
  h.2 _ (Tree.mem_of_lookup hn)

theorem AllOrdered.table (h : AllOrdered es) (o : Opening) : Ordered (.table o es) := .table o h.1 h.2

theorem Ordered.entries {o : Opening} (h : Ordered (.table o es)) : AllOrdered es := by
  cases h with
  | table _ hsorted hall => exact ⟨hsorted, hall⟩

theorem toTrees_eq_map (es : List (String × Node)) : toTrees es = es.map fun e => (e.1, e.2.toTree) := by
  induction es with
  | nil => rfl
  | cons e es ih =>
    rw [toTrees, ih]
    rfl

theorem Ordered.toTree (h : Ordered n) : Tree.Ordered n.toTree := by
  induction h with
  | value hv => exact hv
  | table o hsorted hall ih =>
    rw [Node.toTree, toTrees_eq_map]
    refine .table (List.pairwise_map.2 hsorted) ?_
    intro e he
    obtain ⟨f, hf, rfl⟩ := List.mem_map.1 he
    exact ih f hf
  | tables last => exact .leaf none

theorem AllOrdered.toTrees (h : AllOrdered es) : Tree.Ordered (.table (toTrees es)) := by
  have htree := (h.table .header).toTree
  rwa [Node.toTree] at htree

theorem change_ordered {opening : Opening}
    {f : Opening → List (String × Node) → Option (List (String × Node))}
    (hf : ∀ here es es', AllOrdered es → f here es = some es' → AllOrdered es') {path : List String}
    {here : Opening} (hes : AllOrdered es) (h : change opening f path here es = some es') :
    AllOrdered es' := by
  induction path generalizing here es es' with
  | nil => exact hf here es es' hes h
  | cons k path ih =>
    unfold change at h
    dsimp only at h
    split at h
    · obtain ⟨inner, hinner, h⟩ := Option.bind_eq_some_iff.1 h
      cases h
      exact hes.insert ((ih allOrdered_nil hinner).table opening) k
    · cases h
    · rename_i there inner hlookup
      split at h
      · cases h
      · obtain ⟨n, hn, h⟩ := Option.bind_eq_some_iff.1 h
        obtain ⟨inner', hinner', rfl⟩ := Option.map_eq_some_iff.1 hn
        cases h
        exact hes.insert ((ih (hes.lookup hlookup).entries hinner').table there) k
    · obtain ⟨n, hn, h⟩ := Option.bind_eq_some_iff.1 h
      obtain ⟨last, -, rfl⟩ := Option.map_eq_some_iff.1 hn
      cases h
      exact hes.insert (.tables last) k

theorem put_ordered {v : RawTree} (hv : Tree.Ordered v) {path : List String} {here : Opening}
    (hes : AllOrdered es) (h : put path k v here es = some es') : AllOrdered es' := by
  refine change_ordered ?_ hes h
  intro here es es' hes h
  split at h
  · cases h
  · cases h
    exact hes.insert (.value hv) k

theorem openTable_ordered {here : Opening} (hes : AllOrdered es) (h : openTable k here es = some es') :
    AllOrdered es' := by
  unfold openTable at h
  split at h
  · cases h
    exact hes.insert (allOrdered_nil.table .header) k
  · rename_i inner hlookup
    cases h
    exact hes.insert ((hes.lookup hlookup).entries.table .header) k
  · cases h

theorem openItem_ordered {here : Opening} (hes : AllOrdered es) (h : openItem k here es = some es') :
    AllOrdered es' := by
  unfold openItem at h
  split at h
  · cases h
    exact hes.insert (.tables []) k
  · cases h
    exact hes.insert (.tables []) k
  · cases h

end Node

theorem word_ordered : Yields word Ordered := by
  have hword (cs : List Char) (v : RawTree) (h : ofWord? cs = some v) : Ordered v := by
    unfold ofWord? at h
    split at h
    · cases h
      exact .leaf _
    · cases h
      exact .leaf _
    · split at h
      · cases h
        exact .leaf _
      · cases h
        exact .leaf _
      · cases h
        refine .table (List.pairwise_singleton _ _) ?_
        intro e he
        rw [List.mem_singleton.1 he]
        exact .leaf _
      · cases h
  unfold word
  refine yields_bind fun w => yields_bind fun cs => ?_
  dsimp only
  split
  case' h_1 => refine yields_ite ?_ ?_
  all_goals
    repeat refine yields_bind fun _ => ?_
    split
    · exact yields_pure (hword _ _ ‹_›)
    · exact yields_failure

theorem leaf_ordered : Yields value.leaf Ordered := by
  unfold value.leaf
  refine yields_bind fun next => ?_
  split
  · exact yields_bind fun s => yields_pure (.leaf _)
  · exact yields_bind fun s => yields_pure (.leaf _)
  · exact word_ordered

theorem entryStep_ordered {value : Reader RawTree} (hvalue : Yields value Ordered)
    {es : List (String × Node)} (hes : Node.AllOrdered es) :
    Yields (entryStep value es) fun r => r.elim Node.AllOrdered Node.AllOrdered := by
  unfold entryStep
  refine yields_bind fun (path, k) => yields_bind fun _ => yields_bind fun _ => hvalue.bind fun v hv =>
    yields_bind fun _ => ?_
  split
  · exact yields_failure
  · rename_i es' hput
    have hnext := Node.put_ordered hv hes hput
    refine yields_bind fun isComma => yields_ite (yields_pure hnext) ?_
    exact yields_bind fun _ => yields_pure hnext

theorem entries_ordered {value : Reader RawTree} (hvalue : Yields value Ordered) :
    Yields (entries value) Node.AllOrdered := by
  unfold entries
  refine yields_bind fun _ => yields_bind fun isEnd => yields_ite (yields_pure Node.allOrdered_nil) ?_
  exact yields_loop Node.allOrdered_nil fun es hes => entryStep_ordered hvalue hes

theorem value_ordered (depth : Nat) : Yields (value depth) Ordered := by
  induction depth with
  | zero => exact leaf_ordered
  | succ depth ih =>
    unfold value
    refine yields_bind fun isArray => yields_ite ?_ ?_
    · exact yields_bind fun _ => yields_pure (.leaf none)
    · refine yields_bind fun isTable => yields_ite ?_ leaf_ordered
      exact (entries_ordered ih).bind fun es hes => yields_pure hes.toTrees

namespace Document

theorem opened_ordered {d d' : Document} (hd : Node.AllOrdered d.entries) {path : List String} {k : String}
    {f : String → Opening → List (String × Node) → Option (List (String × Node))}
    (hf : ∀ here es es', Node.AllOrdered es → f k here es = some es' → Node.AllOrdered es')
    (h : d.opened path k f = some d') : Node.AllOrdered d'.entries := by
  obtain ⟨es, hes, h⟩ := Option.bind_eq_some_iff.1 h
  cases h
  exact Node.change_ordered hf hd hes

theorem added_ordered {d d' : Document} (hd : Node.AllOrdered d.entries) {path : List String} {k : String}
    {v : RawTree} (hv : Ordered v) (h : d.added path k v = some d') : Node.AllOrdered d'.entries := by
  obtain ⟨es, hes, h⟩ := Option.bind_eq_some_iff.1 h
  cases h
  exact Node.change_ordered (fun _ _ _ hes h => Node.put_ordered hv hes h) hd hes

theorem yields_lift {d : Option Document} {P : Document → Prop} (h : ∀ d', d = some d' → P d') :
    Yields (lift d) P := by
  intro cs d' rest heq
  obtain ⟨d'', hd, heq⟩ := Option.bind_eq_some_iff.1 heq
  cases heq
  exact h d' hd

theorem line_ordered {d : Document} (hd : Node.AllOrdered d.entries) :
    Yields (line d) fun d => Node.AllOrdered d.entries := by
  unfold line
  refine yields_bind fun cs => yields_bind fun next => yields_ite (yields_pure hd) ?_
  refine yields_bind fun isItem => yields_ite ?_ ?_
  · refine yields_bind fun (path, k) => yields_bind fun _ => yields_bind fun _ => yields_lift ?_
    exact fun d' => opened_ordered hd fun _ _ _ hes h => Node.openItem_ordered hes h
  · refine yields_bind fun isTable => yields_ite ?_ ?_
    · refine yields_bind fun (path, k) => yields_bind fun _ => yields_lift ?_
      exact fun d' => opened_ordered hd fun _ _ _ hes h => Node.openTable_ordered hes h
    · refine yields_bind fun (path, k) => yields_bind fun _ => yields_bind fun _ => ?_
      refine (value_ordered depthLimit).bind fun v hv => yields_lift ?_
      exact fun d' => added_ordered hd hv

theorem lines_ordered : Yields lines fun d => Node.AllOrdered d.entries := by
  unfold lines
  refine yields_loop (I := fun d => Node.AllOrdered d.entries) Node.allOrdered_nil fun d hd => ?_
  refine yields_bind fun _ => yields_bind fun cs => yields_ite (yields_pure hd) ?_
  exact (line_ordered hd).bind fun d' hd' => yields_bind fun _ => yields_pure hd'

/-- A document has its keys in order. -/
theorem ordered_read? {s : String} {es : List (String × RawTree)} (h : read? s = some es) :
    Ordered (.table es) := by
  obtain ⟨d, hd, h⟩ := Option.bind_eq_some_iff.1 h
  cases h
  unfold Reader.readAll? at hd
  split at hd
  · rename_i hrun
    cases hd
    exact (lines_ordered _ _ _ hrun).toTrees
  · cases hd

end Document

end Toml

/-! ### Layers -/

namespace ConfigLayer

theorem ordered_ofFile? {file : FileText} {l : ConfigLayer} (h : ofFile? file = some l) :
    Ordered (.table l) := by
  unfold ofFile? at h
  split at h
  · exact Toml.Document.ordered_read? h
  · split at h
    · cases h
      exact .table List.Pairwise.nil fun e he => by cases he
    · cases h

theorem ordered_defaults : Ordered (.table defaults) := by
  have hdefaults : defaults = [(Startup.sectionName, .table
      [(Startup.engineKey, .leaf (some (.string Startup.defaultEngine))),
        (Startup.enabledKey, .leaf (some (.boolean true)))])] := by rfl
  rw [hdefaults]
  refine .table (List.pairwise_singleton _ _) ?_
  intro e he
  rw [List.mem_singleton.1 he]
  refine .table (List.pairwise_pair.2 (by decide)) ?_
  intro f hf
  rw [List.mem_cons, List.mem_singleton] at hf
  rcases hf with rfl | rfl
  · exact .leaf _
  · exact .leaf _

end ConfigLayer

theorem ConfigInputs.ordered_layers? {i : ConfigInputs} {layers : List ConfigLayer}
    (h : i.layers? = some layers) : ∀ l ∈ layers, Ordered (.table l) := by
  unfold layers? at h
  obtain ⟨user, huser, h⟩ := Option.bind_eq_some_iff.1 h
  obtain ⟨project, hproject, h⟩ := Option.bind_eq_some_iff.1 h
  have hall {named : ConfigLayer} (hnamed : Ordered (.table named)) :
      ∀ l ∈ [ConfigLayer.defaults, user, project, named, Environment.overrides i.environment],
        Ordered (.table l) := by
    simp only [List.forall_mem_cons]
    refine ⟨ConfigLayer.ordered_defaults, ConfigLayer.ordered_ofFile? huser,
      ConfigLayer.ordered_ofFile? hproject, hnamed, Environment.ordered_overrides _, ?_⟩
    intro l hl
    cases hl
  dsimp only at h
  split at h
  · obtain ⟨named, hnamed, h⟩ := Option.bind_eq_some_iff.1 h
    cases h
    exact hall (ConfigLayer.ordered_ofFile? hnamed)
  · cases h
    exact hall (.table List.Pairwise.nil fun e he => by cases he)

end ScriptHost
