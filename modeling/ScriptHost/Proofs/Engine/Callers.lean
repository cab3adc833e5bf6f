import ScriptHost.Engine.Bridge
import ScriptHost.Proofs.Lua.Fields

/-! The functions through which programs call the host. Each of them is a closure over two cells: one has what it
calls, the other one the table of globals, in which it finds `error`. Installing them gives every host function its
closure and puts the closures into a table, whatever the other globals are. -/

namespace ScriptHost.Bridge

open Lua (Heap Val)

/-- A value through which a program calls a host function. -/
def Calls (heap : Heap) (name : String) (f : Val) : Prop :=
  ∃ a fn env, f = .function a ∧ heap.closures[a]? = some ⟨caller, chunk, #[fn, env]⟩ ∧
    heap.cells[fn]? = some (.builtin (.host name)) ∧ heap.cells[env]? = some (.table heap.globals)

/-- Programs find the host functions with some names, and one of them also as `print`. -/
def Offers (heap : Heap) (names : List String) : Prop :=
  ∃ t, heap.global tableName = .table t ∧ ∀ name ∈ names, ∃ f,
    heap.rawGet t (.text name) = f ∧ Calls heap name f ∧ (name = printer → heap.global "print" = f)

/-! ### Installing -/

/-- Closures and cells have been added to a heap, and nothing else has changed. -/
structure Extends (h h' : Heap) : Prop where
  tables : h'.tables = h.tables
  globals : h'.globals = h.globals
  closures : ∃ cs, h'.closures = h.closures ++ cs
  cells : ∃ vs, h'.cells = h.cells ++ vs

namespace Extends

variable {h h' h'' : Heap}

theorem refl (h : Heap) : Extends h h := ⟨rfl, rfl, ⟨#[], by simp⟩, ⟨#[], by simp⟩⟩

theorem trans (h₁ : Extends h h') (h₂ : Extends h' h'') : Extends h h'' := by
  obtain ⟨cs, hcs⟩ := h₁.closures
  obtain ⟨ds, hds⟩ := h₂.closures
  obtain ⟨vs, hvs⟩ := h₁.cells
  obtain ⟨ws, hws⟩ := h₂.cells
  exact ⟨h₂.tables.trans h₁.tables, h₂.globals.trans h₁.globals,
    ⟨cs ++ ds, by rw [hds, hcs, Array.append_assoc]⟩, ⟨vs ++ ws, by rw [hws, hvs, Array.append_assoc]⟩⟩

theorem addCell (h : Heap) (v : Val) : Extends h (h.addCell v).2 :=
  ⟨rfl, rfl, ⟨#[], by simp [Heap.addCell]⟩, ⟨#[v], by simp [Heap.addCell]⟩⟩

theorem addClosure (h : Heap) (c : Lua.Closure) : Extends h (h.addClosure c).2 :=
  ⟨rfl, rfl, ⟨#[c], by simp [Heap.addClosure]⟩, ⟨#[], by simp [Heap.addClosure]⟩⟩

theorem closure (h₁ : Extends h h') {a : Nat} {c : Lua.Closure} (hc : h.closures[a]? = some c) :
    h'.closures[a]? = some c := by
  obtain ⟨cs, hcs⟩ := h₁.closures
  rw [hcs, Array.getElem?_append_left (Array.getElem?_eq_some_iff.1 hc).1, hc]

theorem hasGlobals (h₁ : Extends h h') (hh : h.HasGlobals) :
    h'.HasGlobals ∧ ∀ name, h'.global name = h.global name := by
  have htable : h'.table h'.globals = h.table h.globals := by rw [Heap.table, h₁.tables, h₁.globals, Heap.table]
  refine ⟨⟨?_, htable ▸ hh.record⟩, fun name => ?_⟩
  · rw [h₁.tables, h₁.globals]
    exact hh.bound
  · rw [Heap.global, Heap.global, Heap.rawGet, Heap.rawGet, htable]

theorem cell (h₁ : Extends h h') {a : Nat} {v : Val} (hv : h.cells[a]? = some v) : h'.cells[a]? = some v := by
  obtain ⟨vs, hvs⟩ := h₁.cells
  rw [hvs, Array.getElem?_append_left (Array.getElem?_eq_some_iff.1 hv).1, hv]

end Extends

/-- The functions that are added call host functions, in the order of their names. -/
theorem addCallers_spec (env : Nat) (names : List String) (heap : Heap) :
    Extends heap (addCallers env names heap).2 ∧ (addCallers env names heap).1.map Prod.fst = names ∧
      ∀ name f, (name, f) ∈ (addCallers env names heap).1 → ∃ a fn, f = .function a ∧
        (addCallers env names heap).2.closures[a]? = some ⟨caller, chunk, #[fn, env]⟩ ∧
        (addCallers env names heap).2.cells[fn]? = some (.builtin (.host name)) := by
  induction names generalizing heap with
  | nil => exact ⟨.refl heap, rfl, fun _ _ h => absurd h List.not_mem_nil⟩
  | cons name names ih =>
    have hcell := Extends.addCell heap (.builtin (.host name))
    have hfn : (heap.addCell (.builtin (.host name))).2.cells[heap.cells.size]? = some (.builtin (.host name)) :=
      Array.getElem?_push_size
    generalize hmiddle : (heap.addCell (.builtin (.host name))).2 = middle at hcell hfn
    have hclosure := Extends.addClosure middle ⟨caller, chunk, #[heap.cells.size, env]⟩
    have ha : (middle.addClosure ⟨caller, chunk, #[heap.cells.size, env]⟩).2.closures[middle.closures.size]? =
        some ⟨caller, chunk, #[heap.cells.size, env]⟩ := Array.getElem?_push_size
    generalize hlast : (middle.addClosure ⟨caller, chunk, #[heap.cells.size, env]⟩).2 = last at hclosure ha
    have hstep : addCallers env (name :: names) heap =
        ((name, .function middle.closures.size) :: (addCallers env names last).1,
          (addCallers env names last).2) := by
      subst hlast hmiddle
      rfl
    obtain ⟨hext, hnames, hmem⟩ := ih last
    rw [hstep]
    refine ⟨hcell.trans (hclosure.trans hext), congrArg (name :: ·) hnames, fun n f hf => ?_⟩
    rcases List.mem_cons.1 hf with hf | hf
    · cases hf
      exact ⟨_, _, rfl, hext.closure ha, hext.cell (hclosure.cell hfn)⟩
    · exact hmem n f hf

/-- Calling goes by closures and cells alone. -/
theorem Calls.congr {h h' : Heap} {name : String} {f : Val} (hf : Calls h name f)
    (hclosures : h'.closures = h.closures) (hcells : h'.cells = h.cells) (hglobals : h'.globals = h.globals) :
    Calls h' name f := by
  unfold Calls
  rw [hclosures, hcells, hglobals]
  exact hf

theorem Calls.setText {h : Heap} {name : String} {f : Val} (hf : Calls h name f) (a : Nat) (k : String) (v : Val) :
    Calls (h.setText a k v) name f :=
  hf.congr rfl rfl rfl

theorem Calls.addTable {h : Heap} {name : String} {f : Val} (hf : Calls h name f) (table : String)
    (entries : List (String × Val)) : Calls (Lua.Library.addTable h table entries) name f :=
  hf.congr rfl rfl rfl

/-- The callers know the table of globals. -/
theorem calls_addCallers (names : List String) {heap : Heap} (hh : heap.HasGlobals)
    {entries : List (String × Val)} {h : Heap}
    (hadd : addCallers heap.cells.size names (heap.addCell (.table heap.globals)).2 = (entries, h)) :
    entries.map Prod.fst = names ∧ h.HasGlobals ∧ (∀ name, h.global name = heap.global name) ∧
      ∀ name f, (name, f) ∈ entries → Calls h name f := by
  have hcell := Extends.addCell heap (.table heap.globals)
  have henv : (heap.addCell (.table heap.globals)).2.cells[heap.cells.size]? = some (.table heap.globals) :=
    Array.getElem?_push_size
  obtain ⟨hext, hnames, hmem⟩ := addCallers_spec heap.cells.size names (heap.addCell (.table heap.globals)).2
  rw [hadd] at hext hnames hmem
  have hall := hcell.trans hext
  refine ⟨hnames, (hall.hasGlobals hh).1, (hall.hasGlobals hh).2, fun name f hf => ?_⟩
  obtain ⟨a, fn, hfa, hclosure, hfn⟩ := hmem name f hf
  exact ⟨a, fn, _, hfa, hclosure, hfn, hall.globals ▸ hext.cell henv⟩

theorem install_heap (names : List String) (m : Lua.Machine) {entries : List (String × Val)} {h : Heap}
    (hadd : addCallers m.heap.cells.size names (m.heap.addCell (.table m.heap.globals)).2 = (entries, h)) :
    (install names m).heap = match entries.lookup printer with
      | some f => (Lua.Library.addTable h tableName entries).setText
          (Lua.Library.addTable h tableName entries).globals "print" f
      | none => Lua.Library.addTable h tableName entries := by
  obtain ⟨rfl, rfl⟩ := Prod.mk.inj hadd
  unfold install
  dsimp only
  split
  · rename_i f hprinter
    have hprinter : (addCallers m.heap.cells.size names (m.heap.addCell (.table m.heap.globals)).2).1.lookup
      printer = some f := hprinter
    rw [hprinter]
    rfl
  · rename_i hprinter
    have hprinter : (addCallers m.heap.cells.size names (m.heap.addCell (.table m.heap.globals)).2).1.lookup
      printer = none := hprinter
    rw [hprinter]
    rfl

/-- A machine that was given host functions offers them, and its other globals are those it had. -/
theorem install_spec {names : List String} (hdiffer : names.Nodup) {m : Lua.Machine} (hm : m.heap.HasGlobals) :
    (install names m).heap.HasGlobals ∧
      (∀ name, name ≠ tableName → name ≠ "print" → (install names m).heap.global name = m.heap.global name) ∧
      Offers (install names m).heap names := by
  obtain ⟨entries, h, hadd⟩ : ∃ entries h,
      addCallers m.heap.cells.size names (m.heap.addCell (.table m.heap.globals)).2 = (entries, h) := ⟨_, _, rfl⟩
  obtain ⟨hnames, hh, hsame, hcalls⟩ := calls_addCallers names hm hadd
  obtain ⟨htable, hglobal, hfields⟩ := hh.addTable tableName entries
  have hmem : ∀ name f, (name, f) ∈ entries →
      (Lua.Library.addTable h tableName entries).rawGet h.tables.size (.text name) = f ∧
        Calls (Lua.Library.addTable h tableName entries) name f := fun name f hf => by
    refine ⟨?_, (hcalls name f hf).addTable _ _⟩
    rw [Heap.rawGet, hfields]
    exact Lua.Library.get_fields (hnames ▸ hdiffer) hf
  have hentry : ∀ name ∈ names, ∃ f, (name, f) ∈ entries := fun name hname => by
    obtain ⟨⟨_, f⟩, hf, rfl⟩ := List.mem_map.1 (hnames ▸ hname)
    exact ⟨f, hf⟩
  have hothers : ∀ name, name ≠ tableName →
      (Lua.Library.addTable h tableName entries).global name = m.heap.global name := fun name hname => by
    rw [hglobal, if_neg hname, hsame]
  rw [install_heap names m hadd]
  cases hprinter : entries.lookup printer with
  | none =>
    refine ⟨htable, fun name hname _ => hothers name hname, _, (hglobal tableName).trans (if_pos rfl), ?_⟩
    intro name hname
    obtain ⟨f, hf⟩ := hentry name hname
    refine ⟨f, (hmem name f hf).1, (hmem name f hf).2, fun hself => ?_⟩
    simpa [hself] using List.lookup_eq_none_iff.1 hprinter _ hf
  | some g =>
    have hg : (printer, g) ∈ entries := by
      obtain ⟨before, after, hsplit, -⟩ := List.lookup_eq_some_iff.1 hprinter
      simp [hsplit]
    obtain ⟨hset, hglobal'⟩ := htable.set "print" g
    refine ⟨hset, fun name hname hprint => ?_, h.tables.size, ?_, fun name hname => ?_⟩
    · rw [hglobal', if_neg hprint, hothers name hname]
    · rw [hglobal', if_neg (by decide), hglobal, if_pos rfl]
    · obtain ⟨f, hf⟩ := hentry name hname
      obtain ⟨hget, hcall⟩ := hmem name f hf
      refine ⟨f, ?_, hcall.setText _ _ _, fun hself => ?_⟩
      · have hother : h.tables.size ≠ (Lua.Library.addTable h tableName entries).globals := Nat.ne_of_gt hh.bound
        have hsame := (Heap.table_rawSet htable.bound (.text "print") g h.tables.size).trans (if_neg hother)
        exact (congrArg (Lua.Table.get · (.text name)) hsame).trans hget
      · subst hself
        rw [hglobal', if_pos rfl, ← hget, (hmem _ g hg).1]

end ScriptHost.Bridge
