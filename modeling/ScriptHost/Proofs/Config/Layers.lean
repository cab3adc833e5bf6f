import ScriptHost.Config.Loading
import ScriptHost.Proofs.Config.Reading

/-! Layers put together. Where the layers agree about what is a table, the strongest one with a leaf at a
path counts there. -/

namespace ScriptHost

open ScriptHost.Tree

namespace ConfigLayer

/-- What a layer says at a path, under a spelling of the section's name. -/
def value? (l : ConfigLayer) (spelling : String) (path : List String) : Option Scalar :=
  ((Tree.table l).leafAt? (spelling :: path)).join

/-- What the strongest of the layers says that says anything. -/
def prevailing? (layers : List ConfigLayer) (spelling : String) (path : List String) : Option Scalar :=
  layers.reverse.findSome? (·.value? spelling path)

/-- Whether a layer has a key in a section, whatever is under it. -/
def has (l : ConfigLayer) (spelling key : String) : Bool := ((Tree.table l).at? [spelling, key]).isSome

/-- Layers have their keys in order, and no key is a table in one and a scalar in another. -/
structure Consistent (layers : List ConfigLayer) : Prop where
  ordered : ∀ l ∈ layers, Ordered (.table l)
  agree : layers.Pairwise fun l m => Agree (.table l) (.table m)

/-- What is at a path of layers over a first one. -/
structure Merges (start : ConfigLayer) (layers : List ConfigLayer) (m : ConfigLayer) : Prop where
  ordered : Ordered (.table m)
  leafAt? (path : List String) : (Tree.table m).leafAt? path =
    (layers.reverse.findSome? fun l => (Tree.table l).leafAt? path).or ((Tree.table start).leafAt? path)
  isSome_at? (path : List String) : ((Tree.table m).at? path).isSome =
    (layers.any (fun l => ((Tree.table l).at? path).isSome) || ((Tree.table start).at? path).isSome)

variable {start : ConfigLayer} {layers : List ConfigLayer}

theorem isSome_over? {α : Type} (t u : Option (Tree α)) :
    (over? t u).isSome = (u.isSome || t.isSome) := by
  cases t <;> cases u <;> rfl

theorem merges_foldl (h : Consistent layers) (hstart : Ordered (.table start))
    (hagree : ∀ l ∈ layers, Agree (.table start) (.table l)) :
    Merges start layers (layers.foldl mergeEntries start) := by
  obtain ⟨hordered, hpairwise⟩ := h
  induction layers generalizing start with
  | nil =>
    refine ⟨hstart, ?_, ?_⟩
    · intro path
      rfl
    · intro path
      rfl
  | cons l layers ih =>
    obtain ⟨hl, hlayers⟩ := List.forall_mem_cons.1 hordered
    obtain ⟨hsl, hs⟩ := List.forall_mem_cons.1 hagree
    obtain ⟨hlm, hrest⟩ := List.pairwise_cons.1 hpairwise
    have hmerge : Tree.table (mergeEntries start l) = merge (.table start) (.table l) := by rw [merge]
    have hnext : ∀ m ∈ layers, Agree (.table (mergeEntries start l)) (.table m) := by
      intro m hm
      rw [hmerge]
      exact (hs m hm).merge (hlm m hm) hsl hl
    obtain ⟨hres, hleaf, hsome⟩ := ih (hmerge ▸ hstart.merge hl) hnext hlayers hrest
    refine ⟨hres, ?_, ?_⟩
    · intro path
      rw [List.foldl_cons, hleaf, hmerge, leafAt?_merge hsl hl, List.reverse_cons, List.findSome?_append,
        Option.or_assoc]
      simp
    · intro path
      rw [List.foldl_cons, hsome, hmerge, at?_merge hsl hl, isSome_over?, List.any_cons]
      ac_rfl

theorem merges (h : Consistent layers) : Merges [] layers (merged layers) := by
  apply merges_foldl h
  · exact .table List.Pairwise.nil fun e he => by cases he
  · intro l _ path a b ha hb
    cases path with
    | nil =>
      cases ha
      cases hb
      rfl
    | cons k path => cases ha

end ConfigLayer

namespace FileConfig

open ConfigLayer

variable {layers : List ConfigLayer} {c : FileConfig}

theorem lookup_toEntries (c : FileConfig) (k : String) :
    c.toEntries.lookup k = (c.sections.get? k).map fun s => .table s.entries :=
  Entries.lookup_map (fun _ (s : FileSection) => Tree.table s.entries) c.sections.entries k

/-- The leaf of a section at a path. -/
def leafIn? (s : FileSection) (path : List String) : Option Scalar := leafAt? (.table s.entries) path

theorem findSome?_join {β γ : Type} {f : β → Option (Option γ)} {l : List β} {o : Option γ}
    (h : l.findSome? f = o.map some) : l.findSome? (fun b => (f b).join) = o := by
  cases o with
  | none =>
    rw [Option.map_none, List.findSome?_eq_none_iff] at h
    rw [List.findSome?_eq_none_iff]
    intro b hb
    rw [h b hb]
    rfl
  | some v =>
    obtain ⟨l₁, b, l₂, rfl, hb, hnone⟩ := List.findSome?_eq_some_iff.1 h
    rw [List.findSome?_eq_some_iff]
    refine ⟨l₁, b, l₂, rfl, ?_, ?_⟩
    · rw [hb]
      rfl
    · intro a ha
      rw [hnone a ha]
      rfl

/-- A configuration that layers make: its sections, by exactly their names. -/
structure Holds (layers : List ConfigLayer) (c : FileConfig) : Prop where
  ordered {k : String} {s : FileSection} : c.sections.get? k = some s → Ordered (.table s.entries)
  leafIn? (k : String) (path : List String) :
    ((c.sections.get? k).bind (leafIn? · path)) = prevailing? layers k path
  contains (k key : String) :
    ((c.sections.get? k).any fun s => (s.get? key).isSome) = layers.any (·.has k key)
  names : c.names = (merged layers).map (·.1)

theorem holds_ofEntries? (h : Consistent layers) (hc : ofEntries? (merged layers) = some c) :
    Holds layers c := by
  have hmerges := merges h
  have hraw := ofEntries?_eq_some hmerges.ordered hc
  have htree : Tree.table (merged layers) = raw (.table c.toEntries) := by rw [raw, ← hraw]
  have hordered : Ordered (.table c.toEntries) := (htree ▸ hmerges.ordered).of_raw
  refine ⟨?_, ?_, ?_, ?_⟩
  · intro k s hs
    apply hordered.lookup
    rw [lookup_toEntries, hs]
    rfl
  · intro k path
    symm
    apply findSome?_join
    have hleaf := hmerges.leafAt? (k :: path)
    have hnone : (Tree.table ([] : ConfigLayer)).leafAt? (k :: path) = none := rfl
    rw [htree, leafAt?_raw, leafAt?_table, lookup_toEntries, hnone, Option.or_none] at hleaf
    rw [← hleaf, Option.bind_map]
    rfl
  · intro k key
    have hsome := hmerges.isSome_at? [k, key]
    have hnone : (Tree.table ([] : ConfigLayer)).at? [k, key] = none := rfl
    rw [htree, at?_raw, at?_table, lookup_toEntries, hnone, Option.isSome_map] at hsome
    have hany : (layers.any fun l => ((Tree.table l).at? [k, key]).isSome) = layers.any (·.has k key) := rfl
    rw [← hany, ← Bool.or_false (layers.any _)]
    refine Eq.trans ?_ hsome
    cases c.sections.get? k with
    | none => rfl
    | some s =>
      rw [Option.map_some, Option.bind_some, at?_table]
      unfold Dict.get?
      cases hkey : s.entries.lookup key <;> simp [hkey, at?]
  · rw [hraw, rawEntries_eq_map, toEntries, names, Dict.keys]
    simp

end FileConfig

end ScriptHost
