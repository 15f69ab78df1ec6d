import MaterialGraph.Proofs.Seclusion
import MaterialGraph.Proofs.Seniority
import MaterialGraph.Proofs.Wiring

/-!
# What the construction of a group leaves alone

While a group is built, inputs are set in its own composite and in parts that are newer, and its roots are added. All
older leaves stay as they are, and all children keep their places. So a leaf that has been found behind an output stays
the leaf behind that output.

* `Guarded` : what is known of a context on the way of a load.
* `Onward` : what stays as it is, from one context to another.
* `Assembly.leafBehind?` : the leaf behind an output of a composite.
* `after_outputLeaf_behind` : the search for a leaf finds it.
-/

namespace MaterialGraph

set_option autoImplicit false

open Build Assembly

/-! ## Leaves behind outputs -/

namespace Assembly

/-- The child of a composite for a graph, behind the output that an outer output stands for. -/
def innerBehind? (a : Assembly) (y : PartId) (g : Graph) (o : Output) : Option PartId :=
  match chooseOutput g.type g.outputs o.output? o.name with
  | .error _ => none
  | .ok output => ((meant g output).bind Output.nodeName?).bind (a.child? y)

/-- The leaf behind an output of a composite, once it is built: a child, or a child of a composite that is a child. -/
def leafBehind? (a : Assembly) (id : PartId) (o : Output) : Option PartId :=
  ((o.nodeName?.bind (a.child? id)).bind fun y =>
    match a.composite? y with
    | none => some y
    | some k => a.innerBehind? y k.graph o).filter fun x => (a.leaf? x).isSome

variable {a a' : Assembly} {id x y : PartId} {g : Graph} {o : Output}

theorem innerBehind?_kept (kept : ∀ {id name x}, a.child? id name = some x → a'.child? id name = some x)
    (found : a.innerBehind? y g o = some x) : a'.innerBehind? y g o = some x := by
  unfold innerBehind? at *
  split at found
  · cases found
  · obtain ⟨name, named, child⟩ := Option.bind_eq_some_iff.1 found
    exact Option.bind_eq_some_iff.2 ⟨name, named, kept child⟩

theorem child?_of_innerBehind? (found : a.innerBehind? y g o = some x) : ∃ name, a.child? y name = some x := by
  unfold innerBehind? at found
  split at found
  · cases found
  · obtain ⟨name, -, child⟩ := Option.bind_eq_some_iff.1 found
    exact ⟨name, child⟩

theorem leafBehind?_eq_some : a.leafBehind? id o = some x ↔ (a.leaf? x).isSome ∧
    ∃ name y, o.nodeName? = some name ∧ a.child? id name = some y ∧
      (y = x ∨ ∃ k, a.composite? y = some k ∧ a.innerBehind? y k.graph o = some x) := by
  rw [leafBehind?, Option.filter_eq_some_iff, and_comm]
  refine and_congr_right fun leaf => ?_
  rw [Option.bind_eq_some_iff]
  constructor
  · rintro ⟨y, first, found⟩
    obtain ⟨name, named, child⟩ := Option.bind_eq_some_iff.1 first
    refine ⟨name, y, named, child, ?_⟩
    split at found
    · exact .inl (Option.some.inj found)
    · next k composite => exact .inr ⟨k, composite, found⟩
  · rintro ⟨name, y, named, child, here | ⟨k, composite, found⟩⟩
    · subst here
      obtain ⟨l, leaf⟩ := Option.isSome_iff_exists.1 leaf
      refine ⟨y, Option.bind_eq_some_iff.2 ⟨name, named, child⟩, ?_⟩
      rw [composite?_eq_none_of_leaf? leaf]
    · refine ⟨y, Option.bind_eq_some_iff.2 ⟨name, named, child⟩, ?_⟩
      rw [composite]
      exact found

theorem lt_size_of_isSome (leaf : (a.leaf? x).isSome) : x < a.size :=
  let ⟨_, there⟩ := Option.isSome_iff_exists.1 leaf
  lt_size_of_leaf? there

/-- What is found behind an output is a child, and stands below the composite. -/
theorem below_of_leafBehind? (found : a.leafBehind? id o = some x) : a.IsChild x ∧ Below a id x := by
  obtain ⟨-, name, y, -, child, rfl | ⟨k, -, found⟩⟩ := leafBehind?_eq_some.1 found
  · exact ⟨⟨id, name, child⟩, .child .refl child⟩
  · obtain ⟨name', inner⟩ := child?_of_innerBehind? found
    exact ⟨⟨y, name', inner⟩, .child (.child .refl child) inner⟩

/-- A leaf stays behind an output as long as children keep their places. -/
theorem leafBehind?_kept (more : Extends a a')
    (kept : ∀ {id name x}, a.child? id name = some x → a'.child? id name = some x)
    (found : a.leafBehind? id o = some x) : a'.leafBehind? id o = some x := by
  obtain ⟨leaf, name, y, named, child, site⟩ := leafBehind?_eq_some.1 found
  obtain ⟨l, leaf⟩ := Option.isSome_iff_exists.1 leaf
  refine leafBehind?_eq_some.2
    ⟨Option.isSome_iff_exists.2 (more.leaf leaf), name, y, named, kept child, site.imp_right ?_⟩
  rintro ⟨k, composite, inner⟩
  obtain ⟨k', composite', same⟩ := more.composite composite
  exact ⟨k', composite', same ▸ innerBehind?_kept kept inner⟩

end Assembly

/-! ## Contexts -/

/-- What is known of a context on the way of a load. -/
structure Guarded (s : Recorder) (C : Catalog) (c : Context Recorder) : Prop where
  proper : Proper s C c
  secluded : Secluded s c

/-- From one guarded context to another: nothing is lost, children keep their places, and leaves that are older than
`m` stay as they are. -/
structure Onward (s : Recorder) (C : Catalog) (m : Nat) (c c' : Context Recorder) : Prop where
  guarded : Guarded s C c'
  more : Extends c.assembly c'.assembly
  suffix : c.journal <:+ c'.journal
  children : ∀ {id name x}, c.assembly.child? id name = some x → c'.assembly.child? id name = some x
  retains : Retains (· < m) c c'

variable {s : Recorder} {C : Catalog} {W : Env Recorder} {c c₁ c' : Context Recorder} {m : Nat} {p : Place} {id x : PartId}
  {h : Handle}

theorem Guarded.start (reachable : s.Reachable) : Guarded s C { system := s } := ⟨.start s, .start reachable⟩

namespace Onward

theorem refl (m : Nat) (guarded : Guarded s C c) : Onward s C m c c :=
  ⟨guarded, .refl _, List.suffix_rfl, id, .refl _ _⟩

theorem trans (h₁ : Onward s C m c c₁) (h₂ : Onward s C m c₁ c') : Onward s C m c c' where
  guarded := h₂.guarded
  more := h₁.more.trans h₂.more
  suffix := h₁.suffix.trans h₂.suffix
  children hx := h₂.children (h₁.children hx)
  retains := h₁.retains.trans h₂.retains

theorem mono {n : Nat} (h : Onward s C m c c') (le : n ≤ m) : Onward s C n c c' :=
  { h with retains := h.retains.mono fun _ hx => Nat.lt_of_lt_of_le hx le }

theorem size (h : Onward s C m c c') (there : m ≤ c.assembly.size) : m ≤ c'.assembly.size :=
  Nat.le_trans there h.more.size

theorem message {e : Event} (guarded : Guarded s C c) (message : IsMessage e) : Onward s C m c (c.push e) :=
  ⟨⟨guarded.proper.message message, guarded.secluded.push e⟩, .refl _, List.suffix_cons _ _, id, .push _ _ _⟩

theorem push {e : Event} (h : Onward s C m c c') (text : IsMessage e) : Onward s C m c (c'.push e) :=
  h.trans (message h.guarded text)

theorem mark {e : Edit} (guarded : Guarded s C c) (mark : IsMark e) : Onward s C m c (c.edit e) where
  guarded := ⟨guarded.proper.mark mark, guarded.secluded.mark mark⟩
  more := by cases mark <;> exact .refl _
  suffix := List.suffix_cons _ _
  children hx := by cases mark <;> exact hx
  retains := .edit fun _ _ => by cases mark <;> rfl

theorem composite (guarded : Guarded s C c) (there : m ≤ c.assembly.size) (g : Graph) :
    Onward s C m c (c.edit (.add (.composite { graph := g }))) where
  guarded := ⟨guarded.proper.composite g, guarded.secluded.composite g⟩
  more := .add _ _
  suffix := List.suffix_cons _ _
  children hx := (child?_add_composite g _).trans hx
  retains := .add there _

theorem run (recording : W.renderer = Recorder.renderer) {ph : Phase} {n : Nat} (run : Run W ph id n c c')
    (guarded : Guarded s W.catalog c) (from' : m ≤ n) (there : m ≤ c.assembly.size) :
    Onward s W.catalog m c c' where
  guarded := ⟨guarded.proper.run recording run, run.secluded recording guarded.proper guarded.secluded⟩
  more := run.steps.extends
  suffix := run.steps.moves.suffix
  children := run.keeps
  retains := run.retains recording guarded.proper from' there

end Onward

/-! ## The search for a leaf -/

section

variable (recording : W.renderer = Recorder.renderer) (guarded : Guarded s W.catalog c) (there : m ≤ c.assembly.size)

include recording guarded there

theorem Build.after_innerPart_behind {y : PartId} {g : Graph} {o : Output} :
    After (innerPart y g o) (W.at p) c fun res c' => Onward s W.catalog m c c' ∧
      ∀ x, res = some x → c'.assembly.innerBehind? y g o = some x ∧ (c'.assembly.leaf? x).isSome := by
  cases chosen : chooseOutput g.type g.outputs o.output? o.name with
  | error e =>
      rw [innerPart, chosen]
      dsimp only
      rw [after_bind, after_warn, after_pure]
      exact ⟨.message guarded (.warning _), by rintro _ ⟨⟩⟩
  | ok output =>
      rw [innerPart_meant chosen]
      cases named : (meant g output).bind Output.nodeName? with
      | none => exact after_pure.2 ⟨.refl m guarded, by rintro _ ⟨⟩⟩
      | some name =>
          dsimp only
          rw [after_bind]
          refine (sound_part p y name c).mono fun res c₁ gives => ?_
          have onward := Onward.run recording (gives.run (s := m)) guarded (Nat.le_refl m) there
          cases gives with
          | nothing => exact after_pure.2 ⟨onward, by rintro _ ⟨⟩⟩
          | @child x c₁ run given asks =>
              dsimp only
              rw [after_bind, after_assembly, after_pure]
              refine ⟨onward, fun x' hx => ?_⟩
              split at hx
              · next leaf =>
                cases hx
                refine ⟨?_, leaf⟩
                rw [innerBehind?, chosen]
                dsimp only
                rw [named]
                exact given.1
              · cases hx

/-- The search for a leaf finds the leaf behind an output, if any. -/
theorem Build.after_outputLeaf_behind {o : Output} :
    After (outputLeaf id o) (W.at p) c fun res c' => Onward s W.catalog m c c' ∧
      ∀ x, res = some x → c'.assembly.leafBehind? id o = some x := by
  rw [outputLeaf, after_bind, after_assembly]
  split
  · exact after_pure.2 ⟨.refl m guarded, by rintro _ ⟨⟩⟩
  · next y first =>
    obtain ⟨kid, composite, named⟩ := Option.bind_eq_some_iff.1 first
    obtain ⟨name, named, child⟩ := Option.bind_eq_some_iff.1 named
    rw [← child?_of_composite? composite] at child
    split
    · exact after_pure.2 ⟨.refl m guarded, by rintro _ ⟨⟩⟩
    · next l leaf =>
      refine after_pure.2 ⟨.refl m guarded, ?_⟩
      rintro _ ⟨⟩
      exact leafBehind?_eq_some.2 ⟨by rw [leaf?_eq_some.2 leaf]; rfl, name, y, named, child, .inl rfl⟩
    · next k inner =>
      refine (after_innerPart_behind recording guarded there).mono ?_
      rintro res c₁ ⟨onward, behind⟩
      refine ⟨onward, fun x hx => ?_⟩
      obtain ⟨found, leaf⟩ := behind x hx
      obtain ⟨k', inner', same⟩ := onward.more.composite (composite?_eq_some.2 inner)
      exact leafBehind?_eq_some.2 ⟨leaf, name, y, named, onward.children child, .inr ⟨k', inner', same ▸ found⟩⟩

/-- A shader reference sets inputs in its composite only. -/
theorem Build.after_setBindInput_onward {r : ShaderRef} {i : Input} (from' : m ≤ id) :
    After (setBindInput id r i) (W.at p) c fun _ c' => Onward s W.catalog m c c' := by
  refine after_setBindInput.mono ?_
  rintro _ _ ⟨inner⟩
  have begun : Onward s W.catalog m c (c.edit (.began (.override id r i))) := .mark guarded (.began _)
  have set := Onward.run recording inner begun.guarded from' (begun.size there)
  exact (begun.trans set).trans (.mark set.guarded (.ended _ _))

end

end MaterialGraph
