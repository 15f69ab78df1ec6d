import MaterialGraph.Proofs.Course.Basic
import MaterialGraph.Proofs.Course.Selected

/-!
# Dependence

Nodes depend on the nodes that they name, on those behind the outputs that they take, and on those of the graphs that
they are expanded to.

* `Catalog.Depends` : one node depends on another, by the documents alone. `Catalog.IsAcyclic` : none on itself.
* `Catalog.Escapes` : one node depends on another in a way that no composite checks. `Catalog.IsGuarded` : no node does
  so on one that leads back to it.
* `Catalog.Summons` : to build one node can lead to another. It differs from dependence for graphs of one name only.
* `Catalog.IsSelfDependent` : a free-standing graph takes an output of its own to give another.
* `dependsOn_sound` : a composite says that a child depends on another only if their nodes do.
-/

namespace MaterialGraph

set_option autoImplicit false

open Build Relation

/-! ## Nodes -/

/-- A node of a graph. -/
structure Spot where
  graph : Graph
  node : Node
deriving DecidableEq

def Graph.behind? (g : Graph) (o : Output) : Option Node := g.node? (o.nodeName?.getD "")

namespace Catalog

variable {C : Catalog} {s t : Spot}

def spots (C : Catalog) : List Spot := C.graphs.flatMap fun g => g.nodes.map fun n => ⟨g, n⟩

/-- The elements of a node that can be connected: those that say what its declared inputs are bound to. -/
def elements (C : Catalog) (s : Spot) : List Input :=
  ((((C.nodeDefOf? s.node).map NodeDef.inputs).getD []).map (C.elementOf s.graph s.node)).filter Input.isInput

/-- The graph of which an element takes an output, and the output. -/
def graphOutput? (C : Catalog) (e : Input) : Option (NodeGraph × Output) :=
  (nonEmpty e.nodeGraph).bind fun graph => (C.document.nodeGraph? graph).bind fun h =>
    (e.output?.bind (Graph.named h).output?).map fun o => (h, o)

theorem graphOutput?_eq {e : Input} {graph output : String} {h : NodeGraph} {o : Output}
    (named : nonEmpty e.nodeGraph = some graph) (found : C.document.nodeGraph? graph = some h)
    (takes : e.output? = some output) (there : (Graph.named h).output? output = some o) :
    C.graphOutput? e = some (h, o) := by
  rw [graphOutput?, named, Option.bind_some, found, Option.bind_some, takes, Option.bind_some, there]
  rfl

/-- The node that an element names in its own graph. -/
def inside (g : Graph) (e : Input) : List Spot := ((e.nodeName?.bind g.node?).map (⟨g, ·⟩)).toList

/-- The node behind the output of a graph that an element takes. -/
def acrossGraph (C : Catalog) (e : Input) : List Spot :=
  ((C.graphOutput? e).bind fun (h, o) => ((Graph.named h).behind? o).map (⟨.named h, ·⟩)).toList

/-- The node behind the output of the top level that an element takes. -/
def acrossTop (C : Catalog) (e : Input) : List Spot :=
  if nonEmpty e.nodeGraph = none then
    ((e.output?.bind (topProducer? C)).map fun (_, n, _) => ⟨.document C.document, n⟩).toList
  else []

/-- The nodes of the graph that a node is expanded to. -/
def expanded (C : Catalog) (n : Node) : List Spot :=
  if Recipe.of n = .ok .expand then
    (((C.nodeDefOf? n).bind C.implementation?).map fun h => h.nodes.map (⟨.named h, ·⟩)).getD []
  else []

def uses (C : Catalog) (s : Spot) : List Spot :=
  ((C.elements s).flatMap fun e => inside s.graph e ++ C.acrossGraph e ++ C.acrossTop e) ++ C.expanded s.node

/-- A node depends on another: it names it in its own graph, takes an output of a named graph or of the top level that
the other produces, or is expanded to the graph of the other. -/
def Depends (C : Catalog) (s t : Spot) : Prop := s ∈ C.spots ∧ t ∈ C.uses s

/-- No node depends on itself, directly or through others. -/
def IsAcyclic (C : Catalog) : Prop := ∀ s, ¬ TransGen C.Depends s s

/-- No node depends on itself if each depends on lower ones only. -/
theorem isAcyclic_of_lt (f : Spot → Nat) (lower : ∀ s ∈ C.spots, ∀ t ∈ C.uses s, f t < f s) : C.IsAcyclic := by
  have falls {s t : Spot} (h : TransGen C.Depends s t) : f t < f s := by
    induction h with
    | single h => exact lower _ h.1 _ h.2
    | tail _ h ih => exact (lower _ h.1 _ h.2).trans ih
  exact fun s h => Nat.lt_irrefl _ (falls h)

/-- A node depends on another in a way that no composite checks: it is expanded, or it takes an output of a named graph
or of the top level. -/
def Escapes (C : Catalog) (s t : Spot) : Prop :=
  C.Depends s t ∧ (Recipe.of s.node = .ok .expand ∨ ∃ e ∈ C.elements s, t ∈ C.acrossGraph e ∨ t ∈ C.acrossTop e)

/-- A node depends on itself only through nodes that name each other in one graph, none of which is expanded. A composite
refuses to close such a cycle. -/
def IsGuarded (C : Catalog) : Prop := ∀ s t, C.Escapes s t → ¬ ReflTransGen C.Depends t s

theorem IsAcyclic.isGuarded (acyclic : C.IsAcyclic) : C.IsGuarded :=
  fun s _ escapes back => acyclic s (.head' escapes.1 back)

/-- What escapes does not lead back if no node depends on a higher one, and what escapes leads to a lower one. -/
theorem isGuarded_of_le (f : Spot → Nat) (lower : ∀ s ∈ C.spots, ∀ t ∈ C.uses s, f t ≤ f s ∧
    (Recipe.of s.node = .ok .expand ∨ (∃ e ∈ C.elements s, t ∈ C.acrossGraph e ∨ t ∈ C.acrossTop e) → f t < f s)) :
    C.IsGuarded := by
  intro s t escapes back
  have le : f s ≤ f t := by
    clear escapes
    induction back with
    | refl => exact Nat.le_refl _
    | tail _ depends ih => exact (lower _ depends.1 _ depends.2).1.trans ih
  exact Nat.not_lt.2 le ((lower s escapes.1.1 t escapes.1.2).2 escapes.2)

theorem mem_spots {g : Graph} {n : Node} (graph : g ∈ C.graphs) (node : n ∈ g.nodes) : ⟨g, n⟩ ∈ C.spots :=
  List.mem_flatMap.2 ⟨g, graph, List.mem_map.2 ⟨n, node, rfl⟩⟩

theorem mem_elements {g : Graph} {n : Node} {nd : NodeDef} {i : Input} (definition : C.nodeDefOf? n = some nd)
    (declared : i ∈ nd.inputs) (isInput : (C.elementOf g n i).isInput) : C.elementOf g n i ∈ C.elements ⟨g, n⟩ := by
  refine List.mem_filter.2 ⟨List.mem_map.2 ⟨i, ?_, rfl⟩, isInput⟩
  rw [definition]
  exact declared

theorem mem_uses {e : Input} (mem : e ∈ C.elements s)
    (takes : t ∈ inside s.graph e ∨ t ∈ C.acrossGraph e ∨ t ∈ C.acrossTop e) : t ∈ C.uses s := by
  refine List.mem_append_left _ (List.mem_flatMap.2 ⟨e, mem, ?_⟩)
  rw [List.mem_append, List.mem_append, or_assoc]
  exact takes

theorem Needs.has {g : Graph} {n m : Node} (h : C.Needs g n m) : g.Has m :=
  let ⟨_, _, _, _, _, _, there⟩ := h
  (mem_of_node? there).1

/-- A node depends on the nodes of its graph that it needs. -/
theorem Needs.depends {g : Graph} {n m : Node} (h : C.Needs g n m) (graph : g ∈ C.graphs) (node : n ∈ g.nodes) :
    C.Depends ⟨g, n⟩ ⟨g, m⟩ := by
  obtain ⟨nd, i, definition, declared, isInput, named, there⟩ := h
  refine ⟨mem_spots graph node, mem_uses (mem_elements definition declared isInput) (.inl ?_)⟩
  rw [inside, named, Option.bind_some, there]
  exact List.mem_singleton_self _

theorem escapes_top {e : Input} {output : String} {o : Output} {n : Node} {nd : NodeDef} (spot : s ∈ C.spots)
    (mem : e ∈ C.elements s) (unnamed : nonEmpty e.nodeGraph = none) (takes : e.output? = some output)
    (producer : topProducer? C output = some (o, n, nd)) : C.Escapes s ⟨.document C.document, n⟩ := by
  have there : ⟨.document C.document, n⟩ ∈ C.acrossTop e := by
    rw [acrossTop, if_pos unnamed, takes, Option.bind_some, producer]
    exact List.mem_singleton_self _
  exact ⟨⟨spot, mem_uses mem (.inr (.inr there))⟩, .inr ⟨e, mem, .inr there⟩⟩

theorem escapes_graph {e : Input} {h : NodeGraph} {o : Output} {m : Node} (spot : s ∈ C.spots) (mem : e ∈ C.elements s)
    (takes : C.graphOutput? e = some (h, o)) (behind : (Graph.named h).behind? o = some m) :
    C.Escapes s ⟨.named h, m⟩ := by
  have there : ⟨.named h, m⟩ ∈ C.acrossGraph e := by
    rw [acrossGraph, takes, Option.bind_some]
    dsimp only
    rw [behind]
    exact List.mem_singleton_self _
  exact ⟨⟨spot, mem_uses mem (.inr (.inl there))⟩, .inr ⟨e, mem, .inl there⟩⟩

theorem depends_expanded {h : NodeGraph} {m : Node} (spot : s ∈ C.spots) (recipe : Recipe.of s.node = .ok .expand)
    (implementation : (C.nodeDefOf? s.node).bind C.implementation? = some h) (node : m ∈ h.nodes) :
    C.Depends s ⟨.named h, m⟩ := by
  refine ⟨spot, List.mem_append_right _ ?_⟩
  rw [expanded, if_pos recipe, implementation]
  exact List.mem_map.2 ⟨m, node, rfl⟩

theorem needs_path {g : Graph} {n m : Node} (graph : g ∈ C.graphs) (node : n ∈ g.nodes)
    (h : ReflTransGen (C.Needs g) n m) : ReflTransGen C.Depends ⟨g, n⟩ ⟨g, m⟩ ∧ m ∈ g.nodes := by
  induction h with
  | refl => exact ⟨.refl, node⟩
  | tail _ needs ih =>
      exact ⟨ih.1.tail (needs.depends graph ih.2), needs.has.mem⟩

/-- Without cycles, no node is needed by a node that it needs. -/
theorem IsAcyclic.not_needs {g : Graph} {n m : Node} (acyclic : C.IsAcyclic) (graph : g ∈ C.graphs) (node : n ∈ g.nodes)
    (needs : C.Needs g n m) : ¬ ReflTransGen (C.Needs g) m n := by
  intro back
  exact acyclic _ (.head' (needs.depends graph node) (needs_path graph needs.has.mem back).1)

/-- Without cycles, no nodes of a graph need each other in a circle. -/
theorem IsAcyclic.not_loops {g : Graph} (acyclic : C.IsAcyclic) (graph : g ∈ C.graphs) (n : Node) :
    ¬ TransGen (C.Needs g) n n := by
  intro loop
  obtain ⟨m, needs, back⟩ := TransGen.head'_iff.1 loop
  obtain ⟨_, -, last⟩ := TransGen.tail'_iff.1 loop
  exact acyclic.not_needs graph last.has.mem needs back

/-! ## Free-standing graphs -/

/-- To build a node can lead to another: it depends on it, or it takes an output of a named graph, and another graph of
that name may be there in its place. -/
inductive Summons (C : Catalog) (s : Spot) : Spot → Prop
  | depends {t : Spot} (depends : C.Depends s t) : Summons C s t
  | namesake {e : Input} {h h' : NodeGraph} {o : Output} {m : Node} (mem : e ∈ C.elements s)
      (takes : C.graphOutput? e = some (h, o)) (known : h' ∈ C.document.nodeGraphs) (same : h'.name = h.name)
      (behind : (Graph.named h').behind? o = some m) : Summons C s ⟨.named h', m⟩

/-- Outputs that are asked of a free-standing graph: those that it has, and those that are selected. -/
inductive Exposes (C : Catalog) (selected : List (OutputKind × Candidate)) (name : String) : Output → Prop
  | own {h : NodeGraph} {o : Output} (found : C.document.nodeGraph? name = some h) (mem : o ∈ h.outputs) :
      Exposes C selected name o
  | selected {gr : Group} {h : NodeGraph} {o : OutputKind × Output} (mem : gr ∈ Group.ofSelected selected)
      (graph : gr.graph = .named h) (named : h.name = name) (output : o ∈ gr.outputs) : Exposes C selected name o.2

/-- To build the node behind an output of a free-standing graph leads to another node. -/
def Involves (C : Catalog) (selected : List (OutputKind × Candidate)) (name : String) (s : Spot) : Prop :=
  ∃ h ∈ C.document.nodeGraphs, h.name = name ∧ ∃ o m, Exposes C selected name o ∧
    (Graph.named h).behind? o = some m ∧ ReflTransGen C.Summons ⟨.named h, m⟩ s

/-- To build the node behind an output of a free-standing graph leads to a node that takes an output of the graph. -/
def IsSelfDependent (C : Catalog) (selected : List (OutputKind × Candidate)) (name : String) : Prop :=
  ∃ s, C.Involves selected name s ∧ ∃ e ∈ C.elements s, ∃ h o, C.graphOutput? e = some (h, o) ∧ h.name = name

theorem Involves.tail {selected : List (OutputKind × Candidate)} {name : String} (h : C.Involves selected name s)
    (more : C.Summons s t) : C.Involves selected name t :=
  let ⟨graph, mem, named, o, m, exposes, behind, path⟩ := h
  ⟨graph, mem, named, o, m, exposes, behind, path.tail more⟩

end Catalog

/-! ## Connections that are noted -/

/-- A search finds only names to which a property spreads. -/
theorem dependencies_sound {producersOf : String → List String} {P : String → Prop}
    (spreads : ∀ a, P a → ∀ b ∈ producersOf a, P b) {fuel : Nat} {seen : NameMap Unit} {stack : List String}
    (old : ∀ a, seen.contains a → P a) (waiting : ∀ a ∈ stack, P a) {name : String}
    (found : (dependencies producersOf fuel seen stack).contains name) : P name := by
  fun_induction dependencies producersOf fuel seen stack with
  | case1 => exact old name found
  | case2 => exact old name found
  | case3 fuel seen a stack _ ih => exact ih old (fun b hb => waiting b (.tail _ hb)) found
  | case4 fuel seen a stack _ ih =>
      rw [List.forall_mem_cons] at waiting
      refine ih (fun b hb => ?_) (fun b hb => ?_) found
      · rw [Std.TreeMap.contains_insert, Bool.or_eq_true, beq_iff_eq, Std.LawfulEqCmp.compare_eq_iff_eq] at hb
        rcases hb with rfl | hb
        · exact waiting.1
        · exact old b hb
      · rcases List.mem_append.1 hb with hb | hb
        · exact spreads a waiting.1 b hb
        · exact waiting.2 b hb

theorem Composite.producersOf_new (g : Graph) (consumer : String) :
    ({ graph := g } : Composite).producersOf consumer = [] := Std.TreeMap.getD_emptyc

/-- Whatever is noted of a composite, a node needs. -/
def Composite.IsWired (C : Catalog) (k : Composite) : Prop :=
  ∀ consumer, ∀ producer ∈ k.producersOf consumer, ∃ n m, k.graph.Has n ∧ C.Needs k.graph n m ∧ n.name = consumer ∧
    m.name = producer

/-- If a composite says that a child depends on another, its node leads to the node of the other. -/
theorem Composite.dependsOn_sound {C : Catalog} {k : Composite} (wired : k.IsWired C) {n m : Node} (hn : k.graph.Has n)
    (hm : k.graph.Has m) (depends : k.dependsOn m.name n.name = true) : ReflTransGen (C.Needs k.graph) m n := by
  let Led (name : String) : Prop := ∃ x, k.graph.Has x ∧ x.name = name ∧ ReflTransGen (C.Needs k.graph) m x
  have spreads (a : String) (led : Led a) : ∀ b ∈ k.producersOf a, Led b := by
    intro b hb
    obtain ⟨x, hx, rfl, path⟩ := led
    obtain ⟨x', y, hx', needs, same, rfl⟩ := wired _ b hb
    obtain rfl := hx'.unique hx same
    exact ⟨y, needs.has, rfl, path.tail needs⟩
  have led : Led n.name := by
    refine dependencies_sound spreads (fun a ha => ?_) (fun a ha => ?_) depends
    · rw [Std.TreeMap.contains_emptyc] at ha
      cases ha
    · rw [List.mem_singleton.1 ha]
      exact ⟨m, hm, rfl, .refl⟩
  obtain ⟨x, hx, same, path⟩ := led
  obtain rfl := hx.unique hn same
  exact path

end MaterialGraph
