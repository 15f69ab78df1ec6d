import MaterialGraph.Proofs.Caches
import MaterialGraph.Proofs.Dependence

/-!
# Cycles

A load reports cycles, and it does not report others than there are (`cycles_of_load`): if no node depends on itself, no
connection of children is refused, and what is reported is that a free-standing graph is asked for outputs while it is
being built. Only a graph that takes an output of its own is.

* `Grounded` : composites stand for graphs of the documents, and what they note of connections is what nodes need.
* `Sits` : what the scenes of a load are about is of the documents.
* `Scene.Within` : the nodes that a scene is about have a property. Some properties spread from there to the scenes that
  it opens.
-/

namespace MaterialGraph

set_option autoImplicit false

open Build Assembly Relation

variable {σ : Type} {W : Env σ} {c c' : Context σ} {C : Catalog} {a a' : Assembly} {s : Scene} {p : Place}
  {selected : List (OutputKind × Candidate)} {name : String}

/-! ## What is noted of connections -/

/-- Composites stand for graphs of the documents, and nodes need what is noted of connections. -/
def Grounded (C : Catalog) (a : Assembly) : Prop :=
  ∀ id k, a.composite? id = some k → k.graph ∈ C.graphs ∧ k.IsWired C

theorem Composite.IsWired.congr {k k' : Composite} (h : k.IsWired C) (graph : k'.graph = k.graph)
    (producers : k'.producers = k.producers) : k'.IsWired C := by
  intro consumer producer mem
  rw [producersOf, producers] at mem
  rw [graph]
  exact h consumer producer mem

theorem Composite.IsWired.note {k : Composite} (h : k.IsWired C) {n m : Node} (node : k.graph.Has n)
    (needs : C.Needs k.graph n m) : (k.note ⟨m.name, n.name⟩).IsWired C := by
  intro consumer producer mem
  rcases mem_producersOf_note.1 mem with ⟨rfl, rfl⟩ | old
  · exact ⟨n, m, node, needs, rfl, rfl⟩
  · exact h _ _ old

theorem Composite.isWired_new (g : Graph) : ({ graph := g } : Composite).IsWired C := by
  intro consumer producer mem
  rw [producersOf_new] at mem
  cases mem

namespace Grounded

theorem congr (h : Grounded C a) (same : ∀ id, a'.composite? id = a.composite? id) : Grounded C a' := Each.congr h same

theorem rebinds (h : Grounded C a) {S : PartId → Prop} (same : Rebinds S a a') : Grounded C a' := h.congr same.composite

theorem leaf (h : Grounded C a) (l : Leaf) : Grounded C (a.apply (.add (.leaf l))) := Each.leaf h l

theorem composite (h : Grounded C a) {g : Graph} (graph : g ∈ C.graphs) :
    Grounded C (a.apply (.add (.composite { graph := g }))) :=
  Each.composite h ⟨graph, Composite.isWired_new g⟩

theorem child (h : Grounded C a) (x : PartId) (name : String) (y : PartId) : Grounded C (a.apply (.child x name y)) :=
  Each.modify h fun _ _ old => ⟨old.1, old.2.congr rfl rfl⟩

theorem socket (h : Grounded C a) (x : PartId) (interface : String) (so : Socket) :
    Grounded C (a.apply (.socket x interface so)) :=
  Each.modify h fun _ _ old => ⟨old.1, old.2.congr rfl rfl⟩

theorem edge (h : Grounded C a) {x : PartId} {k : Composite} (there : a.composite? x = some k) {n m : Node}
    (node : k.graph.Has n) (needs : C.Needs k.graph n m) : Grounded C (a.apply (.edge x ⟨m.name, n.name⟩)) := by
  refine Each.modify h fun k' there' old => ?_
  cases there.symm.trans there'
  exact ⟨old.1, old.2.note node needs⟩

end Grounded

/-! ## Scenes -/

def Sits (C : Catalog) (selected : List (OutputKind × Candidate)) : Scene → Prop
  | .load selected' => selected' = selected
  | .settle _ _ | .override _ _ => True
  | .graph _ g _ | .ask _ g _ | .give _ g _ => g ∈ C.graphs
  | .node _ g n => g ∈ C.graphs ∧ g.Has n
  | .input _ g n _ i => g ∈ C.graphs ∧ g.Has n ∧ ∃ nd, C.nodeDefOf? n = some nd ∧ i ∈ nd.inputs

theorem Sits.has {id : PartId} {g : Graph} {n : Node} (sits : Sits C selected s) (consumes : Consumes id g n s) :
    g ∈ C.graphs ∧ g.Has n := by
  cases consumes with
  | node => exact sits
  | input x i => exact ⟨sits.1, sits.2.1⟩

theorem Sits.needed {id : PartId} {g : Graph} {n m : Node} (sits : Sits C selected (.node id g n))
    (needs : C.Needs g n m) : Sits C selected (.node id g m) :=
  ⟨sits.1, needs.has⟩

theorem Build.WantsTop.has {n : Node} (wants : WantsTop C s n) : (Graph.document C.document).Has n := by
  obtain ⟨-, -, -, producer⟩ := wants
  exact Catalog.node?_of_topProducer? producer

theorem graph_of_implementation {n : Node} {h : NodeGraph}
    (implementation : (C.nodeDefOf? n).bind C.implementation? = some h) : .named h ∈ C.graphs :=
  let ⟨_, _, found⟩ := Option.bind_eq_some_iff.1 implementation
  Catalog.mem_graphs_of_implementation? found

theorem graph_of_group (own : ∀ x ∈ selected, x.2.IsOf C) {gr : Group} (mem : gr ∈ Group.ofSelected selected) :
    gr.graph ∈ C.graphs := by
  obtain ⟨x, hx, graph, -⟩ := (Group.collects_ofSelected selected gr mem).leader
  exact graph ▸ (own x hx).graph

theorem Grounded.starts (h : Grounded C c.assembly) {g : NodeGraph} {x : PartId} (starts : Starts g c x c')
    (mem : g ∈ C.document.nodeGraphs) : Grounded C c'.assembly := by
  cases starts with
  | first =>
      have graph : Graph.named g ∈ C.graphs := Catalog.mem_graphs_of_own (Document.named_mem_graphs.2 mem)
      exact h.composite graph
  | again => exact h

/-- A course keeps what is noted of connections true. -/
theorem Build.Course.grounded (own : ∀ x ∈ selected, x.2.IsOf W.catalog) (h : Course W s p c c')
    (sits : Sits W.catalog selected s) (grounded : Grounded W.catalog c.assembly) : Grounded W.catalog c'.assembly := by
  induction h with
  | refl | message | cycle | busy => exact grounded
  | trans _ _ ih₁ ih₂ => exact ih₂ sits (ih₁ sits grounded)
  | mark _ mark => cases mark <;> exact grounded
  | task _ ih => exact ih sits grounded
  | give found _ ih => exact ih ⟨sits, (mem_of_node? found).1⟩ grounded
  | refused _ creation => exact creation.assembly ▸ grounded
  | wrap _ creation => exact Grounded.leaf (creation.assembly ▸ grounded) _
  | own mem _ _ ih =>
      cases sits
      exact ih (graph_of_group own mem) (grounded.composite (graph_of_group own mem))
  | shared _ _ _ ih => exact ih (.head _) grounded
  | settle _ _ ih | overriding _ _ _ _ _ ih => exact ih trivial grounded
  | search _ composite _ _ _ ih =>
      obtain ⟨k, there, rfl⟩ := composite
      exact ih (grounded _ k there).1 grounded
  | output _ _ ih => exact ih sits grounded
  | leafChild _ _ _ _ makes => exact (Grounded.leaf (makes.assembly ▸ grounded) _).child _ _ _
  | expansion _ implementation _ _ ih =>
      exact ih (graph_of_implementation implementation) (grounded.composite (graph_of_implementation implementation))
  | compositeChild _ implementation _ ih =>
      have grounded' := grounded.composite (graph_of_implementation implementation)
      exact (ih (graph_of_implementation implementation) grounded').child _ _ _
  | input _ _ _ definition declared _ ih => exact ih ⟨sits.1, sits.2, _, definition, declared⟩ grounded
  | follow draws _ ih => exact ih (sits.needed draws.2) grounded
  | socket => exact grounded.socket _ _ _
  | link composite consumes draws _ _ _ connected =>
      have rebinds := (after_connect _ _ connected).rebinds
      exact (grounded.rebinds rebinds).edge ((rebinds.composite _).trans composite) (sits.has consumes).2 draws.2
  | unlinked _ _ _ _ _ connected | connection _ _ connected => exact grounded.rebinds (after_connect _ _ connected).rebinds
  | literal _ _ bound => exact grounded.rebinds (after_bindInput _ _ bound).rebinds
  | geometry _ creation => exact Grounded.leaf (creation.assembly ▸ grounded) _
  | top => exact grounded.composite (.head _)
  | viaTop _ _ _ ih => exact ih (.head _) grounded
  | viaGraph wants starts graph _ _ _ ih =>
      have grounded₁ := grounded.starts starts wants.mem
      obtain ⟨k, there, rfl⟩ := graph
      exact ih (grounded₁ _ k there).1 grounded₁

/-! ## Nodes of a scene -/

/-- The nodes that a scene is about have a property. What is not about nodes has none. -/
def Build.Scene.Within (P : Spot → Prop) : Scene → Prop
  | .load _ | .settle _ _ | .override _ _ => False
  | .graph _ g required => ∀ o ∈ required, ∀ n, g.behind? o = some n → P ⟨g, n⟩
  | .ask _ g name | .give _ g name => ∀ n, g.node? name = some n → P ⟨g, n⟩
  | .node _ g n | .input _ g n _ _ => P ⟨g, n⟩

/-- A property of nodes spreads to all to which they lead. -/
def Catalog.Spreads (C : Catalog) (P : Spot → Prop) : Prop := ∀ s t, P s → C.Summons s t → P t

namespace Build.Scene.Within

variable {P : Spot → Prop}

/-- What is bound at a scene is an element of a node of the scene. -/
theorem element {e i : Input} {y : PartId} (within : s.Within P) (sits : Sits C selected s) (speaks : Speaks C s e y i) :
    ∃ t, P t ∧ t ∈ C.spots ∧ e ∈ C.elements t := by
  cases speaks with
  | override => exact within.elim
  | input id x isInput =>
      obtain ⟨graph, node, nd, definition, declared⟩ := sits
      exact ⟨_, within, Catalog.mem_spots graph node.mem, Catalog.mem_elements definition declared isInput⟩

theorem top {n : Node} {x : PartId} (within : s.Within P) (spreads : C.Spreads P) (sits : Sits C selected s)
    (wants : WantsTop C s n) : (Scene.ask x (.document C.document) n.name).Within P := by
  intro m found
  cases wants.has.symm.trans found
  obtain ⟨speaks, unnamed, takes, producer⟩ := wants
  obtain ⟨t, here, spot, mem⟩ := within.element sits speaks
  exact spreads t _ here (.depends (Catalog.escapes_top spot mem unnamed takes producer).1)

theorem expanded {id : PartId} {g : Graph} {n : Node} {h : NodeGraph} (within : (Scene.node id g n).Within P)
    (spreads : C.Spreads P) (sits : Sits C selected (.node id g n)) (recipe : Recipe.of n = .ok .expand)
    (implementation : (C.nodeDefOf? n).bind C.implementation? = some h) (x : PartId) (required : List Output) :
    (Scene.graph x (.named h) required).Within P := by
  intro o _ m behind
  have spot := Catalog.mem_spots sits.1 sits.2.mem
  exact spreads _ _ within (.depends (Catalog.depends_expanded spot recipe implementation (mem_of_node? behind).1.mem))

theorem needed {id : PartId} {g : Graph} {n m : Node} (within : (Scene.node id g n).Within P) (spreads : C.Spreads P)
    (sits : Sits C selected (.node id g n)) (needs : C.Needs g n m) : (Scene.node id g m).Within P :=
  spreads _ _ within (.depends (needs.depends sits.1 sits.2.mem))

/-- Outputs of a free-standing graph are asked for by an element of a node of the scene. -/
theorem takes {h : NodeGraph} {required : List Output} (within : s.Within P) (sits : Sits C selected s)
    (wants : Wants C s h required) :
    ∃ t, P t ∧ ∃ e ∈ C.elements t, ∃ o, C.graphOutput? e = some (h, o) ∧ required = [o] := by
  cases wants with
  | element speaks named found takes there =>
      obtain ⟨t, here, -, mem⟩ := within.element sits speaks
      exact ⟨t, here, _, mem, _, Catalog.graphOutput?_eq named found takes there, rfl⟩
  | group => exact within.elim

theorem graph {h h' : NodeGraph} {required : List Output} (within : s.Within P) (spreads : C.Spreads P)
    (sits : Sits C selected s) (wants : Wants C s h required) (known : h' ∈ C.document.nodeGraphs)
    (same : h'.name = h.name) (x : PartId) : (Scene.graph x (.named h') required).Within P := by
  intro o ho m behind
  obtain ⟨t, here, e, mem, o', takes, rfl⟩ := within.takes sits wants
  obtain rfl := List.mem_singleton.1 ho
  exact spreads t _ here (.namesake mem takes known same behind)

end Build.Scene.Within

/-! ## Constructions under way -/

/-- Whatever is being built, a scene belongs to it. -/
def AllUnder (C : Catalog) (selected : List (OutputKind × Candidate)) (a : Assembly) (s : Scene) : Prop :=
  ∀ (name : String) (x : PartId), a.freeStanding[name]? = some (.building x) → s.Within (C.Involves selected name)

theorem AllUnder.mono {t : Scene} (h : AllUnder C selected a s)
    (under : ∀ name, s.Within (C.Involves selected name) → t.Within (C.Involves selected name)) :
    AllUnder C selected a t :=
  fun name x building => under name (h name x building)

theorem spreads_involves (name : String) : C.Spreads (C.Involves selected name) := fun _ _ involved => involved.tail

/-- A free-standing graph that is not being built at the start of a course is not being built at its end. -/
theorem Build.Course.idle (h : Course W s p c c') {start : σ} (now : IsMoment W.renderer start c)
    (idle : ∀ x, c.assembly.freeStanding[name]? ≠ some (.building x)) (x : PartId) :
    c'.assembly.freeStanding[name]? ≠ some (.building x) := by
  rw [(h.steps.moves.isMoment now).standing]
  refine ((h.caching now).controlled name fun y => ?_).1 x
  rw [← now.standing]
  exact idle y

theorem AllUnder.course (under : AllUnder C selected c.assembly s) {start : σ} (now : IsMoment W.renderer start c)
    {t : Scene} (h : Course W t p c c') : AllUnder C selected c'.assembly s := by
  intro name x building
  by_contra other
  exact h.idle now (fun y before => other (under name y before)) x building

/-- Whatever is asked of a free-standing graph is an output of it or is selected. -/
theorem exposes_of_wants {h : NodeGraph} {required : List Output} (sits : Sits C selected s)
    (wants : Wants C s h required) : ∀ o ∈ required, C.Exposes selected h.name o := by
  intro o ho
  cases wants with
  | element speaks named found takes there =>
      obtain rfl := List.mem_singleton.1 ho
      rw [(Catalog.mem_of_nodeGraph? found).2]
      exact .own found (List.mem_of_find?_eq_some there)
  | group mem graph =>
      cases sits
      obtain ⟨o, output, rfl⟩ := List.mem_map.1 ho
      exact .selected mem graph rfl output

/-- When a free-standing graph is started, it is under construction and so is whatever was before. -/
theorem AllUnder.starts {h h' : NodeGraph} {x : PartId} {required : List Output}
    (under : AllUnder C selected c.assembly s) (sits : Sits C selected s) (wants : Wants C s h required)
    (starts : Starts h c x c')
    (known : h' ∈ C.document.nodeGraphs) (same : h'.name = h.name) :
    AllUnder C selected c'.assembly (.graph x (.named h') required) := by
  intro name y building
  rcases Decidable.em (h.name = name) with rfl | other
  · exact fun o ho m behind => ⟨h', known, same, o, m, exposes_of_wants sits wants o ho, behind, .refl⟩
  · rw [starts.freeStanding other] at building
    exact (under name y building).graph (spreads_involves name) sits wants known same x

/-! ## Reports -/

/-- An event reports no cycle, or it reports one of a free-standing graph that takes an output of its own. -/
def Event.IsWarranted (C : Catalog) (selected : List (OutputKind × Candidate)) (e : Event) : Prop :=
  e.IsCyclic → ∃ name, e = .warned (.failed (.cycle ("node graph " ++ name ++ " depends on itself"))) ∧
    C.IsSelfDependent selected name

abbrev Warranted (C : Catalog) (selected : List (OutputKind × Candidate)) : Context σ → Context σ → Prop :=
  Only (Event.IsWarranted C selected)

theorem Event.IsSilent.acyclic {e : Event} (h : e.IsSilent) : ¬ e.IsCyclic := by
  intro cyclic
  cases e with
  | warned => exact h
  | _ => exact cyclic

theorem Warranted.event {e : Event} (journal : c'.journal = e :: c.journal) (acyclic : ¬ e.IsCyclic) :
    Warranted C selected c c' :=
  Only.event journal fun cyclic => (acyclic cyclic).elim

theorem Warranted.edit (c : Context σ) (e : Edit) : Warranted C selected c (c.edit e) := .event rfl not_false

theorem Build.Only.warranted (h : Silent c c') : Warranted C selected c c' :=
  h.mono fun _ silent cyclic => (silent.acyclic cyclic).elim

theorem Build.Connects.warranted {r : Renderer σ} {x y : PartId} {success : Bool} (h : Connects r x y success c c') :
    Warranted C selected c c' := by
  obtain @⟨c₁, output, i, passes⟩ := h
  have begun : Warranted C selected c (c.edit (.began (.connection x output y i))) := .event rfl not_false
  refine Only.trans (begun.trans ?_) (Warranted.edit c₁ _)
  cases passes with
  | nothing => exact .refl _
  | handle _ _ binds => exact binds.silent.warranted

theorem Build.Starts.warranted {g : NodeGraph} {x : PartId} (h : Starts g c x c') : Warranted C selected c c' := by
  cases h with
  | first => exact Only.trans (Warranted.edit c _) (Warranted.edit _ _)
  | again => exact .edit _ _

theorem Build.MakesLeaf.silent {r : Renderer σ} {n : Node} {l : Leaf} (h : MakesLeaf r n c l c') : Silent c c' := by
  cases h with
  | forward => exact .refl _
  | create _ creation => exact creation.silent

theorem Warranted.added {q : Part} (h : Warranted C selected (c.edit (.add q)) c') : Warranted C selected c c' :=
  Only.trans (Warranted.edit c _) h

/-- A course reports only what is so. -/
theorem Build.Course.warranted (acyclic : W.catalog.IsAcyclic) (own : ∀ x ∈ selected, x.2.IsOf W.catalog) {start : σ}
    (h : Course W s p c c') (now : IsMoment W.renderer start c) (houses : Houses W c)
    (sits : Sits W.catalog selected s) (grounded : Grounded W.catalog c.assembly)
    (under : AllUnder W.catalog selected c.assembly s) : Warranted W.catalog selected c c' := by
  induction h with
  | refl => exact .refl _
  | trans first _ ih₁ ih₂ =>
      exact (ih₁ now houses sits grounded under).trans (ih₂ (first.steps.moves.isMoment now) (first.houses houses) sits
        (first.grounded own sits grounded) (under.course now first))
  | message _ _ acyclic => exact .event rfl acyclic
  | mark => exact .edit _ _
  | @task id g name p c c₁ success inner ih =>
      have begun : IsMoment W.renderer start (c.edit (.began (.child id name))) := now.event rfl rfl rfl
      have given := ih begun (houses.mark (.began _)) sits grounded (under.mono fun _ involved => involved)
      exact (Only.trans (Warranted.edit c _) given).trans (Warranted.edit _ _)
  | give found _ ih =>
      exact ih now houses ⟨sits, (mem_of_node? found).1⟩ grounded (under.mono fun _ involved => involved _ found)
  | refused _ creation => exact creation.silent.warranted
  | wrap _ creation => exact creation.silent.warranted.trans (Warranted.edit _ _)
  | own mem _ _ ih =>
      cases sits
      have graph := graph_of_group own mem
      exact Warranted.added (ih (now.event rfl rfl rfl) (houses.add _) graph (grounded.composite graph)
        (under.mono fun _ => False.elim))
  | shared _ _ _ ih => exact ih now houses (.head _) grounded (under.mono fun _ => False.elim)
  | settle _ _ ih | overriding _ _ _ _ _ ih => exact ih now houses trivial grounded (under.mono fun _ => False.elim)
  | search _ composite _ _ _ ih =>
      obtain ⟨k, there, rfl⟩ := composite
      exact ih now houses (grounded _ k there).1 grounded (under.mono fun _ => False.elim)
  | output mem _ ih => exact ih now houses sits grounded (under.mono fun _ involved => involved _ mem)
  | leafChild _ _ _ _ makes =>
      exact (makes.silent.warranted.trans (Warranted.edit _ _)).trans (Warranted.edit _ _)
  | expansion recipe implementation _ _ ih =>
      have graph := graph_of_implementation implementation
      exact Warranted.added (ih (now.event rfl rfl rfl) (houses.add _) graph (grounded.composite graph)
        (under.mono fun name involved => involved.expanded (spreads_involves name) sits recipe implementation _ _))
  | compositeChild recipe implementation _ ih =>
      have graph := graph_of_implementation implementation
      have inner := ih (now.event rfl rfl rfl) (houses.add _) graph (grounded.composite graph)
        (under.mono fun name involved => involved.expanded (spreads_involves name) sits recipe implementation _ _)
      exact (Warranted.added inner).trans (Warranted.edit _ _)
  | input _ _ _ definition declared _ ih =>
      exact ih now houses ⟨sits.1, sits.2, _, definition, declared⟩ grounded (under.mono fun _ involved => involved)
  | follow draws _ ih =>
      exact ih now houses (sits.needed draws.2) grounded
        (under.mono fun name involved => involved.needed (spreads_involves name) sits draws.2)
  | socket => exact .edit _ _
  | link _ _ _ _ _ _ connected => exact (after_connect _ _ connected).warranted.trans (Warranted.edit _ _)
  | unlinked _ _ _ _ _ connected | connection _ _ connected => exact (after_connect _ _ connected).warranted
  | cycle composite consumes needs cyclic =>
      obtain ⟨graph, wired⟩ := grounded _ _ composite
      obtain ⟨-, node⟩ := sits.has consumes
      have path := Composite.dependsOn_sound wired node needs.has cyclic
      exact (acyclic.not_needs graph node.mem needs path).elim
  | literal _ _ bound => exact (after_bindInput _ _ bound).silent.warranted
  | geometry _ creation =>
      exact (creation.silent.warranted.trans (Warranted.edit _ _)).trans (Warranted.edit _ _)
  | top => exact Warranted.added (Warranted.edit _ _)
  | viaTop wants _ _ ih =>
      exact ih now houses (.head _) grounded
        (under.mono fun name involved => involved.top (spreads_involves name) sits wants)
  | viaGraph wants starts graph _ _ _ ih =>
      obtain ⟨houses₁, h', known, same, there⟩ := starts.houses houses wants.mem
      obtain ⟨k, composite, rfl⟩ := graph
      obtain ⟨k', composite', same'⟩ := there
      cases composite.symm.trans composite'
      have grounded₁ := grounded.starts starts wants.mem
      have begun : Warranted W.catalog selected _ _ := starts.warranted
      have under₁ := under.starts sits wants starts known same
      rw [← same'] at under₁
      have inner := ih (starts.steps.moves.isMoment now) houses₁ (grounded₁ _ k composite).1 grounded₁ under₁
      exact (begun.trans inner).trans (Warranted.edit _ _)
  | busy wants building =>
      obtain ⟨t, involved, e, mem, o, takes, -⟩ := (under _ _ building).takes sits wants
      exact Only.event rfl fun _ => ⟨_, rfl, t, involved, e, mem, _, o, takes, rfl⟩

theorem Build.Closes.warranted {r : Renderer σ} (h : Closes r c c') : Warranted C selected c c' := by
  cases h with
  | released xs => exact (silent_releasedAll xs c).warranted
  | finished xs => exact (silent_releasedAll xs c).warranted.trans (Warranted.event rfl not_false)

/-! ## Loads -/

/-- If no node depends on itself, a load refuses no connection as cyclic. A cycle that it reports is one of a
free-standing graph that is asked for outputs while it is being built: the graph takes an output of its own to give
others. -/
theorem cycles_of_load (l : Loader) (d : Document) (options : LoadOptions) (fileExists : String → Bool)
    (r : Renderer σ) (s : σ) (o : Outcome σ) (loaded : l.load d options fileExists r s = some o)
    (acyclic : (l.catalog d).IsAcyclic) : ∀ w, .warned w ∈ o.journal → w.IsCyclic →
      ∃ name, w = .failed (.cycle ("node graph " ++ name ++ " depends on itself")) ∧
        (l.catalog d).IsSelfDependent (Selection.choose (l.catalog d) options.targets).selected name := by
  obtain ⟨c, c', course, closes, -, journal⟩ := course_of_load loaded
  generalize chosen : (Selection.choose (l.catalog d) options.targets).selected = selected at course
  have own : ∀ x ∈ selected, x.2.IsOf (l.catalog d) := chosen ▸ Selection.isOf_of_chosen
  have idle : AllUnder (l.catalog d) selected ({ system := s } : Context σ).assembly (.load selected) := by
    intro name x building
    rw [Std.TreeMap.getElem?_emptyc] at building
    cases building
  have empty : Grounded (l.catalog d) ({ system := s } : Context σ).assembly := fun _ _ there => by cases there
  have during := course.warranted acyclic own (isMoment_start s) (.start s) rfl empty idle
  obtain ⟨new, journal', warranted⟩ := during.trans closes.warranted
  intro w mem cyclic
  rw [journal, List.mem_reverse, journal', List.append_nil] at mem
  obtain ⟨name, same, dependent⟩ := warranted _ mem cyclic
  exact ⟨name, Event.warned.inj same, dependent⟩

/-! ## Two graphs that take outputs of each other -/

/-- A node of `G` takes an output of `H`, for which a node of `H` takes another output of `G`. No node depends on
itself. -/
def interleaved : Document where
  nodeDefs := [
    { name := "ND_add", node := "add", type := "float"
      inputs := [{ name := "in1", type := "float" }, { name := "in2", type := "float" }] }]
  nodeGraphs := [
    { name := "G"
      nodes := [
        { name := "a", category := "add", type := "float"
          inputs := [{ name := "in1", type := "float", nodeGraph := some "H", output := some "p" }] },
        { name := "b", category := "add", type := "float" }]
      outputs := [
        { name := "o1", type := "float", nodeName := some "a" },
        { name := "o2", type := "integer", nodeName := some "b" }] },
    { name := "H"
      nodes := [
        { name := "c", category := "add", type := "float"
          inputs := [{ name := "in1", type := "float", nodeGraph := some "G", output := some "o2" }] }]
      outputs := [{ name := "p", type := "integer", nodeName := some "c" }] }]

/-- How far the nodes of the document depend on others. -/
def interleavedDepth (s : Spot) : Nat := if s.node.name = "a" then 2 else if s.node.name = "c" then 1 else 0

theorem isAcyclic_interleaved : (({} : Loader).catalog interleaved).IsAcyclic :=
  Catalog.isAcyclic_of_lt interleavedDepth (by decide +kernel)

/-- What is reported of a load of the document. -/
theorem warned_interleaved : (({} : Loader).load interleaved {} (fun _ => false) Recorder.renderer {}).map
      (fun o => o.journal.filterMap fun | .warned w => some w | _ => none) =
    some [.failed (.cycle "node graph G depends on itself")] := by
  decide +kernel

theorem warned_of_load_interleaved :
    ∃ o, ({} : Loader).load interleaved {} (fun _ => false) Recorder.renderer {} = some o ∧
      .warned (.failed (.cycle "node graph G depends on itself")) ∈ o.journal := by
  obtain ⟨o, loaded, warned⟩ := Option.map_eq_some_iff.1 warned_interleaved
  have mem : Warning.failed (.cycle "node graph G depends on itself") ∈
      o.journal.filterMap fun | .warned w => some w | _ => none := by
    rw [warned]
    exact List.mem_singleton_self _
  obtain ⟨e, there, same⟩ := List.mem_filterMap.1 mem
  refine ⟨o, loaded, ?_⟩
  cases e with
  | warned w =>
      cases same
      exact there
  | _ => cases same

theorem cycles_of_load_interleaved : (({} : Loader).catalog interleaved).IsAcyclic ∧
    ∃ name, (({} : Loader).catalog interleaved).IsSelfDependent
      (Selection.choose (({} : Loader).catalog interleaved) none).selected name := by
  obtain ⟨o, loaded, mem⟩ := warned_of_load_interleaved
  obtain ⟨name, -, dependent⟩ := cycles_of_load {} interleaved {} (fun _ => false) Recorder.renderer {} o loaded
    isAcyclic_interleaved _ mem ⟨_, rfl⟩
  exact ⟨isAcyclic_interleaved, name, dependent⟩

/-- It is not so that no cycle is reported if no node depends on itself. -/
theorem interleaved_reports_cycle : ¬ ∀ (l : Loader) (d : Document) (options : LoadOptions) (fileExists : String → Bool)
    (o : Outcome Recorder), (l.catalog d).IsAcyclic → l.load d options fileExists Recorder.renderer {} = some o →
      ∀ w, .warned w ∈ o.journal → ¬ w.IsCyclic := by
  intro never
  obtain ⟨o, loaded, mem⟩ := warned_of_load_interleaved
  exact never {} interleaved {} (fun _ => false) o isAcyclic_interleaved loaded _ mem ⟨_, rfl⟩

end MaterialGraph
