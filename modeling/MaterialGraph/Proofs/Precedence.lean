import MaterialGraph.Proofs.Ranks
import MaterialGraph.Proofs.Wiring

/-!
# Precedence

Where something is connected, whatever takes the input comes before whatever stands behind the output: the node of the
input depends on the node of the output in a way that leads to no cycle, or the composite of both notes the connection,
or the output is of something that graphs share and the input of something that they do not.

* `Gets` : what takes inputs at a scene, by the ways to it at the end.
* `Provides.outranked`, `outranked_sibling` : it comes before what stands behind the outputs that are bound there.
-/

namespace MaterialGraph

set_option autoImplicit false

open Build Assembly Relation

variable {σ : Type} {W : Env σ} {c c₁ e : Context σ} {C : Catalog} {s : Scene} {p : Place}
  {selected : List (OutputKind × Candidate)} {id u x y z : PartId} {g : Graph} {n m : Node} {t : PartId × Spot}
  {path : List (PartId × Spot)}

/-! ## What takes inputs -/

/-- A part stands where inputs are taken at a scene: in the composite of an override, which is apart, or below the child
for the node of the scene. -/
inductive Gets (e : Context σ) (x : PartId) : Scene → Prop
  | override {id : PartId} {path : List (PartId × Spot)} (i : Input) (apart : IsApart e id) (way : Route e id x path) :
      Gets e x (.override id i)
  | node {s : Scene} {id : PartId} {g : Graph} {n : Node} {path : List (PartId × Spot)} (consumes : Consumes id g n s)
      (way : Route e id x ((id, ⟨g, n⟩) :: path)) : Gets e x s

/-- The way to what stands below a child goes through its node. -/
theorem route_of_child (orderly : Orderly c) (graph : HasGraph c.assembly id g) (node : g.Has n)
    (noted : .edited (.child id n.name x) ∈ c.journal) (below : Below c.assembly x y) :
    ∃ path, Route c id y ((id, ⟨g, n⟩) :: path) :=
  have ⟨path, way⟩ := route_of_below orderly below
  ⟨path, (Route.here.child noted graph node).trans way⟩

/-- One node at most takes inputs at a scene. -/
theorem Build.Consumes.unique {id' : PartId} {g' : Graph} {n' : Node} (h : Consumes id g n s) (h' : Consumes id' g' n' s) :
    id = id' ∧ g = g' ∧ n = n' := by
  cases h <;> cases h' <;> exact ⟨rfl, rfl, rfl⟩

/-- What receives an input at a scene, and what stands below it, gets it. -/
theorem Situated.gets (situated : Situated W selected p c s) (tidy : Tidy c.journal) (later : Later c e)
    (ahead : Ahead c₁ e s) (receives : Receives c.assembly s y) (below : Below c.assembly y x) : Gets e x s := by
  have orderly : Orderly c := ⟨situated.founded.faithful, tidy⟩
  cases receives with
  | override id i =>
      obtain ⟨path, way⟩ := route_of_below orderly below
      exact .override i ahead (way.later later)
  | @node id _ g n composite child =>
      rw [← orderly.faithful.assembly] at child
      obtain ⟨path, way⟩ := route_of_child orderly composite situated.sits.2 (noted_of_child? orderly.faithful.fits child)
        below
      exact .node .node (way.later later)
  | input id g n y i =>
      obtain ⟨composite, noted, -⟩ := situated.lies
      obtain ⟨path, way⟩ := route_of_child orderly composite situated.sits.2.1 noted below
      exact .node (.input y i) (way.later later)

/-- What takes inputs for a node has been noted as its child. -/
theorem Situated.noted_of_receives (situated : Situated W selected p c s) (consumes : Consumes id g n s)
    (receives : Receives c.assembly s y) : .edited (.child id n.name y) ∈ c.journal := by
  have faithful := situated.founded.faithful
  cases consumes with
  | node =>
      cases receives with
      | node _ child => exact noted_of_child? faithful.fits (faithful.assembly.symm ▸ child)
  | input =>
      cases receives
      exact situated.lies.2.1

/-! ## What is bound -/

namespace Charted

/-- What gets an input comes before what stands below something shared to which the node of the input escapes. -/
theorem gets_outranks (charted : Charted C e) (guarded : C.IsGuarded) (gets : Gets e x s) (shared : u ∈ sharing e.journal)
    (way : Route e u z (t :: path)) (escapes : ∀ id g n, Consumes id g n s → C.Escapes ⟨g, n⟩ t.2) :
    Outranks C e x z := by
  cases gets with
  | override i apart above =>
      exact outranks_of_apart apart above (charted.ranked_of_shared shared way) (Nat.succ_lt_succ (Nat.succ_pos _))
  | node consumes above => exact charted.outranks_shared guarded above shared way (escapes _ _ _ consumes)

/-- What gets an input comes before leaves that are shared. -/
theorem gets_outranks_leaf {l : Leaf} (charted : Charted C e) (gets : Gets e x s) (shared : u ∈ sharing e.journal)
    (leaf : e.assembly.leaf? u = some l) : Outranks C e x u := by
  cases gets with
  | override i apart above =>
      exact outranks_of_apart apart above (charted.ranked_of_leaf shared leaf) (Nat.succ_pos _)
  | node _ above => exact charted.outranks_leaf above shared leaf

end Charted

/-- What is bound at a scene of a node is an element of the node. -/
theorem Sits.element {element i : Input} (sits : Sits C selected s) (speaks : Speaks C s element y i)
    (consumes : Consumes id g n s) : ⟨g, n⟩ ∈ C.spots ∧ element ∈ C.elements ⟨g, n⟩ := by
  cases speaks with
  | override => cases consumes
  | input id x isInput =>
      cases consumes
      obtain ⟨graph, node, nd, definition, declared⟩ := sits
      exact ⟨Catalog.mem_spots graph node.mem, Catalog.mem_elements definition declared isInput⟩

/-- What stands behind an output of a composite stands below a child for the node behind the output. -/
theorem route_of_behind {output : Option String} (orderly : Orderly c) (graph : HasGraph c.assembly x g)
    (behind : StandsBehind c.assembly x output z) :
    ∃ o m path, meant g output = some o ∧ g.behind? o = some m ∧ Route c x z ((x, ⟨g, m⟩) :: path) := by
  obtain ⟨k, composite, rfl⟩ := graph
  cases behind with
  | leaf leaf =>
      rw [leaf?_eq_none_of_composite? composite] at leaf
      cases leaf
  | child composite' found below =>
      cases composite.symm.trans composite'
      obtain ⟨o, name, chosen, named, child⟩ := behind_eq_ok found
      rw [← child?_of_composite? composite, ← orderly.faithful.assembly] at child
      have noted := noted_of_child? orderly.faithful.fits child
      obtain ⟨g, m, graph, node, rfl⟩ := orderly.node_of_noted noted
      obtain ⟨k', composite', rfl⟩ := graph
      cases composite.symm.trans composite'
      obtain ⟨path, way⟩ := route_of_child orderly ⟨k, composite, rfl⟩ node noted below
      refine ⟨o, m, path, chosen, ?_, way⟩
      rw [Graph.behind?, named]
      exact node

/-- Where children are connected, what gets the input comes before what stands behind the output, if the child for the
node of the input comes before the other. -/
theorem outranked_sibling {output : Option String} (consumes : Consumes id g n s) (composite : HasGraph c.assembly id g)
    (producer : g.Has m) (child : c.assembly.child? id m.name = some y) (behind : StandsBehind c.assembly y output z)
    (orderly : Orderly c) (later : Later c e) (charted : Charted C e) (gets : Gets e x s)
    (precedes : Precedes C e.assembly (id, ⟨g, n⟩) (id, ⟨g, m⟩)) : Outranks C e x z := by
  rw [← orderly.faithful.assembly] at child
  obtain ⟨path, way⟩ := route_of_child orderly composite producer (noted_of_child? orderly.faithful.fits child)
    (below_of_behind behind)
  cases gets with
  | override => cases consumes
  | node consumes' above =>
      obtain ⟨rfl, rfl, rfl⟩ := consumes.unique consumes'
      exact charted.outranks_sibling above (way.later later) precedes

/-- Where something shared is connected, what gets the input comes before what stands behind the output. -/
theorem Build.Provides.outranked {output : Option String} (provides : Provides W.catalog c.assembly s y output)
    (behind : StandsBehind c.assembly y output z) (situated : Situated W selected p c s) (tidy : Tidy c.journal)
    (later : Later c e) (charted : Charted W.catalog e) (guarded : W.catalog.IsGuarded) (gets : Gets e x s)
    (distinct : (W.catalog.document.nodeGraphs.map (·.name)).Nodup) : Outranks W.catalog e x z := by
  have orderly : Orderly c := ⟨situated.founded.faithful, tidy⟩
  have shares {u : PartId} (shared : u ∈ c.assembly.shared) : u ∈ sharing e.journal :=
    (later.suffix.sublist.filterMap _).subset (orderly.sharing_of_mem_shared shared)
  cases provides with
  | property known =>
      obtain ⟨l, leaf⟩ := situated.founded.houses.property _ _ known
      cases behind with
      | leaf =>
          obtain ⟨l', leaf'⟩ := later.ext.leaf leaf
          exact charted.gets_outranks_leaf gets (shares (mem_shared.2 (.inr (.inl ⟨_, known⟩)))) leaf'
      | child composite =>
          rw [leaf?_eq_none_of_composite? composite] at leaf
          cases leaf
  | graph speaks named found takes there built =>
      obtain ⟨h', mem, same, graph⟩ := situated.founded.houses.graph _ _ built
      -- no other graph has the name
      obtain rfl := List.inj_on_of_nodup_map distinct mem (List.mem_of_find?_eq_some found) same
      obtain ⟨o', m, path, chosen, below, way⟩ := route_of_behind orderly graph behind
      cases there.symm.trans chosen
      refine charted.gets_outranks guarded gets (shares (mem_shared.2 (.inr (.inr ⟨_, _, built, rfl⟩))))
        (way.later later) ?_
      intro id g n consumes
      obtain ⟨spot, element⟩ := situated.sits.element speaks consumes
      exact Catalog.escapes_graph spot element (Catalog.graphOutput?_eq named found takes there) below
  | @top t n _ wants top child =>
      have graph := situated.founded.houses.top t top
      rw [← orderly.faithful.assembly] at child
      obtain ⟨path, way⟩ := route_of_child orderly graph wants.has (noted_of_child? orderly.faithful.fits child)
        (below_of_behind behind)
      refine charted.gets_outranks guarded gets (shares (mem_shared.2 (.inl top))) (way.later later) ?_
      intro id g n consumes
      obtain ⟨speaks, unnamed, takes, producer⟩ := wants
      obtain ⟨spot, element⟩ := situated.sits.element speaks consumes
      exact Catalog.escapes_top spot element unnamed takes producer

end MaterialGraph
