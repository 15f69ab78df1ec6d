import MaterialGraph.Proofs.Grafting
import MaterialGraph.Proofs.Literals
import MaterialGraph.Proofs.Ranks

/-!
# Parts that can be built

A recorder that creates nodes of all types leaves nothing to chance: the part for a node is built whenever it is asked
for, or never, and the documents tell which.

* `Catalog.Builds` : the part for a node can be built.
* `Catalog.Builds.delivers` : then its child is built wherever it is asked for (`Delivers.buildChild`).
* `builds_of_ends` : it can be built if an output of it has ever led to a leaf.
-/

namespace MaterialGraph

set_option autoImplicit false

open Build Assembly Relation

variable {W : Env Recorder} {c c' : Context Recorder} {C : Catalog} {p : Place} {sub : SubPart Recorder}
  {id x y : PartId} {g : Graph} {n m : Node} {name : String} {output : Option String}

/-! ## What the documents tell -/

/-- The part for a node can be built: it is a leaf, or the node is expanded to a graph that has, behind one of its
outputs, a node whose part can be built. -/
inductive Catalog.Builds (C : Catalog) : Node → Prop
  | leaf {n : Node} {how : Recipe} (recipe : Recipe.of n = .ok how) (single : how ≠ .expand) : Builds C n
  | graph {n m : Node} {h : NodeGraph} {o : Output} {name : String} (recipe : Recipe.of n = .ok .expand)
      (implementation : (C.nodeDefOf? n).bind C.implementation? = some h) (mem : o ∈ h.outputs)
      (named : o.nodeName? = some name) (found : (Graph.named h).node? name = some m) (inner : Builds C m) : Builds C n

/-! ## Types that can be created -/

namespace Build

def Willing (c : Context Recorder) : Prop := c.system.failing = []

theorem Moves.failing_eq (moves : Moves Recorder.renderer c c') : c'.system.failing = c.system.failing := by
  induction moves with
  | refl => rfl
  | tail _ move ih =>
      cases move with
      | message | edit => exact ih
      | create type => exact (Recorder.failing_create type).trans ih
      | act a => exact (Recorder.failing_act a).trans ih

theorem Moves.willing (moves : Moves Recorder.renderer c c') (willing : Willing c) : Willing c' :=
  moves.failing_eq.trans willing

/-- The creation of a leaf succeeds. -/
theorem isOk_createLeaf {E : Env Recorder} (recording : E.renderer = Recorder.renderer) (willing : Willing c)
    {type : NodeType} {role : Role} {settings : List (InputKey × Bound)} (fixed : Fixed settings) (name : String) :
    After (createLeaf type role settings (some name)) E c fun res _ => ∃ l, res = .ok l := by
  have granted : type ∉ c.system.failing := by
    rw [show c.system.failing = [] from willing]
    exact List.not_mem_nil
  obtain ⟨c₁, call, -⟩ := createLeaf_presents recording granted role fixed name
  intro res c₂ call'
  cases call.symm.trans call'
  exact ⟨_, rfl⟩

/-! ## What is built -/

/-- The part for a node is built wherever it is asked for. -/
def Delivers (W : Env Recorder) (n : Node) : Prop :=
  ∀ sub p c, IsWay sub → Willing c → After (buildNode sub n) (W.at p) c fun res _ => ∃ x, res = .ok x

theorem Delivers.buildChild (delivers : Delivers W n) (way : IsWay sub) (willing : Willing c) :
    After (buildChild sub id n) (W.at p) c fun res _ => res.1.isSome := by
  refine builds_buildChild.mono fun res c₁ builds => ?_
  cases builds with
  | there | built => rfl
  | failed _ call =>
      obtain ⟨x, made⟩ := (delivers sub _ (c.push _) way willing).of_eq call
      cases made

theorem Delivers.drain (delivers : Delivers W n) (way : IsWay sub) (willing : Willing c) (node : g.Has n)
    (graph : HasGraph c.assembly id g) (fuel : Nat) :
    After (drain sub id n.name fuel [⟨n, none⟩] none) (W.at p) c fun res _ => res.isSome := by
  cases fuel with
  | zero => exact after_outOfFuel
  | succ fuel =>
      rw [Build.drain, after_bind]
      refine ((after_buildChild way.sound node graph (Nat.zero_le _)).and (delivers.buildChild way willing)).mono ?_
      rintro ⟨part, waiting⟩ c₁ ⟨yields, some⟩
      obtain ⟨x, rfl⟩ := Option.isSome_iff_exists.1 some
      dsimp only
      rw [after_bind, followLink, after_pure, if_pos rfl, List.nil_append, List.append_nil]
      refine (after_drain way.sound yields.waits (yields.given x rfl) (yields.known.symm.trans rfl)
        (graph.extends yields.run.steps.extends) (Nat.zero_le _)).mono ?_
      rintro res c₂ ⟨-, z, rfl, -⟩
      rfl

/-- A composite gives the child for a node of its graph. -/
theorem Delivers.part (delivers : Delivers W n) (way : IsWay sub) (willing : Willing c)
    (graph : HasGraph c.assembly id g) (found : g.node? name = some n) :
    After (sub id name) (W.at p) c fun res _ => res.isSome := by
  have given {sub : SubPart Recorder} (way : IsWay sub) :
      After (childPartWith sub id name) (W.at p) c fun res _ => res.isSome := by
    obtain ⟨k, composite, rfl⟩ := graph
    obtain ⟨node, rfl⟩ := mem_of_node? found
    have here : (c.edit (.began (.child id n.name))).assembly.composite? id = some k := composite
    rw [childPartWith, after_asTask, after_bind, after_assembly, here]
    dsimp only
    cases k.child? n.name with
    | some z => exact after_pure.2 rfl
    | none =>
        dsimp only
        rw [found]
        dsimp only
        rw [after_bind, after_catalog]
        exact delivers.drain (c := c.edit _) way willing node ⟨k, here, rfl⟩ _
  have fueled (fuel : Nat) : After (childPart fuel id name) (W.at p) c fun res _ => res.isSome := by
    cases fuel with
    | zero => exact after_outOfFuel
    | succ fuel => exact given (.childPart fuel)
  cases way with
  | childPart fuel => exact fueled fuel
  | part =>
      rw [Build.part, after_bind, after_catalog]
      exact fueled _

theorem Delivers.buildOutput (delivers : Delivers W n) (way : IsWay sub) (willing : Willing c)
    (graph : HasGraph c.assembly id g) {o : Output} (named : o.nodeName? = some name) (found : g.node? name = some n) :
    After (buildOutput sub id g o) (W.at p) c fun built _ => built = true := by
  rw [Build.buildOutput, named, Option.getD_some, after_bind, after_remark, after_bind]
  refine (delivers.part (c := c.push _) way willing graph found).mono fun res c₁ some => ?_
  obtain ⟨x, rfl⟩ := Option.isSome_iff_exists.1 some
  exact after_pure.2 rfl

/-- One output of a graph is enough. -/
theorem Delivers.buildOutputs (recording : W.renderer = Recorder.renderer) (delivers : Delivers W n)
    (way : IsWay sub) (willing : Willing c) (graph : HasGraph c.assembly id g) {required : List Output} {o : Output}
    (mem : o ∈ required) (named : o.nodeName? = some name) (found : g.node? name = some n) :
    After (buildOutputs sub id required) (W.at p) c fun res _ => res = .ok () := by
  -- while the nodes behind outputs are built, the renderer stays willing and the composite stays what it is
  let Ready (c₁ : Context Recorder) : Prop := Willing c₁ ∧ HasGraph c₁.assembly id g
  have kept (o : Output) (p : Place) (c₁ : Context Recorder) (ready : Ready c₁) :
      After (Build.buildOutput sub id g o) (W.at p) c₁ fun _ c₂ => Ready c₂ := by
    refine (after_buildOutput (s := 0) way.sound).mono fun _ c₂ built => ?_
    have steps := built.1.steps
    rw [recording] at steps
    exact ⟨steps.moves.willing ready.1, ready.2.extends steps.extends⟩
  obtain ⟨k, composite, rfl⟩ := graph
  have ready (e : Event) : Ready (c.push e) := ⟨willing, k, composite, rfl⟩
  rw [Build.buildOutputs, after_bind, after_assembly, composite]
  dsimp only
  rw [after_bind, after_remark, after_within, after_bind]
  refine (after_mapM_exists (P := (· = true)) (fun o _ c₁ => kept o _ c₁) mem
    (fun c₁ h => delivers.buildOutput way h.1 h.2 named found) (ready _)).mono ?_
  rintro built c₁ ⟨_, true, rfl⟩
  rw [after_pure, if_pos (List.contains_iff_mem.2 true)]

theorem Delivers.buildComposite (recording : W.renderer = Recorder.renderer) (delivers : Delivers W n)
    (way : IsWay sub) (willing : Willing c) {required : List Output} {o : Output} (mem : o ∈ required)
    (named : o.nodeName? = some name) (found : g.node? name = some n) :
    After (buildComposite sub g required) (W.at p) c fun res _ => ∃ x, res = .ok x := by
  have graph : HasGraph (c.edit (.add (.composite { graph := g }))).assembly c.assembly.size g := by
    refine ⟨{ graph := g }, ?_, rfl⟩
    rw [Context.edit_assembly, composite?_add_composite, if_pos rfl]
  rw [Build.buildComposite, after_bind, after_addComposite, after_andThen]
  refine (delivers.buildOutputs (c := c.edit _) recording way willing graph mem named found).mono fun res c₁ made => ?_
  refine ⟨fun _ _ => after_pure.2 ⟨_, rfl⟩, fun e failed => ?_⟩
  rw [made] at failed
  cases failed

end Build

/-- What the documents say can be built, a willing recorder builds. -/
theorem Catalog.Builds.delivers (builds : W.catalog.Builds n) (recording : W.renderer = Recorder.renderer) :
    Delivers W n := by
  intro sub p c way willing
  induction builds generalizing sub p c with
  | leaf recipe single =>
      refine builds_buildNode.mono fun res c₁ built => ?_
      cases built with
      | unknown other =>
          rw [recipe] at other
          cases other
      | forward | created => exact ⟨_, rfl⟩
      | failed recipe call =>
          obtain ⟨l, made⟩ := (isOk_createLeaf (E := W.at p) recording willing (fixed_of_recipe recipe) _).of_eq call
          cases made
      | expanded other | unexpanded other =>
          cases recipe.symm.trans other
          exact absurd rfl single
  | graph recipe implementation mem named found inner ih =>
      refine builds_buildNode.mono fun res c₁ built => ?_
      cases built with
      | unknown other | forward other | created other | failed other =>
          rw [recipe] at other
          cases other
      | expanded _ same call =>
          cases implementation.symm.trans same
          exact (Delivers.buildComposite recording ih way willing mem named found).of_eq call
      | unexpanded _ absent => cases implementation.symm.trans absent

/-! ## What has been built -/

theorem mem_outputs_of_meant {o : Output} (found : meant g output = some o) : o ∈ g.outputs := by
  unfold meant at found
  split at found
  · exact List.mem_of_find?_eq_some found
  · exact List.mem_of_head? found

/-- A child was noted for a node of the graph. -/
theorem Orderly.node_of_child? (orderly : Orderly c) (child : c.assembly.child? id name = some x) :
    .edited (.child id name x) ∈ c.journal ∧ ∃ g n, HasGraph c.assembly id g ∧ g.Has n ∧ n.name = name := by
  rw [← orderly.faithful.assembly] at child
  have noted := noted_of_child? orderly.faithful.fits child
  exact ⟨noted, orderly.node_of_noted noted⟩

/-- If an output of a child leads to a leaf, the part for its node can be built. -/
theorem builds_of_ends (nested : Nested C c) (orderly : Orderly c) (kept : Kept c.assembly c.system)
    (child : c.assembly.child? id n.name = some x) (graph : HasGraph c.assembly id g) (node : g.Has n)
    (ends : c.assembly.Ends y x output) : C.Builds n := by
  obtain ⟨k, composite, rfl⟩ := graph
  induction ends generalizing id n k with
  | leaf leaf =>
      obtain ⟨n', found, follows⟩ := kept.child composite ((child?_of_composite? composite _).symm.trans child) leaf
      cases node.symm.trans found
      cases follows with
      | surface _ category => exact .leaf (Recipe.of_surface category) nofun
      | displacement _ category => exact .leaf (Recipe.of_displacement category) nofun
      | native recipe => exact .leaf recipe nofun
  | @child x z k' output next inner found rest ih =>
      obtain ⟨o, name, meant, named, there⟩ := behind_eq_ok found
      obtain ⟨noted, -⟩ := orderly.node_of_child? child
      rcases nested id n.name x noted with leaf | ⟨h, id', g', n', graph', node', noted', recipe, implementation, same⟩
      · rw [leaf?_eq_none_of_composite? inner] at leaf
        cases leaf
      · -- the node that has been expanded is that of the child
        obtain ⟨rfl, same'⟩ := orderly.tidy.noted_once noted noted'
        obtain ⟨k₁, composite', rfl⟩ := graph'
        cases composite.symm.trans composite'
        obtain rfl := node.unique node' same'
        obtain ⟨k₂, inner', graph⟩ := same
        cases inner.symm.trans inner'
        have grandchild := (child?_of_composite? inner name).trans there
        obtain ⟨-, _, m, ⟨k₃, inner', rfl⟩, node', rfl⟩ := orderly.node_of_child? grandchild
        cases inner.symm.trans inner'
        have builds := ih grandchild k' inner node'
        have mem := mem_outputs_of_meant meant
        rw [graph] at mem node'
        exact .graph recipe implementation mem named node' builds

end MaterialGraph
