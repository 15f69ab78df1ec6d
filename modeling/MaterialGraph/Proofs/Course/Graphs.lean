import MaterialGraph.Proofs.Course.Basic
import MaterialGraph.Proofs.Course.Errors

/-!
# Courses of graphs

The functions that ask for the parts of a graph, as courses. They are written for any way to get parts that `Leaves` a
course.

* `course_buildOutputs`, `course_buildComposite` : the nodes behind outputs.
* `course_topPart`, `course_freeStandingGraph`, `course_geomPart` : parts that are not of the graph of a consumer.
* `course_buildNode` : the part for a node, without its inputs.
-/

namespace MaterialGraph.Build

set_option autoImplicit false

open Assembly

variable {σ : Type} {W : Env σ} {c c' : Context σ} {p : Place} {sub : SubPart σ} {s : Scene} {id : PartId} {g : Graph}

/-- To ask for a child leaves a course of the request. -/
def Leaves (W : Env σ) (sub : SubPart σ) : Prop :=
  ∀ p id name c, Houses W c → After (sub id name) (W.at p) c fun _ c' =>
    ∀ g, HasGraph c.assembly id g → Course W (.ask id g name) p c c'

/-! ## Outputs -/

theorem course_buildOutput (hsub : Leaves W sub) (houses : Houses W c) {required : List Output} {o : Output}
    (mem : o ∈ required) (composite : HasGraph c.assembly id g) :
    After (buildOutput sub id g o) (W.at (p.enter .graph g.filePrefix)) c fun _ c' =>
      Course W (.graph id g required) p c c' := by
  rw [buildOutput, after_bind, after_remark, after_bind]
  have begun : Course W (.graph id g required) p c
      (c.push (.remarked (W.at (p.enter .graph g.filePrefix)).margin (.output o.name (o.nodeName?.getD "")))) :=
    .remark _ _ _ _ _
  refine (hsub _ id _ _ (begun.houses houses)).mono fun res c₁ leaves => ?_
  have asked : Course W (.graph id g required) p c c₁ := begun.trans (.output mem (leaves g composite))
  cases res with
  | some x => exact after_pure.2 asked
  | none =>
      dsimp only
      rw [after_bind, after_warn, after_pure]
      exact asked.trans (.message _ (.warning _) (not_isCyclic_of_none rfl))

/-- The nodes behind outputs are built in a course of their graph. -/
theorem course_buildOutputs (hsub : Leaves W sub) (houses : Houses W c) {required : List Output} :
    After (buildOutputs sub id required) (W.at p) c fun res c' =>
      Acyclic res ∧ ∀ g, HasGraph c.assembly id g → Course W (.graph id g required) p c c' := by
  rw [buildOutputs, after_bind, after_assembly]
  split
  · exact after_pure.2 ⟨acyclic_malformed _, fun _ _ => .refl _ _ _⟩
  · next k hk =>
    dsimp only
    rw [after_bind, after_remark, after_within, after_bind]
    have begun : Course W (.graph id k.graph required) p c (c.push (.remarked (W.at p).margin (.graph k.graph.name))) :=
      .remark _ _ _ _ _
    have all := after_mapM (E := W.at (p.enter .graph k.graph.filePrefix)) (l := required)
      (f := buildOutput sub id k.graph) (P := fun _ => True) (I := fun c₁ => Course W (.graph id k.graph required) p c c₁)
      (fun o mem c₁ course => (course_buildOutput hsub (course.houses houses) mem
        (HasGraph.extends ⟨k, hk, rfl⟩ course.extends)).mono fun _ _ more => ⟨course.trans more, trivial⟩) begun
    refine all.mono fun built c₁ h => ?_
    rw [after_pure]
    refine ⟨?_, fun g composite => ?_⟩
    · split
      · exact acyclic_ok _
      · exact acyclic_noOutput _
    · obtain ⟨k', hk', rfl⟩ := composite
      cases hk.symm.trans hk'
      exact h.1

/-- How it ends to build a composite for a graph, in a course of the graph. If it fails, nothing is built. -/
structure Composed (W : Env σ) (g : Graph) (required : List Output) (p : Place) (c : Context σ) (res : Result PartId)
    (c' : Context σ) : Prop where
  acyclic : Acyclic res
  size : ∀ x, res = .ok x → x = c.assembly.size
  barren : ∀ e, res = .error e → Barren W.renderer c c'
  inner : Course W (.graph c.assembly.size g required) p (c.edit (.add (.composite { graph := g }))) c'

/-- A composite is added for a graph, and the nodes behind outputs are built in it. -/
theorem course_buildComposite (hsub : Leaves W sub) (way : IsWay sub) (houses : Houses W c) {required : List Output} :
    After (buildComposite sub g required) (W.at p) c (Composed W g required p c) := by
  rw [buildComposite, after_bind, after_addComposite, after_andThen]
  refine ((course_buildOutputs hsub (houses.add _)).and (after_buildOutputs (s := 0) way.sound)).mono ?_
  rintro res c₁ ⟨⟨acyclic, course⟩, -, barren⟩
  have inner := course g (hasGraph_added g)
  refine ⟨fun _ _ => ?_, fun e he => ?_⟩
  · exact after_pure.2 ⟨acyclic_ok _, fun x hx => by cases hx; rfl, (fun _ he => by cases he), inner⟩
  · subst he
    have untouched := (Barren.composite c g).trans (barren rfl)
    exact ⟨acyclic.error, (fun _ hx => by cases hx), fun _ _ => untouched, inner⟩

/-! ## Parts outside the graph of a consumer -/

theorem course_topComposite (s : Scene) (p : Place) :
    After topComposite (W.at p) c fun t c' => c'.assembly.top = some t ∧ Course W s p c c' := by
  refine tops_topComposite.mono fun t c' tops => ?_
  cases tops with
  | known top => exact ⟨top, .refl _ _ _⟩
  | added absent => exact ⟨rfl, .top absent⟩

/-- To ask for a node of the top level is a course of the scene that wants it. What is given is a child of the top
level. -/
theorem course_topPart (hsub : Leaves W sub) (way : IsWay sub) (houses : Houses W c) {n : Node}
    (wants : WantsTop W.catalog s n) :
    After (topPart sub n) (W.at p) c fun res c' => Course W s p c c' ∧
      ∀ x, res = some x → ∃ t, c'.assembly.top = some t ∧ c'.assembly.child? t n.name = some x := by
  rw [topPart, after_bind, after_catalog]
  dsimp only
  rw [after_bind]
  refine (course_topComposite s p).mono ?_
  rintro t c₁ ⟨top, first⟩
  have houses₁ := first.houses houses
  rw [after_within]
  refine ((hsub _ t n.name c₁ houses₁).and (way.sound _ t n.name c₁)).mono ?_
  rintro res c₂ ⟨leaves, gives⟩
  constructor
  · exact first.trans (.viaTop wants top (leaves _ (houses₁.top t top)))
  · rintro x rfl
    cases gives with
    | child run given => exact ⟨t, run.steps.extends.top top, given.1⟩

/-- How it ends to ask for a free-standing graph: it is being built, or it is built in a course. -/
inductive Obtains (W : Env σ) (s : Scene) (p : Place) (h : NodeGraph) (required : List Output) (c : Context σ) :
    Result PartId → Context σ → Prop
  | busy {x : PartId} (wants : Wants W.catalog s h required)
      (building : c.assembly.freeStanding[h.name]? = some (.building x)) :
      Obtains W s p h required c (.error (.cycle ("node graph " ++ h.name ++ " depends on itself"))) c
  | course {res : Result PartId} {c' : Context σ} (acyclic : Acyclic res) (course : Course W s p c c') :
      Obtains W s p h required c res c'

theorem course_freeStandingGraph (hsub : Leaves W sub) (way : IsWay sub) (houses : Houses W c) {h : NodeGraph}
    {required : List Output} (wants : Wants W.catalog s h required) :
    After (freeStandingGraph sub h required) (W.at p) c (Obtains W s p h required c) := by
  refine opens_freeStandingGraph.mono fun res c' opens => ?_
  cases opens with
  | busy building => exact .busy wants building
  | call starts call =>
      obtain ⟨houses', graph, -, -, there⟩ := starts.houses houses wants.mem
      obtain ⟨acyclic, inner⟩ := course_buildOutputs hsub houses' _ _ call
      exact .course acyclic.map (.viaGraph wants starts there way call (inner _ there))

theorem acyclic_ofGeomProp (g : GeomPropDef) : Acyclic (Lookup.ofGeomProp g) := by
  unfold Lookup.ofGeomProp
  split
  · exact acyclic_malformed _
  · split
    · split <;> first | exact acyclic_ok _ | exact acyclic_unsupported _
    · split
      · exact acyclic_ok _
      · exact acyclic_unsupported _
    · exact acyclic_ok _
    · exact acyclic_unsupported _

/-- The part that looks up a geometric property is noted under its name. -/
theorem Consults.known_of_some {E : Env σ} {h : GeomPropDef} {res : Option PartId} (consults : Consults E h c res c') :
    ∀ x, res = some x → c'.assembly.geometry[h.name]? = some x := by
  induction consults with
  | known there =>
      rintro _ ⟨⟩
      exact there
  | strange _ _ ih => exact ih
  | unread | failed =>
      rintro _ ⟨⟩
  | made =>
      rintro _ ⟨⟩
      exact Std.TreeMap.getElem?_insert_self

theorem course_geomPart (s : Scene) (p : Place) (c : Context σ) (g : GeomPropDef) :
    After (geomPart g) (W.at p) c fun res c' => Course W s p c c' ∧
      ∀ x, res = some x → c'.assembly.geometry[g.name]? = some x := by
  refine consults_geomPart.mono fun res c' consults => ⟨?_, consults.known_of_some⟩
  induction consults with
  | known => exact .refl _ _ _
  | strange _ _ ih => exact (Course.message _ (.warning _) (not_isCyclic_of_none rfl)).trans ih
  | unread _ unread =>
      have acyclic := acyclic_ofGeomProp g
      rw [unread] at acyclic
      exact .message _ (.warning _) (acyclic.warning rfl)
  | @failed c c₁ e quantity _ call =>
      have refused : Course W s p c c₁ := .refused ((fixed_ofLookup quantity).held _) (.of_eq call)
      have acyclic := neverCyclic_createLeaf _ _ _ _ _ _ _ _ call
      exact refused.trans (.message _ (.warning _) (acyclic.warning rfl))
  | made absent call => exact .geometry absent (.of_eq call)

/-! ## Nodes -/

/-- How the construction of the part for a node ends, in a course about the node. -/
inductive Forms (W : Env σ) (n : Node) (p : Place) (c : Context σ) : Result PartId → Context σ → Prop
  | leaf {l : Leaf} {c₁ : Context σ} (makes : MakesLeaf W.renderer n c l c₁) :
      Forms W n p c (.ok c₁.assembly.size) (c₁.edit (.add (.leaf l)))
  | composite {h : NodeGraph} {c₁ : Context σ} (recipe : Recipe.of n = .ok .expand)
      (implementation : (W.catalog.nodeDefOf? n).bind W.catalog.implementation? = some h)
      (inner : Course W (.graph c.assembly.size (.named h) h.outputs) p
        (c.edit (.add (.composite { graph := .named h }))) c₁) : Forms W n p c (.ok c.assembly.size) c₁
  | failed {e : LoadError} {c₁ : Context σ} (acyclic : Acyclic (.error e : Result PartId))
      (course : ∀ id g q, p = q.enter .node n.filePrefix → Course W (.node id g n) q c c₁) : Forms W n p c (.error e) c₁

theorem acyclic_of_recipe (n : Node) : Acyclic (Recipe.of n) := by
  unfold Recipe.of
  split
  case h_7 =>
    unfold Recipe.ofSwizzle
    split <;> first | exact acyclic_ok _ | exact acyclic_malformed _ | exact acyclic_unsupported _
  case h_8 => split <;> exact acyclic_ok _
  all_goals exact acyclic_ok _

theorem course_buildNode (hsub : Leaves W sub) (way : IsWay sub) (houses : Houses W c) {n : Node} :
    After (buildNode sub n) (W.at p) c (Forms W n p c) := by
  refine builds_buildNode.mono fun res c₁ builds => ?_
  cases builds with
  | unknown recipe =>
      have acyclic := acyclic_of_recipe n
      rw [recipe] at acyclic
      exact .failed acyclic.error fun _ _ _ _ => .refl _ _ _
  | forward recipe => exact .leaf (.forward recipe)
  | created recipe call => exact .leaf (.create recipe (.of_eq call))
  | failed recipe call =>
      have acyclic := neverCyclic_createLeaf _ _ _ _ _ _ _ _ call
      exact .failed acyclic.error fun _ _ _ _ => .refused ((fixed_of_recipe recipe).held _) (.of_eq call)
  | expanded recipe implementation call =>
      obtain ⟨acyclic, size, barren, inner⟩ := (course_buildComposite hsub way houses).of_eq call
      cases res with
      | error e =>
          refine .failed acyclic fun id g q hq => ?_
          subst hq
          exact .expansion recipe implementation inner (barren e rfl)
      | ok x =>
          cases size x rfl
          exact .composite recipe implementation inner
  | unexpanded => exact .failed (acyclic_unsupported _) fun _ _ _ _ => .refl _ _ _

end MaterialGraph.Build
