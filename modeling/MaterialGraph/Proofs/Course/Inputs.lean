import MaterialGraph.Proofs.Course.Graphs
import MaterialGraph.Proofs.Build.Ends

/-!
# Courses of inputs

The functions that resolve the inputs of a part, as courses.

* `course_connectOutside` : an element takes an output of another graph.
* `course_connectInside` : an input takes a node of the same graph, or waits for it.
* `course_resolveInputs` : all inputs of a child. What is left waits for nodes that the child needs.
-/

namespace MaterialGraph.Build

set_option autoImplicit false

open Assembly

variable {σ : Type} {W : Env σ} {c c' : Context σ} {p : Place} {sub : SubPart σ} {s : Scene} {id y : PartId} {g : Graph}
  {n : Node} {i element : Input}

/-! ## Outputs of other graphs -/

theorem Comments.course {α : Type} {r : LoadError → Remark} {w : LoadError → Warning} {res : Result α}
    (h : Comments (W.at p) r w res c c') (s : Scene) (acyclic : Acyclic res) (cause : ∀ e, (w e).cause? = some e) :
    Course W s p c c' := by
  cases h with
  | fine => exact .refl _ _ _
  | remark => exact .remark _ _ _ _ _
  | warning e => exact .message c (.warning _) (acyclic.warning (cause e))

theorem ReportsConnect.course {x : PartId} {output : Option String} {made : Bool}
    (h : ReportsConnect (W.at p) x output y i c made c') (provides : Provides W.catalog c.assembly s x output)
    (receives : Receives c.assembly s y) : Course W s p c c' := by
  cases h with
  | made call => exact .connection provides receives call
  | failed call =>
      have acyclic := neverCyclic_connect x output y i _ _ _ _ call
      exact (Course.connection provides receives call).trans (.message _ (.warning _) (acyclic.warning rfl))

/-- What takes an input as it is spoken of receives it. -/
theorem Speaks.receives (speaks : Speaks W.catalog s element y i) (a : Assembly) : Receives a s y := by
  cases speaks with
  | override => exact .override _ _
  | input => exact .input _ _ _ _ _

/-- To connect what an element names outside its graph is a course of its scene. -/
theorem course_connectOutside (hsub : Leaves W sub) (way : IsWay sub) (houses : Houses W c)
    (speaks : Speaks W.catalog s element y i) :
    After (connectOutside sub element y i) (W.at p) c fun _ c' => Course W s p c c' := by
  have wants {graph output : String} {h : NodeGraph} {o : Output}
      (names : NamesGraph W.catalog element graph output h o) : Wants W.catalog s h [o] :=
    .element speaks names.named names.found names.takes names.there
  have wantsTop {output : String} {o : Output} {m : Node} {nd : NodeDef}
      (names : NamesTop W.catalog element output o m nd) : WantsTop W.catalog s m :=
    .element speaks names.unnamed names.takes names.producer
  refine connects_connectOutside.mono fun made c' connects => ?_
  cases connects with
  | idle => exact .refl _ _ _
  | noGraph | noOutput => exact .message c (.warning _) (not_isCyclic_of_none rfl)
  | badGraph names call =>
      cases (course_freeStandingGraph hsub way houses (wants names)).of_eq call with
      | busy wants building => exact .busy wants building
      | course acyclic course => exact course.trans (.message _ (.warning _) (acyclic.warning rfl))
  | graph names call report =>
      have built := ((after_freeStandingGraph way.sound).of_eq call).2 _ rfl
      cases (course_freeStandingGraph hsub way houses (wants names)).of_eq call with
      | course acyclic course =>
          have provides := Provides.graph speaks names.named names.found names.takes names.there built
          exact (course.trans (.remark _ _ _ _ _)).trans (report.course provides (speaks.receives _))
  | badOutput names chosen => exact .message c (.warning _) ((chosen ▸ acyclic_chooseOutput _ _ _ _).warning rfl)
  | badNode names call => exact ((course_topPart hsub way houses (wantsTop names)).of_eq call).1
  | node names call report =>
      obtain ⟨course, child⟩ := (course_topPart hsub way houses (wantsTop names)).of_eq call
      obtain ⟨t, top, child⟩ := child _ rfl
      exact (course.trans (.remark _ _ _ _ _)).trans
        (report.course (.top (wantsTop names) top child) (speaks.receives _))

theorem course_bindGeomProp (property : String) (i : Input) (receives : ∀ a, Receives a s y) :
    After (bindGeomProp property y i) (W.at p) c fun _ c' => Course W s p c c' := by
  refine binds_bindGeomProp.mono fun _ c' binds => ?_
  cases binds with
  | unknown => exact .message c (.warning _) (not_isCyclic_of_none rfl)
  | failed call => exact ((course_geomPart s p c _).of_eq call).1
  | @bound x _ _ _ _ _ call connection comments =>
      have acyclic := neverCyclic_connect x none y i _ _ _ _ connection
      obtain ⟨course, known⟩ := (course_geomPart s p c _).of_eq call
      have provides : Provides W.catalog _ s x none := .property (known x rfl)
      exact (course.trans (.connection provides (receives _) connection)).trans (comments.course s acyclic fun _ => rfl)

theorem course_bindLiteral (supplies : Supplies W.catalog s element y i) :
    After (bindLiteral element n y i) (W.at p) c fun _ c' => Course W s p c c' := by
  refine binds_bindLiteral.mono fun _ c' binds => ?_
  cases binds with
  | absent => exact .refl _ _ _
  | @bound value _ _ _ literal call comments =>
      have acyclic := neverCyclic_bindInput y i (.literal value element.type) _ _ _ _ call
      have binds : Course W s p c _ := .trans (.remark _ _ _ _ _) (.literal supplies literal call)
      exact binds.trans (comments.course s acyclic fun _ => rfl)

/-! ## Nodes of the same graph -/

/-- How it ends to connect two children: a cycle would arise, or there is a course. -/
inductive Joins (W : Env σ) (s : Scene) (p : Place) (c : Context σ) : Result Unit → Context σ → Prop
  | cycle {text : String} (warns : ∀ w, Course W s p c (c.push (.warned w))) : Joins W s p c (.error (.cycle text)) c
  | course {res : Result Unit} {c' : Context σ} (acyclic : Acyclic res) (course : Course W s p c c') :
      Joins W s p c res c'

theorem course_connectChildren {m : Node} {x : PartId} {output : Option String} (consumes : Consumes id g n s)
    (composite : HasGraph c.assembly id g) (draws : Draws W.catalog c.assembly id g n m)
    (producer : c.assembly.child? id m.name = some x) (receives : Receives c.assembly s y) :
    After (connectChildren id ⟨m.name, n.name⟩ x output y i) (W.at p) c (Joins W s p c) := by
  obtain ⟨k, hk, rfl⟩ := composite
  refine connects_connectChildren.mono fun res c' connects => ?_
  cases connects with
  | cycle composite depends =>
      cases hk.symm.trans composite
      exact .cycle fun _ => .cycle hk consumes draws.2 depends
  | failed _ call =>
      have course : Course W s p c _ := .unlinked ⟨k, hk, rfl⟩ consumes draws producer receives call
      exact .course (neverCyclic_connect x output y i _ _ _ _ call) course
  | made free call => exact .course (acyclic_ok _) (.link hk consumes draws (free k hk) producer receives call)

/-- What is left after an input has been resolved waits for a node that the consumer needs. -/
def Awaits (cat : Catalog) (g : Graph) (n : Node) (res : Option Pending) : Prop :=
  ∀ q, res = some q → q.consumer = n ∧ ∀ l ∈ q.link, cat.Needs g n l.producer

theorem awaits_none (cat : Catalog) (g : Graph) (n : Node) : Awaits cat g n none := by
  intro q hq
  cases hq

/-- A reply ends the course of the attempt, and nothing waits. -/
theorem Replies.course {e : Edge} {res : Result Unit} {r : Resolution} {event : Event} {c₁ : Context σ}
    (h : Replies (W.at p) e i res r event) (joins : Joins W s p c res c₁) :
    Course W s p c (c₁.push event) ∧ Resolution.pending? r = none := by
  cases joins with
  | cycle warns =>
      cases h with
      | refused unsupported => cases unsupported
      | failed => exact ⟨warns _, rfl⟩
  | course acyclic course =>
      cases h with
      | connected | refused => exact ⟨course.trans (.remark _ _ _ _ _), rfl⟩
      | failed => exact ⟨course.trans (.message _ (.warning _) (acyclic.warning rfl)), rfl⟩

theorem course_connectInside {nd : NodeDef} {name : String} (definition : W.catalog.nodeDefOf? n = some nd)
    (declared : i ∈ nd.inputs) (isInput : (W.catalog.elementOf g n i).isInput)
    (named : (W.catalog.elementOf g n i).nodeName? = some name) (composite : HasGraph c.assembly id g)
    (there : (c.assembly.child? id n.name).isSome) :
    After (connectInside id g n y i (W.catalog.elementOf g n i) name) (W.at p) c fun res c' =>
      Course W (.input id g n y i) p c c' ∧ Awaits W.catalog g n (Resolution.pending? res) := by
  have begun : Course W (.input id g n y i) p c (c.push (.remarked (W.at p).margin (.reference name))) :=
    .remark _ _ _ _ _
  have needs {m : Node} (found : g.node? name = some m) : W.catalog.Needs g n m := by
    obtain ⟨-, rfl⟩ := mem_of_node? found
    exact ⟨nd, i, definition, declared, isInput, named, found⟩
  refine connects_connectInside.mono fun res c' connects => ?_
  cases connects with
  | lost => exact ⟨begun.trans (.message _ (.warning _) (not_isCyclic_of_none rfl)), awaits_none _ _ _⟩
  | wrong _ chosen =>
      exact ⟨begun.trans (.message _ (.warning _) ((chosen ▸ acyclic_chooseOutput _ _ _ _).warning rfl)),
        awaits_none _ _ _⟩
  | waits found =>
      refine ⟨begun, ?_⟩
      rintro q ⟨⟩
      refine ⟨rfl, ?_⟩
      rintro l ⟨⟩
      exact needs found
  | attempt found _ producer call reply =>
      have draws := needs found
      obtain ⟨-, rfl⟩ := mem_of_node? found
      have joins := (course_connectChildren (c := c.push _) (.input y i) composite ⟨there, draws⟩ producer
        (.input id g n y i)).of_eq call
      obtain ⟨course, none⟩ := reply.course joins
      rw [none]
      exact ⟨begun.trans course, awaits_none _ _ _⟩

/-! ## Inputs -/

theorem course_effectiveInput (id y : PartId) (g : Graph) (n : Node) (i : Input) :
    After (effectiveInput id g n i) (W.at p) c fun element c' =>
      element = W.catalog.elementOf g n i ∧ Course W (.input id g n y i) p c c' := by
  refine after_effectiveInput_eq.and (reads_effectiveInput.mono fun _ c' reads => ?_)
  cases reads with
  | declared | given => exact .refl _ _ _
  | interface => exact .socket c _

theorem BindsOutside.course (hsub : Leaves W sub) (way : IsWay sub) (houses : Houses W c)
    (isInput : (W.catalog.elementOf g n i).isInput)
    (h : BindsOutside (W.at p) sub n y i (W.catalog.elementOf g n i) c c') : Course W (.input id g n y i) p c c' := by
  have speaks : Speaks W.catalog (.input id g n y i) (W.catalog.elementOf g n i) y i := .input id y isInput
  cases h with
  | outside call => exact (course_connectOutside hsub way houses speaks).of_eq call
  | property call _ binding =>
      have course : Course W (.input id g n y i) p c _ := (course_connectOutside hsub way houses speaks).of_eq call
      exact course.trans ((course_bindGeomProp _ _ speaks.receives).of_eq binding)
  | literal call binding =>
      have course : Course W (.input id g n y i) p c _ := (course_connectOutside hsub way houses speaks).of_eq call
      exact course.trans ((course_bindLiteral (.input id g n y i)).of_eq binding)

theorem course_bindElement (hsub : Leaves W sub) (way : IsWay sub) (houses : Houses W c) {nd : NodeDef}
    (definition : W.catalog.nodeDefOf? n = some nd) (declared : i ∈ nd.inputs)
    (isInput : (W.catalog.elementOf g n i).isInput) (composite : HasGraph c.assembly id g)
    (there : (c.assembly.child? id n.name).isSome) :
    After (bindElement sub id g n y i (W.catalog.elementOf g n i)) (W.at p) c fun res c' =>
      Course W (.input id g n y i) p c c' ∧ Awaits W.catalog g n res := by
  refine binds_bindElement.mono fun res c' binds => ?_
  cases binds with
  | settled named call =>
      exact ⟨((course_connectInside definition declared isInput named composite there).of_eq call).1, awaits_none _ _ _⟩
  | deferred named call => exact (course_connectInside definition declared isInput named composite there).of_eq call
  | unsettled named call outside =>
      obtain ⟨course, -⟩ := (course_connectInside definition declared isInput named composite there).of_eq call
      exact ⟨course.trans (outside.course hsub way (course.houses houses) isInput), awaits_none _ _ _⟩
  | unnamed _ outside => exact ⟨outside.course hsub way houses isInput, awaits_none _ _ _⟩

theorem course_resolveInput (hsub : Leaves W sub) (way : IsWay sub) (houses : Houses W c) {nd : NodeDef}
    (definition : W.catalog.nodeDefOf? n = some nd) (declared : i ∈ nd.inputs) (composite : HasGraph c.assembly id g)
    (there : (c.assembly.child? id n.name).isSome) :
    After (resolveInput sub id n y i) (W.at p) c fun res c' =>
      Course W (.input id g n y i) p c c' ∧ Awaits W.catalog g n res := by
  obtain ⟨k, hk, rfl⟩ := composite
  rw [resolveInput, after_bind, after_assembly, hk]
  dsimp only
  rw [after_bind]
  refine (course_effectiveInput id y k.graph n i).mono ?_
  rintro _ c₁ ⟨rfl, course⟩
  split
  · next isInput =>
    exact (course_bindElement hsub way (course.houses houses) definition declared isInput
      (HasGraph.extends ⟨k, hk, rfl⟩ course.extends) (course.extends.child there)).mono
      fun _ _ more => ⟨course.trans more.1, more.2⟩
  · rw [after_bind]
    exact (course_bindLiteral (.input id k.graph n y i)).mono fun _ _ more =>
      after_pure.2 ⟨course.trans more, awaits_none _ _ _⟩

/-- All inputs of a child are resolved in a course about its node; what is left waits for nodes that it needs. -/
theorem course_resolveInputs (hsub : Leaves W sub) (way : IsWay sub) (houses : Houses W c)
    (composite : HasGraph c.assembly id g) (noted : Event.edited (.child id n.name y) ∈ c.journal)
    (there : (c.assembly.child? id n.name).isSome) :
    After (resolveInputs sub id n y) (W.at (p.enter .node n.filePrefix)) c fun waiting c' =>
      Course W (.node id g n) p c c' ∧ ∀ q ∈ waiting, Awaits W.catalog g n (some q) := by
  rw [resolveInputs, after_bind, after_catalog]
  split
  · rw [after_bind, after_warn, after_pure]
    exact ⟨.message c (.warning _) (not_isCyclic_of_none rfl), fun q hq => absurd hq List.not_mem_nil⟩
  · next nd definition =>
    rw [after_bind]
    have all := after_mapM (E := W.at (p.enter .node n.filePrefix)) (c := c) (l := nd.inputs)
      (I := fun c₁ => Course W (.node id g n) p c c₁) (P := Awaits W.catalog g n)
      (f := fun i => do
        remark (.input i.kind i.name)
        within .input i.filePrefix (resolveInput sub id n y i))
    refine (all (fun i declared c₁ course => ?_) (.refl _ _ _)).mono ?_
    · rw [after_bind, after_remark, after_within]
      have begun := course.trans (.remark _ p c₁ (W.at (p.enter .node n.filePrefix)).margin (.input i.kind i.name))
      have composite' := composite.extends begun.extends
      have there' := begun.extends.child there
      refine (course_resolveInput hsub way (begun.houses houses) definition declared composite' there').mono ?_
      rintro res c₂ ⟨inner, awaits⟩
      exact ⟨begun.trans (.input composite' (begun.suffix.subset noted) there' definition declared inner), awaits⟩
    · rintro waiting c₁ ⟨course, awaits⟩
      rw [after_pure]
      refine ⟨course, fun q hq => ?_⟩
      obtain ⟨res, hres, hq⟩ := List.mem_filterMap.1 (List.mem_reverse.1 hq)
      subst hq
      exact awaits _ hres

end MaterialGraph.Build
