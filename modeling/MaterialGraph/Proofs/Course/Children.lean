import MaterialGraph.Proofs.Course.Inputs

/-!
# Courses of children

To ask a composite for a child leaves a course about the node of the child (`leaves_part`). Every node that is built on
the way is one that the node needs, directly or through others.
-/

namespace MaterialGraph.Build

set_option autoImplicit false

open Assembly Relation

variable {σ : Type} {W : Env σ} {c c' : Context σ} {p : Place} {sub : SubPart σ} {s : Scene} {id : PartId} {g : Graph}
  {n : Node}

/-! ## A child and its inputs -/

theorem course_reportNode (s : Scene) {p q : Place} {e : LoadError} (acyclic : Acyclic (.error e : Result Unit)) :
    After (reportNode n e) (W.at q) c fun _ c' => Course W s p c c' := by
  refine comments_reportNode.mono fun _ c' comments => ?_
  cases comments with
  | remark => exact .remark _ _ _ _ _
  | warning => exact .message c (.warning _) (acyclic.warning rfl)

/-- How the construction of a child ends: with a course about its node, and with connections that wait for what it
needs if it is there. -/
def Raises (W : Env σ) (id : PartId) (g : Graph) (n : Node) (p : Place) (c : Context σ)
    (res : Option PartId × List Pending) (c' : Context σ) : Prop :=
  Course W (.node id g n) p c c' ∧ ∀ q ∈ res.2, Awaits W.catalog g n (some q) ∧ (c'.assembly.child? id n.name).isSome

/-- Once a child is noted, its inputs are resolved. -/
theorem Raises.noted (hsub : Leaves W sub) (way : IsWay sub) (houses : Houses W c) {c₁ : Context σ} {x : PartId}
    {waiting : List Pending} (composite : HasGraph c.assembly id g)
    (course : Course W (.node id g n) p c (c₁.edit (.child id n.name x)))
    (inputs : resolveInputs sub id n x (W.at (p.enter .node n.filePrefix)) (c₁.edit (.child id n.name x)) =
      .ok (waiting, c')) : Raises W id g n p c (some x, waiting) c' := by
  have there : ((c₁.edit (.child id n.name x)).assembly.child? id n.name).isSome := by
    obtain ⟨k, hk, -⟩ := composite.extends course.extends
    rw [Context.edit_assembly, composite?_child, if_pos rfl] at hk
    obtain ⟨k₁, hk₁, -⟩ := Option.map_eq_some_iff.1 hk
    rw [Context.edit_assembly, child?_child_self hk₁]
    rfl
  obtain ⟨more, awaits⟩ := (course_resolveInputs hsub way (course.houses houses) (composite.extends course.extends)
    List.mem_cons_self there).of_eq inputs
  exact ⟨course.trans more, fun q hq => ⟨awaits q hq, more.extends.child there⟩⟩

theorem course_buildChild (hsub : Leaves W sub) (way : IsWay sub) (houses : Houses W c) (node : g.Has n)
    (composite : HasGraph c.assembly id g) :
    After (buildChild sub id n) (W.at p) c (Raises W id g n p c) := by
  obtain ⟨k, hk, rfl⟩ := composite
  have begun : Course W (.node id k.graph n) p c (c.push (.remarked (W.at p).margin (.node n.name n.category))) :=
    .remark _ _ _ _ _
  refine builds_buildChild.mono fun res c' builds => ?_
  cases builds with
  | there => exact ⟨.refl _ _ _, fun q hq => absurd hq List.not_mem_nil⟩
  | failed _ call report =>
      cases (course_buildNode (c := c.push _) hsub way (begun.houses houses)).of_eq call with
      | failed acyclic course =>
          have reported : Course W (.node id k.graph n) p _ c' :=
            (course_reportNode (.node id k.graph n) acyclic.error).of_eq report
          exact ⟨(begun.trans (course _ _ p rfl)).trans reported, fun q hq => absurd hq List.not_mem_nil⟩
  | built absent call inputs =>
      rw [child?_of_composite? hk] at absent
      cases (course_buildNode (c := c.push _) hsub way (begun.houses houses)).of_eq call with
      | leaf makes =>
          have noted := begun.trans (.leafChild (c := c.push _) hk rfl node absent makes)
          exact .noted hsub way houses ⟨k, hk, rfl⟩ noted inputs
      | composite recipe implementation inner =>
          have noted := begun.trans (.compositeChild recipe implementation inner)
          exact .noted hsub way houses ⟨k, hk, rfl⟩ noted inputs

/-! ## The stack -/

theorem course_connectPending {link : Link} {x y : PartId} (composite : HasGraph c.assembly id g)
    (draws : Draws W.catalog c.assembly id g n link.producer)
    (producer : c.assembly.child? id link.producer.name = some x) (consumer : c.assembly.child? id n.name = some y) :
    After (connectPending id n link y x) (W.at p) c fun _ c' => Course W (.node id g n) p c c' := by
  refine connects_connectPending.mono fun _ c' connects => ?_
  cases connects with
  | attempt call reply =>
      have joins := (course_connectChildren .node composite draws producer (.node composite consumer)).of_eq call
      exact (reply.course joins).1

/-- What is on the stack is built for the sake of a node, which draws on it directly or through others. -/
structure Stacked (cat : Catalog) (a : Assembly) (id : PartId) (g : Graph) (root : Node) (q : Pending) : Prop where
  node : g.Has q.consumer
  path : ReflTransGen (Draws cat a id g) root q.consumer
  link : ∀ l ∈ q.link, Draws cat a id g q.consumer l.producer

theorem Stacked.extends {cat : Catalog} {a a' : Assembly} {root : Node} {q : Pending} (h : Stacked cat a id g root q)
    (ext : Extends a a') : Stacked cat a' id g root q :=
  ⟨h.node, draws_path h.path ext, fun l hl => (h.link l hl).extends ext⟩

theorem Raises.stacked {root : Node} {res : Option PartId × List Pending} (raises : Raises W id g n p c res c')
    (node : g.Has n) (path : ReflTransGen (Draws W.catalog c.assembly id g) root n) :
    ∀ q ∈ res.2, Stacked W.catalog c'.assembly id g root q := by
  obtain ⟨course, waiting⟩ := raises
  intro q hq
  obtain ⟨awaits, there⟩ := waiting q hq
  obtain ⟨rfl, links⟩ := awaits q rfl
  exact ⟨node, draws_path path course.extends, fun l hl => ⟨there, links l hl⟩⟩

/-- To build a child is a course about its node, and what is given is the child of that name. -/
theorem course_buildChild_yields (hsub : Leaves W sub) (way : IsWay sub) (houses : Houses W c) (node : g.Has n)
    (composite : HasGraph c.assembly id g) :
    After (buildChild sub id n) (W.at p) c fun res c' => Raises W id g n p c res c' ∧ Yields W id 0 g n c res c' :=
  (course_buildChild hsub way houses node composite).and (after_buildChild way.sound node composite (Nat.zero_le _))

theorem course_followLink (hsub : Leaves W sub) (way : IsWay sub) (houses : Houses W c) {root : Node} {q : Pending}
    {part : Option PartId} (stacked : Stacked W.catalog c.assembly id g root q) (composite : HasGraph c.assembly id g)
    (consumer : ∀ x, part = some x → c.assembly.child? id q.consumer.name = some x) :
    After (followLink sub id q.consumer part q.link) (W.at p) c fun later c' =>
      Course W (.node id g root) p c c' ∧ ∀ q ∈ later, Stacked W.catalog c'.assembly id g root q := by
  cases linked : q.link with
  | none =>
      rw [followLink, after_pure]
      exact ⟨.refl _ _ _, fun q hq => absurd hq List.not_mem_nil⟩
  | some link =>
      have draws := stacked.link link linked
      have path := stacked.path.tail draws
      have node : g.Has link.producer := draws.2.choose_spec.choose_spec.2.2.2.2
      rw [followLink, after_bind]
      refine (course_buildChild_yields hsub way houses node composite).mono ?_
      rintro ⟨producing, waiting⟩ c₁ ⟨raises, yields⟩
      have course := raises.1.path path
      have waits : ∀ q ∈ waiting, Stacked W.catalog c₁.assembly id g root q := raises.stacked node path
      dsimp only
      split
      · next y z =>
        have there : c₁.assembly.child? id q.consumer.name = some y :=
          yields.run.keeps (consumer y rfl)
        rw [after_bind]
        refine (course_connectPending (composite.extends course.extends) (draws.extends course.extends)
          (yields.given z rfl).1 there).mono fun _ c₂ more => after_pure.2 ?_
        exact ⟨course.trans (more.path (draws_path stacked.path course.extends)),
          fun q hq => (waits q hq).extends more.extends⟩
      · exact after_pure.2 ⟨course, waits⟩

theorem course_drain (hsub : Leaves W sub) (way : IsWay sub) (houses : Houses W c) {root : Node} {name : String}
    {fuel : Nat} {stack : List Pending} {found : Option PartId}
    (stacked : ∀ q ∈ stack, Stacked W.catalog c.assembly id g root q) (composite : HasGraph c.assembly id g) :
    After (drain sub id name fuel stack found) (W.at p) c fun _ c' => Course W (.node id g root) p c c' := by
  induction fuel generalizing c stack found with
  | zero =>
      cases stack with
      | nil =>
          rw [drain, after_pure]
          exact .refl _ _ _
      | cons => exact after_outOfFuel
  | succ fuel ih =>
      cases stack with
      | nil =>
          rw [drain, after_pure]
          exact .refl _ _ _
      | cons q stack =>
          obtain ⟨hq, rest⟩ := List.forall_mem_cons.1 stacked
          rw [drain, after_bind]
          refine (course_buildChild_yields hsub way houses hq.node composite).mono ?_
          rintro ⟨part, waiting⟩ c₁ ⟨raises, yields⟩
          have course₁ := raises.1.path hq.path
          have composite₁ := composite.extends course₁.extends
          dsimp only
          rw [after_bind]
          refine (course_followLink hsub way (course₁.houses houses) (hq.extends course₁.extends) composite₁
            fun x given => (yields.given x given).1).mono ?_
          rintro later c₂ ⟨course₂, links⟩
          have course := course₁.trans course₂
          refine (ih (course.houses houses) (fun q' hq' => ?_) (composite.extends course.extends)).mono
            fun _ c₃ more => course.trans more
          rcases List.mem_append.1 hq' with hq' | hq'
          · exact links q' hq'
          · rcases List.mem_append.1 hq' with hq' | hq'
            · exact (raises.stacked hq.node hq.path q' hq').extends course₂.extends
            · exact (rest q' hq').extends course.extends

/-! ## Giving a child -/

theorem leaves_childPartWith (hsub : Leaves W sub) (way : IsWay sub) : Leaves W (childPartWith sub) := by
  intro p id name c houses
  rw [childPartWith, after_asTask, after_bind, after_assembly]
  split
  · exact after_pure.2 fun g _ => .task (.refl _ _ _)
  · next k hk =>
    split
    · exact after_pure.2 fun g _ => .task (.refl _ _ _)
    · split
      · rw [after_bind, after_warn, after_pure]
        exact fun g _ => .task (.message _ (.warning _) (not_isCyclic_of_none rfl))
      · next root hroot =>
        rw [after_bind, after_catalog]
        have only : ∀ q ∈ [(⟨root, none⟩ : Pending)], Stacked W.catalog c.assembly id k.graph root q := by
          intro q hq
          cases List.mem_singleton.1 hq
          exact ⟨(mem_of_node? hroot).1, .refl, fun l hl => by cases hl⟩
        refine (course_drain hsub way (houses.mark (.began _)) only ⟨k, hk, rfl⟩).mono fun _ c₁ course => ?_
        rintro g ⟨k', hk', rfl⟩
        cases hk.symm.trans hk'
        exact .task (.give hroot course)

theorem leaves_childPart (fuel : Nat) : Leaves W (childPart (σ := σ) fuel) := by
  induction fuel with
  | zero => exact fun _ _ _ _ _ => after_outOfFuel
  | succ fuel ih => exact leaves_childPartWith ih (.childPart fuel)

/-- Whatever fuel it takes, to ask for a child leaves a course of the request. -/
theorem leaves_part : Leaves W (part (σ := σ)) := by
  intro p id name c houses
  rw [part, after_bind, after_catalog]
  exact leaves_childPart _ p id name c houses

end MaterialGraph.Build
