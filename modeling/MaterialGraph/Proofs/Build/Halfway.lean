import MaterialGraph.Proofs.Build.Depth

/-!
# Builds that break off

The fuel of a build does not last if building a node leads back to building the same node. What a build has done by then
is made up of whole runs and of what has been begun around them.

* `Advance` : a whole run, a task that is begun, a composite that is added, a free-standing graph that is entered.
* `Halfway` : several of these. A build that breaks off is halfway (`halts_childPart`, `halts_part`).
-/

namespace MaterialGraph.Build

set_option autoImplicit false

open Assembly Relation

variable {σ : Type} {W : Env σ} {c c₁ c' : Context σ} {p : Place} {sub : SubPart σ} {id x y : PartId} {s : Nat}
  {g : Graph}

/-- What a build does that may break off later. -/
inductive Advance (W : Env σ) (c : Context σ) : Context σ → Prop
  | run {ph : Phase} {id : PartId} {s : Nat} {c' : Context σ} (run : Run W ph id s c c') : Advance W c c'
  | works {harvest harvest' : Harvest} {c' : Context σ} (works : Works W harvest c harvest' c') : Advance W c c'
  | began (t : Task) : Advance W c (c.edit (.began t))
  | composite (g : Graph) : Advance W c (c.edit (.add (.composite { graph := g })))
  | starts {g : NodeGraph} {x : PartId} {c' : Context σ} (starts : Starts g c x c') : Advance W c c'

/-- A build that has broken off has come from one context to another. -/
abbrev Halfway (W : Env σ) : Context σ → Context σ → Prop := ReflTransGen (Advance W)

theorem Halfway.after {ph : Phase} (h : Halfway W c₁ c') (run : Run W ph id s c c₁) : Halfway W c c' := .head (.run run) h

/-- If a way to get parts breaks off, it is halfway. -/
def Halts (W : Env σ) (sub : SubPart σ) : Prop :=
  ∀ p id name c, Sturdy W c → Breaks (sub id name) (W.at p) c (Halfway W c)

/-! ## Graphs -/

theorem breaks_buildOutputs (hsub : Sound W sub) (halts : Halts W sub) (sturdy : Sturdy W c)
    (required : List Output) : Breaks (buildOutputs sub id required) (W.at p) c (Halfway W c) := by
  rw [buildOutputs, breaks_total_bind total_assembly, after_assembly]
  split
  · exact (total_pure _).breaks
  · next k _ =>
    dsimp only
    rw [breaks_total_bind (total_remark _), after_remark, breaks_within, breaks_bind]
    refine ⟨breaks_mapM (I := fun c₁ => Run W .asking id c.assembly.size c c₁) (fun o _ c₁ run => ?_)
      (.message c (.remark _ _)), fun _ _ _ => (total_pure _).breaks⟩
    refine ⟨?_, (after_buildOutput hsub).mono fun _ _ built => run.trans built.1⟩
    have begun : Run W .asking id c.assembly.size c
        (c₁.push (.remarked (W.at (p.enter .graph k.graph.filePrefix)).margin (.output o.name (o.nodeName?.getD "")))) :=
      run.trans (.message c₁ (.remark _ _))
    rw [buildOutput, breaks_total_bind (total_remark _), after_remark, breaks_bind]
    refine ⟨(halts _ _ _ _ (sturdy.run begun)).mono fun _ half => half.after begun, fun res c₂ _ => ?_⟩
    cases res with
    | some => exact (total_pure _).breaks
    | none => exact ((total_emit _).bind fun _ => total_pure _).breaks

theorem breaks_buildComposite (hsub : Sound W sub) (halts : Halts W sub) (sturdy : Sturdy W c) (g : Graph)
    (required : List Output) : Breaks (buildComposite sub g required) (W.at p) c (Halfway W c) := by
  rw [buildComposite, addComposite, breaks_total_bind (total_addPart _), after_addPart, breaks_andThen]
  exact ⟨(breaks_buildOutputs hsub halts (sturdy.addComposite g) required).mono fun _ => .head (.composite g),
    fun _ _ _ _ _ => (total_pure _).breaks⟩

theorem breaks_topPart (halts : Halts W sub) (sturdy : Sturdy W c) (n : Node) :
    Breaks (topPart sub n) (W.at p) c (Halfway W c) := by
  rw [topPart, breaks_total_bind total_catalog, after_catalog]
  dsimp only
  rw [breaks_total_bind total_topComposite]
  refine after_topComposite.mono ?_
  rintro t c₁ ⟨-, run⟩
  have run := run .asking 0 0
  rw [breaks_within]
  exact (halts _ t n.name c₁ (sturdy.run run)).mono fun _ half => half.after run

theorem breaks_buildStarted (hsub : Sound W sub) (halts : Halts W sub) (sturdy : Sturdy W c) {h : NodeGraph}
    (starts : Starts h c x c') (required : List Output) :
    Breaks (do
      let outcome ← buildOutputs sub x required
      edit (.freeStanding h.name (.built x))
      pure (outcome.map fun () => x)) (W.at p) c' (Halfway W c) := by
  rw [breaks_bind]
  exact ⟨(breaks_buildOutputs hsub halts (sturdy.starts starts) required).mono fun _ => .head (.starts starts),
    fun _ _ _ => ((total_edit _).bind fun _ => total_pure _).breaks⟩

theorem breaks_freeStandingGraph (hsub : Sound W sub) (halts : Halts W sub) (sturdy : Sturdy W c) (h : NodeGraph)
    (required : List Output) : Breaks (freeStandingGraph sub h required) (W.at p) c (Halfway W c) := by
  rw [freeStandingGraph, breaks_total_bind total_assembly, after_assembly]
  cases known : c.assembly.freeStanding[h.name]? with
  | none =>
      dsimp only
      rw [addComposite, breaks_total_bind (total_addPart _), after_addPart, breaks_total_bind (total_edit _),
        after_edit]
      exact breaks_buildStarted hsub halts sturdy (.first known) required
  | some state =>
      cases state with
      | building => exact (total_pure _).breaks
      | built x =>
          dsimp only
          rw [breaks_total_bind (total_pure _), after_pure, breaks_total_bind (total_edit _), after_edit]
          exact breaks_buildStarted hsub halts sturdy (.again known) required

/-! ## Inputs -/

theorem breaks_connectOutside (hsub : Sound W sub) (halts : Halts W sub) (sturdy : Sturdy W c) (element : Input)
    (y : PartId) (i : Input) : Breaks (connectOutside sub element y i) (W.at p) c (Halfway W c) := by
  rw [connectOutside]
  split
  · exact (total_pure _).breaks
  · split
    · rw [connectGraph, breaks_total_bind total_catalog, after_catalog]
      split
      · exact ((total_emit _).bind fun _ => total_pure _).breaks
      · split
        · exact ((total_emit _).bind fun _ => total_pure _).breaks
        · rw [breaks_bind]
          refine ⟨breaks_freeStandingGraph hsub halts sturdy _ _, ?_⟩
          refine (after_freeStandingGraph hsub).mono ?_
          rintro res c₁ ⟨run, -⟩
          cases res with
          | error e => exact ((total_emit _).bind fun _ => total_pure _).breaks
          | ok x =>
              dsimp only
              rw [breaks_total_bind (total_remark _), after_remark]
              exact (returns_reportConnect (c := c₁.push _) (sturdy.run (run .asking 0 0)).descends x _ y i).breaks
    · rw [connectTopOutput, breaks_total_bind total_catalog, after_catalog]
      split
      · exact (total_pure _).breaks
      · split
        · exact ((total_emit _).bind fun _ => total_pure _).breaks
        · rw [breaks_bind]
          refine ⟨breaks_topPart halts sturdy _, ?_⟩
          refine (after_topPart hsub).mono ?_
          rintro res c₁ ⟨run, -⟩
          cases res with
          | none => exact (total_pure _).breaks
          | some x =>
              dsimp only
              rw [breaks_total_bind (total_remark _), after_remark]
              exact (returns_reportConnect (c := c₁.push _) (sturdy.run (run .asking 0 0)).descends x _ y i).breaks

theorem breaks_bindOutside (hsub : Sound W sub) (halts : Halts W sub) (sturdy : Sturdy W c) {n : Node}
    (element : Input) {i : Input} (given : Given id s c n.name y) :
    Breaks (connectOutside sub element y i >>= fun done =>
      if done = true then pure none else match nonEmpty element.defaultGeomProp with
        | some property => do
          bindGeomProp property y i
          pure none
        | none => do
          bindLiteral element n y i
          pure (none : Option Pending)) (W.at p) c (Halfway W c) := by
  rw [breaks_bind]
  refine ⟨breaks_connectOutside hsub halts sturdy element y i, ?_⟩
  refine (after_connectOutside .giving hsub given.takes).mono fun done c₁ run => Returns.breaks ?_
  have sturdy₁ := sturdy.run run
  split
  · exact rfl
  · split
    · exact returns_bind.2 ⟨returns_bindGeomProp sturdy₁ _ y i, fun _ _ _ => rfl⟩
    · exact returns_bind.2 ⟨returns_bindLiteral sturdy₁.descends _ _ y i, fun _ _ _ => rfl⟩

theorem breaks_resolveInput (hsub : Sound W sub) (halts : Halts W sub) (sturdy : Sturdy W c) {n : Node}
    (hn : g.Has n) {nd : NodeDef} (definition : W.catalog.nodeDefOf? n = some nd) {i : Input}
    (declared : i ∈ nd.inputs) (composite : HasGraph c.assembly id g)
    (there : (c.assembly.child? id n.name).isSome) (given : Given id s c n.name y) :
    Breaks (resolveInput sub id n y i) (W.at p) c (Halfway W c) := by
  obtain ⟨k, hk, rfl⟩ := composite
  rw [resolveInput, breaks_total_bind total_assembly, after_assembly, hk]
  dsimp only
  rw [breaks_total_bind (total_effectiveInput _ _ _ _)]
  refine (after_effectiveInput s ⟨k, hk, rfl⟩ hn there definition declared).mono fun element c₁ run => ?_
  have sturdy₁ := sturdy.run run
  have given₁ := given.run run
  refine Breaks.mono (P := Halfway W c₁) ?_ fun _ half => half.after run
  split
  · rw [bindElement]
    split
    · rw [breaks_bind]
      refine ⟨(returns_connectInside sturdy₁.descends _ _ _ _ _ _ _).breaks, ?_⟩
      have composite₁ : HasGraph c₁.assembly id k.graph := HasGraph.extends ⟨k, hk, rfl⟩ run.steps.extends
      refine (after_connectInside composite₁ given₁).mono ?_
      rintro res c₂ ⟨run₂, -⟩
      cases res with
      | settled | deferred => exact (total_pure _).breaks
      | unsettled =>
          exact (breaks_bindOutside hsub halts (sturdy₁.run run₂) element (given₁.run run₂)).mono fun _ half =>
            half.after run₂
    · rw [breaks_total_bind (total_pure _), after_pure]
      exact breaks_bindOutside hsub halts sturdy₁ element given₁
  · rw [breaks_bind]
    exact ⟨(returns_bindLiteral sturdy₁.descends _ _ y i).breaks, fun _ _ _ => (total_pure _).breaks⟩

theorem breaks_resolveInputs (hsub : Sound W sub) (halts : Halts W sub) (sturdy : Sturdy W c) {n : Node}
    (hn : g.Has n) (composite : HasGraph c.assembly id g) (there : (c.assembly.child? id n.name).isSome)
    (given : Given id s c n.name y) : Breaks (resolveInputs sub id n y) (W.at p) c (Halfway W c) := by
  rw [resolveInputs, breaks_total_bind total_catalog, after_catalog]
  split
  · exact ((total_emit _).bind fun _ => total_pure _).breaks
  · next nd definition =>
    rw [breaks_bind]
    refine ⟨breaks_mapM (I := fun c₁ => Run W .giving id s c c₁) (fun i declared c₁ run => ?_) (.refl _ _ _ _),
      fun _ _ _ => (total_pure _).breaks⟩
    have begun : Run W .giving id s c (c₁.push (.remarked (W.at p).margin (.input i.kind i.name))) :=
      run.trans (.message c₁ (.remark _ _))
    have composite₁ := composite.extends begun.steps.extends
    have there₁ := begun.steps.extends.child there
    have given₁ := given.run begun
    rw [breaks_total_bind (total_remark _), after_remark, breaks_within, after_bind, after_remark, after_within]
    refine ⟨(breaks_resolveInput (c := c₁.push _) hsub halts (sturdy.run begun) hn definition declared composite₁
      there₁ given₁).mono fun _ half => half.after begun, ?_⟩
    exact (after_resolveInput (c := c₁.push _) hsub hn definition declared composite₁ there₁ given₁).mono
      fun _ _ resolves => begun.trans resolves.1

/-! ## Children -/

theorem breaks_buildNode (hsub : Sound W sub) (halts : Halts W sub) (sturdy : Sturdy W c) (n : Node) :
    Breaks (buildNode sub n) (W.at p) c (Halfway W c) := by
  rw [buildNode]
  cases Recipe.of n with
  | error e => exact (total_pure _).breaks
  | ok how =>
      cases how with
      | forward role => exact ((total_addPart _).bind fun _ => total_pure _).breaks
      | create type role settings =>
          exact breaks_andThen.2 ⟨(total_createLeaf _ _ _ _).breaks, fun _ _ _ _ _ =>
            ((total_addPart _).bind fun _ => total_pure _).breaks⟩
      | expand =>
          dsimp only
          rw [breaks_total_bind total_catalog, after_catalog]
          split
          · exact breaks_buildComposite hsub halts sturdy _ _
          · exact (total_pure _).breaks

theorem breaks_buildChild (hsub : Sound W sub) (halts : Halts W sub) (sturdy : Sturdy W c) {n : Node} (hn : g.Has n)
    (composite : HasGraph c.assembly id g) (hs : s ≤ c.assembly.size) :
    Breaks (buildChild sub id n) (W.at p) c (Halfway W c) := by
  rw [buildChild, breaks_total_bind total_assembly, after_assembly]
  split
  · exact (total_pure _).breaks
  · next absent =>
    obtain ⟨k, hk, rfl⟩ := composite
    rw [hk] at absent
    have start : Barren W.renderer c (c.push (.remarked (W.at p).margin (.node n.name n.category))) :=
      .message c (.remark _ _)
    have begun : Run W .giving id s c (c.push (.remarked (W.at p).margin (.node n.name n.category))) := .barren start
    rw [breaks_total_bind (total_remark _), after_remark, breaks_within, breaks_bind]
    refine ⟨(breaks_buildNode (c := c.push _) hsub halts (sturdy.message (.remark _ _)) n).mono fun _ half =>
      half.after begun, ?_⟩
    refine (after_buildNode (c := c.push _) hsub).mono fun res c₁ makes => ?_
    -- a child that is noted breaks off only where its inputs are resolved
    have noted {c₁ : Context σ} {x : PartId} (new : s ≤ x) (there : HasGraph c₁.assembly id k.graph)
        (run : Run W .giving id s c (c₁.edit (.child id n.name x))) :
        Breaks (edit (.child id n.name x) >>= fun _ => resolveInputs sub id n x >>= fun waiting =>
          pure (some x, waiting)) ((W.at p).at ((W.at p).place.enter .node n.filePrefix)) c₁ (Halfway W c) := by
      have child : ((c₁.edit (.child id n.name x)).assembly.child? id n.name).isSome := by
        obtain ⟨k', hk', -⟩ := there
        rw [Context.edit_assembly, child?_child_self hk']
        rfl
      rw [breaks_total_bind (total_edit _), after_edit, breaks_bind]
      exact ⟨(breaks_resolveInputs hsub halts (sturdy.run run) hn (there.extends (.note _ (.child _ _ _))) child
        (given_note there new)).mono fun _ half => half.after run, fun _ _ _ => (total_pure _).breaks⟩
    cases makes with
    | failed barren => exact ((total_reportNode _ _).bind fun _ => total_pure _).breaks
    | @leaf l c₁ makes =>
        refine noted ?_ (HasGraph.extends ⟨k, hk, rfl⟩ makes.extends)
          (begun.trans (.leafChild (c := c.push _) hk hn absent makes))
        rw [makes.assembly]
        exact hs
    | @composite h c₁ recipe implementation inner =>
        have extended : Extends c.assembly c₁.assembly := (Extends.add _ _).trans inner.steps.extends
        exact noted hs (HasGraph.extends ⟨k, hk, rfl⟩ extended)
          (begun.trans (.compositeChild (c := c.push _) hk hn absent recipe implementation inner))

theorem breaks_followLink (hsub : Sound W sub) (halts : Halts W sub) (sturdy : Sturdy W c) {q : Pending}
    (part : Option PartId) (waits : Waits id s g c q) (composite : HasGraph c.assembly id g)
    (hs : s ≤ c.assembly.size) : Breaks (followLink sub id q.consumer part q.link) (W.at p) c (Halfway W c) := by
  cases hlink : q.link with
  | none => exact (total_pure _).breaks
  | some link =>
      obtain ⟨hproducer, -⟩ := waits.link link hlink
      rw [followLink, breaks_bind]
      refine ⟨breaks_buildChild hsub halts sturdy hproducer composite hs, ?_⟩
      refine (after_buildChild hsub hproducer composite hs).mono ?_
      rintro ⟨producing, waiting⟩ c₁ yields
      dsimp only
      split
      · rw [breaks_bind, connectPending, breaks_bind]
        refine ⟨⟨(returns_connectChildren (sturdy.run yields.run).descends _ _ _ _ _ _).breaks, fun res c₂ _ => ?_⟩,
          fun _ _ _ => (total_pure _).breaks⟩
        cases res with
        | ok => exact (total_remark _).breaks
        | error e => exact (total_emit _).breaks
      · exact (total_pure _).breaks

theorem breaks_drain (hsub : Sound W sub) (halts : Halts W sub) {root : String} {steps : Nat} {stack : List Pending}
    (found : Option PartId) (sturdy : Sturdy W c) (waits : ∀ q ∈ stack, Waits id s g c q)
    (composite : HasGraph c.assembly id g) (hs : s ≤ c.assembly.size) :
    Breaks (drain sub id root steps stack found) (W.at p) c (Halfway W c) := by
  induction steps generalizing c stack found with
  | zero =>
      cases stack with
      | nil =>
          rw [drain]
          exact (total_pure _).breaks
      | cons q stack => exact breaks_outOfFuel.2 .refl
  | succ steps ih =>
      cases stack with
      | nil =>
          rw [drain]
          exact (total_pure _).breaks
      | cons q stack =>
          obtain ⟨hq, hstack⟩ := List.forall_mem_cons.1 waits
          rw [drain, breaks_bind]
          refine ⟨breaks_buildChild hsub halts sturdy hq.consumer composite hs, ?_⟩
          refine (after_buildChild hsub hq.consumer composite hs).mono ?_
          rintro ⟨part, waiting⟩ c₁ yields
          have run₁ := yields.run
          have sturdy₁ := sturdy.run run₁
          have hs₁ := Nat.le_trans hs run₁.steps.extends.size
          have composite₁ := composite.extends run₁.steps.extends
          have hq₁ := hq.run run₁
          dsimp only
          rw [breaks_bind]
          refine ⟨(breaks_followLink hsub halts sturdy₁ part hq₁ composite₁ hs₁).mono fun _ half => half.after run₁, ?_⟩
          refine (after_followLink hsub hq₁ yields.given composite₁ hs₁).mono ?_
          rintro later c₂ ⟨run₂, laterWaits⟩
          exact (ih _ (sturdy₁.run run₂) (yields.stack hstack run₂ laterWaits)
            (composite₁.extends run₂.steps.extends) (Nat.le_trans hs₁ run₂.steps.extends.size)).mono
            fun _ half => half.after (run₁.trans run₂)

/-- While a child is being given, its task is begun and not ended. -/
theorem halts_childPartWith (hsub : Sound W sub) (halts : Halts W sub) : Halts W (childPartWith sub) := by
  intro p id name c sturdy
  rw [childPartWith, breaks_asTask, breaks_total_bind total_assembly, after_assembly]
  split
  · exact (total_pure _).breaks
  · next k hk =>
    split
    · exact (total_pure _).breaks
    · split
      · exact ((total_emit _).bind fun _ => total_pure _).breaks
      · next root hroot =>
        obtain ⟨hmem, rfl⟩ := mem_of_node? hroot
        rw [breaks_total_bind total_catalog, after_catalog]
        have waits : Waits id c.assembly.size k.graph (c.edit (.began (.child id root.name))) ⟨root, none⟩ :=
          ⟨hmem, fun l hl => by cases hl⟩
        exact (breaks_drain (c := c.edit _) hsub halts none (sturdy.began _) (List.forall_mem_singleton.2 waits)
          ⟨k, hk, rfl⟩ (Nat.le_refl _)).mono fun _ => .head (.began _)

theorem halts_childPart (fuel : Nat) : Halts W (childPart (σ := σ) fuel) := by
  induction fuel with
  | zero => exact fun _ _ _ _ _ => breaks_outOfFuel.2 .refl
  | succ fuel ih => exact halts_childPartWith (sound_childPart fuel) ih

theorem halts_part : Halts W (part (σ := σ)) := by
  intro p id name c sturdy
  rw [part, breaks_total_bind total_catalog, after_catalog]
  exact halts_childPart _ p id name c sturdy

end MaterialGraph.Build
