import MaterialGraph.Proofs.Build.Answers

/-!
# Inputs come to an end

To resolve the inputs of a child returns if the graph of its composite takes no more effort than there is fuel
(`returns_resolveInputs`): what an input takes from outside takes less (`effort_lt_of_takes`).
-/

namespace MaterialGraph.Build

set_option autoImplicit false

open Assembly Relation

variable {σ : Type} {W : Env σ} {c c' : Context σ} {p : Place} {sub : SubPart σ} {fuel : Nat} {ph : Phase}
  {id x y : PartId} {s : Nat} {g : Graph}

/-! ## Inputs -/

theorem returns_bindLiteral (descends : Descends c.assembly) (element : Input) (n : Node) (y : PartId) (i : Input) :
    Returns (bindLiteral element n y i) (W.at p) c := by
  rw [bindLiteral]
  split
  · exact rfl
  · rw [returns_total_bind (total_remark _), after_remark, returns_bind]
    refine ⟨returns_bindInput (c := c.push _) descends y i _, fun res c₁ _ => ?_⟩
    cases res with
    | ok => exact rfl
    | error e =>
        dsimp only
        split
        · exact total_remark _ _ _
        · exact total_emit _ _ _

theorem returns_bindGeomProp (sturdy : Sturdy W c) (property : String) (y : PartId) (i : Input) :
    Returns (bindGeomProp property y i) (W.at p) c := by
  rw [bindGeomProp, returns_total_bind total_catalog, after_catalog]
  split
  · exact rfl
  · next g _ =>
    rw [returns_total_bind (total_geomPart g)]
    refine after_geomPart.mono ?_
    rintro res c₁ ⟨run, -⟩
    cases res with
    | none => exact rfl
    | some x =>
        dsimp only
        rw [returns_bind]
        refine ⟨returns_connect (sturdy.run (run .asking 0 0)).descends x none y i, fun res c₂ _ => ?_⟩
        cases res with
        | ok => exact rfl
        | error e =>
            dsimp only
            split
            · exact total_remark _ _ _
            · exact total_emit _ _ _

/-- To connect an input to an output of another graph comes to an end, if there is fuel for the node that produces an
output of the top level and fuel left for free-standing graphs. -/
theorem returns_connectOutside (hsub : Sound W sub) (answers : Answers W fuel sub) (sturdy : Sturdy W c)
    {element : Input} {t : Site} (enough : effort W.catalog c.assembly t ≤ fuel)
    (takes : ∀ output o n nd, element.output? = some output → nonEmpty element.nodeGraph = none →
      topProducer? W.catalog output = some (o, n, nd) → effort W.catalog c.assembly (.node n) < fuel)
    (y : PartId) (i : Input) : Returns (connectOutside sub element y i) (W.at p) c := by
  rw [connectOutside]
  split
  · exact rfl
  · next output named =>
    split
    · next graph _ =>
      rw [connectGraph, returns_total_bind total_catalog, after_catalog]
      split
      · exact rfl
      · next h there =>
        split
        · exact rfl
        · rw [returns_bind]
          refine ⟨returns_freeStandingGraph hsub answers sturdy (fun x c₁ starts =>
            starts.room (Catalog.mem_of_nodeGraph? there).1 enough) _, ?_⟩
          refine (after_freeStandingGraph hsub).mono ?_
          rintro res c₁ ⟨run, -⟩
          cases res with
          | error e => exact rfl
          | ok x =>
              dsimp only
              rw [returns_total_bind (total_remark _), after_remark]
              exact returns_reportConnect (c := c₁.push _) (sturdy.run (run .asking 0 0)).descends x _ y i
    · next top =>
      rw [connectTopOutput, returns_total_bind total_catalog, after_catalog]
      split
      · exact rfl
      · next o n nd produces =>
        split
        · exact rfl
        · rw [returns_bind]
          refine ⟨returns_topPart answers sturdy (Catalog.node?_of_topProducer? produces)
            (takes output o n nd named top produces), ?_⟩
          refine (after_topPart hsub).mono ?_
          rintro res c₁ ⟨run, -⟩
          cases res with
          | none => exact rfl
          | some x =>
              dsimp only
              rw [returns_total_bind (total_remark _), after_remark]
              exact returns_reportConnect (c := c₁.push _) (sturdy.run (run .asking 0 0)).descends x _ y i

theorem returns_connectInside (descends : Descends c.assembly) (id : PartId) (g : Graph) (consumer : Node)
    (y : PartId) (i element : Input) (name : String) :
    Returns (connectInside id g consumer y i element name) (W.at p) c := by
  rw [connectInside, returns_total_bind (total_remark _), after_remark]
  split
  · exact rfl
  · rw [returns_total_bind total_catalog, after_catalog]
    dsimp only
    split
    · exact rfl
    · rw [returns_total_bind total_assembly, after_assembly]
      split
      · exact rfl
      · rw [returns_bind]
        refine ⟨returns_connectChildren (c := c.push _) descends _ _ _ _ _ _, fun res c₁ _ => ?_⟩
        cases res with
        | ok => exact rfl
        | error e =>
            dsimp only
            split <;> exact rfl

/-- What a node of a graph takes from outside takes less effort than the graph. -/
theorem effort_lt_of_takes (acyclic : ∀ t, ¬ TransGen W.catalog.Leads t t) {n : Node} (hn : n ∈ g.nodes)
    {nd : NodeDef} (definition : W.catalog.nodeDefOf? n = some nd) {i : Input} (declared : i ∈ nd.inputs)
    (enough : effort W.catalog c.assembly (.graph g) ≤ fuel) (output : String) (o : Output) (producer : Node)
    (pd : NodeDef) (named : (W.catalog.elementOf g n i).output? = some output)
    (top : nonEmpty (W.catalog.elementOf g n i).nodeGraph = none)
    (produces : topProducer? W.catalog output = some (o, producer, pd)) :
    effort W.catalog c.assembly (.node producer) < fuel :=
  Nat.lt_of_lt_of_le (effort_lt_of_leads (.refl _) (acyclic _) (.takes hn definition declared named top produces))
    enough

theorem returns_bindOutside (hsub : Sound W sub) (answers : Answers W fuel sub) (sturdy : Sturdy W c) {n : Node}
    {element : Input} {t : Site} (enough : effort W.catalog c.assembly t ≤ fuel)
    (takes : ∀ output o n nd, element.output? = some output → nonEmpty element.nodeGraph = none →
      topProducer? W.catalog output = some (o, n, nd) → effort W.catalog c.assembly (.node n) < fuel)
    {i : Input} (given : Given id s c n.name y) :
    Returns (connectOutside sub element y i >>= fun done =>
      if done = true then pure none else match nonEmpty element.defaultGeomProp with
        | some property => do
          bindGeomProp property y i
          pure none
        | none => do
          bindLiteral element n y i
          pure (none : Option Pending)) (W.at p) c := by
  rw [returns_bind]
  refine ⟨returns_connectOutside hsub answers sturdy enough takes y i, ?_⟩
  refine (after_connectOutside .giving hsub given.takes).mono fun done c₁ run => ?_
  have sturdy₁ := sturdy.run run
  split
  · exact rfl
  · split
    · rw [returns_bind]
      exact ⟨returns_bindGeomProp sturdy₁ _ y i, fun _ _ _ => rfl⟩
    · rw [returns_bind]
      exact ⟨returns_bindLiteral sturdy₁.descends _ _ y i, fun _ _ _ => rfl⟩

theorem after_effectiveInput_eq {n : Node} {i : Input} :
    After (effectiveInput id g n i) (W.at p) c fun element _ => element = W.catalog.elementOf g n i := by
  refine reads_effectiveInput.mono fun element _ reads => ?_
  unfold Catalog.elementOf
  cases reads with
  | declared absent => rw [absent]
  | given named own =>
      rw [named]
      dsimp only
      rw [own]
  | interface named refers =>
      rw [named]
      dsimp only
      rw [refers]
      rfl

theorem total_effectiveInput (id : PartId) (g : Graph) (n : Node) (i : Input) :
    Total (effectiveInput id g n i : Build σ Input) := by
  rw [effectiveInput]
  split
  · exact total_pure _
  · split
    · exact total_pure _
    · exact (total_edit _).bind fun _ => total_catalog.bind fun _ => total_pure _

theorem returns_resolveInput (acyclic : ∀ t, ¬ TransGen W.catalog.Leads t t) (hsub : Sound W sub)
    (answers : Answers W fuel sub) (sturdy : Sturdy W c) {n : Node} (hn : g.Has n) {nd : NodeDef}
    (definition : W.catalog.nodeDefOf? n = some nd) {i : Input} (declared : i ∈ nd.inputs)
    (composite : HasGraph c.assembly id g) (there : (c.assembly.child? id n.name).isSome)
    (given : Given id s c n.name y) (enough : effort W.catalog c.assembly (.graph g) ≤ fuel) :
    Returns (resolveInput sub id n y i) (W.at p) c := by
  obtain ⟨k, hk, rfl⟩ := composite
  rw [resolveInput, returns_total_bind total_assembly, after_assembly, hk]
  dsimp only
  rw [returns_total_bind (total_effectiveInput _ _ _ _)]
  refine ((after_effectiveInput s ⟨k, hk, rfl⟩ hn there definition declared).and after_effectiveInput_eq).mono ?_
  rintro _ c₁ ⟨run, rfl⟩
  have sturdy₁ := sturdy.run run
  have enough₁ := (effort_le (c := W.catalog) run.ahead (.graph k.graph)).trans enough
  have given₁ := given.run run
  split
  · rw [bindElement]
    split
    · rw [returns_bind]
      refine ⟨returns_connectInside sturdy₁.descends _ _ _ _ _ _ _, ?_⟩
      have composite₁ : HasGraph c₁.assembly id k.graph := HasGraph.extends ⟨k, hk, rfl⟩ run.steps.extends
      refine (after_connectInside composite₁ given₁).mono ?_
      rintro res c₂ ⟨run₂, -⟩
      cases res with
      | settled | deferred => exact rfl
      | unsettled =>
          have enough₂ := (effort_le (c := W.catalog) run₂.ahead (.graph k.graph)).trans enough₁
          refine returns_bindOutside hsub answers (sturdy₁.run run₂) enough₂
            (effort_lt_of_takes acyclic hn.mem definition declared enough₂) (given₁.run run₂)
    · rw [returns_total_bind (total_pure _), after_pure]
      exact returns_bindOutside hsub answers sturdy₁ enough₁
        (effort_lt_of_takes acyclic hn.mem definition declared enough₁) given₁
  · rw [returns_bind]
    exact ⟨returns_bindLiteral sturdy₁.descends _ _ y i, fun _ _ _ => rfl⟩

theorem returns_resolveInputs (acyclic : ∀ t, ¬ TransGen W.catalog.Leads t t) (hsub : Sound W sub)
    (answers : Answers W fuel sub) (sturdy : Sturdy W c) {n : Node} (hn : g.Has n)
    (composite : HasGraph c.assembly id g) (there : (c.assembly.child? id n.name).isSome)
    (given : Given id s c n.name y) (enough : effort W.catalog c.assembly (.graph g) ≤ fuel) :
    Returns (resolveInputs sub id n y) (W.at p) c := by
  rw [resolveInputs, returns_total_bind total_catalog, after_catalog]
  split
  · exact rfl
  · next nd definition =>
    rw [returns_bind]
    refine ⟨returns_mapM (I := fun c₁ => Run W .giving id s c c₁) (fun i declared c₁ run => ?_) (.refl _ _ _ _),
      fun _ _ _ => rfl⟩
    have begun : Run W .giving id s c (c₁.push (.remarked (W.at p).margin (.input i.kind i.name))) :=
      run.trans (.message c₁ (.remark _ _))
    have composite₁ := composite.extends begun.steps.extends
    have there₁ := begun.steps.extends.child there
    have given₁ := given.run begun
    rw [returns_total_bind (total_remark _), after_remark, returns_within, after_bind, after_remark, after_within]
    refine ⟨returns_resolveInput (c := c₁.push _) acyclic hsub answers (sturdy.run begun) hn definition declared
      composite₁ there₁ given₁ ((effort_le begun.ahead _).trans enough), ?_⟩
    exact (after_resolveInput (c := c₁.push _) hsub hn definition declared composite₁ there₁ given₁).mono fun _ _ resolves =>
      begun.trans resolves.1

end MaterialGraph.Build
