import MaterialGraph.Proofs.Build.Effort

/-!
# Builds that come to an end

A way to get parts `Answers` with some fuel if it returns whenever the effort of what it is asked for is smaller. With
one more unit of fuel, `childPartWith` answers as well (`answers_childPartWith`): all that it asks for takes less effort
than what it is asked for itself, and its stack never holds more than one entry for each declared input of a node that
is not built yet.
-/

namespace MaterialGraph.Build

set_option autoImplicit false

open Assembly Relation

variable {σ : Type} {W : Env σ} {c c' : Context σ} {p : Place} {sub : SubPart σ} {fuel : Nat} {ph : Phase}
  {id x y : PartId} {s : Nat} {g : Graph}

/-! ## The top level in a run -/

theorem Extends.ahead {a a' : Assembly} (h : Extends a a') (busy : ∀ {graph}, a.Busy graph → a'.Busy graph) :
    Ahead a a' where
  busy := busy
  made made := by
    obtain ⟨x, found⟩ := Option.isSome_iff_exists.1 made
    obtain ⟨t, top, child⟩ := Option.bind_eq_some_iff.1 found
    rw [Made, h.top top]
    exact h.child (by rw [child]; rfl)

theorem Run.ahead (h : Run W ph id s c c') : Ahead c.assembly c'.assembly :=
  h.steps.extends.ahead fun ⟨x, known⟩ => ⟨x, h.freeStanding known⟩

theorem Barren.top (h : Barren W.renderer c c') : c'.assembly.top = c.assembly.top := by
  induction h with
  | refl => rfl
  | trans _ _ ih₁ ih₂ => exact ih₂.trans ih₁
  | message => rfl
  | task _ ih => exact ih
  | failed _ creation => rw [creation.assembly]
  | composite => rfl

theorem HasGraph.lt_size {a : Assembly} (h : HasGraph a id g) : id < a.size :=
  let ⟨_, composite, _⟩ := h
  lt_size_of_composite? composite

theorem hasGraph_added (g : Graph) :
    HasGraph (c.edit (.add (.composite { graph := g }))).assembly c.assembly.size g := by
  refine ⟨{ graph := g }, ?_, rfl⟩
  rw [Context.edit_assembly, composite?_add_composite, if_pos rfl]

/-- The composite of the top level is noted once, and it is new then. -/
theorem Run.top_origin (h : Run W ph id s c c') {t : PartId} (top : c'.assembly.top = some t) :
    c.assembly.top = some t ∨
      c.assembly.size ≤ t ∧ HasGraph c'.assembly t (.document W.catalog.document) := by
  induction h with
  | refl | message | socket => exact .inl top
  | trans first second ih₁ ih₂ =>
      rcases ih₂ top with top | ⟨new, there⟩
      · refine (ih₁ top).imp_right fun ⟨new, there⟩ => ⟨new, there.extends second.steps.extends⟩
      · exact .inr ⟨Nat.le_trans first.steps.extends.size new, there⟩
  | barren barren => exact .inl (barren.top ▸ top)
  | task _ _ ih | viaTop _ _ _ ih => exact ih top
  | leafChild _ _ _ makes =>
      refine .inl (Eq.trans ?_ top)
      rw [← makes.assembly]
      rfl
  | @compositeChild _ _ c c₁ _ _ g _ _ _ _ _ inner ih =>
      refine (ih top).imp_right fun ⟨new, there⟩ => ⟨?_, there.extends (.note _ (.child _ _ _))⟩
      rw [Context.edit_assembly, size_add] at new
      exact Nat.le_of_succ_le new
  | literal _ binds => exact .inl (binds.rebinds.top ▸ top)
  | inside _ _ _ _ connects => exact .inl (connects.rebinds.top ▸ top)
  | insideFailed _ _ _ _ connects => exact .inl (connects.rebinds.top ▸ top)
  | geometry _ creation =>
      refine .inl (Eq.trans ?_ top)
      rw [← creation.assembly]
      rfl
  | top =>
      cases top
      exact .inr ⟨Nat.le_refl _, hasGraph_added _⟩
  | viaGraph starts _ ih =>
      refine (ih top).imp (fun top => ?_) fun ⟨new, there⟩ => ⟨?_, there⟩
      · cases starts <;> exact top
      · exact Nat.le_trans (Starts.steps (r := W.renderer) starts).extends.size new
  | outside _ _ connects => exact .inl (connects.rebinds.top ▸ top)

/-- A context is orderly, and the composite of the top level stands for the document. -/
structure Sturdy (W : Env σ) (c : Context σ) : Prop where
  orderly : Orderly c
  top : ∀ {t}, c.assembly.top = some t → HasGraph c.assembly t (.document W.catalog.document)

namespace Sturdy

theorem descends (h : Sturdy W c) : Descends c.assembly := h.orderly.forest.descends

theorem start (s : σ) : Sturdy W ({ system := s } : Context σ) := ⟨.start s, nofun⟩

theorem run (h : Sturdy W c) (run : Run W ph id s c c') : Sturdy W c' where
  orderly := (run.grows h.orderly).orderly
  top top := by
    rcases run.top_origin top with top | ⟨-, there⟩
    · exact (h.top top).extends run.steps.extends
    · exact there

theorem message {e : Event} (h : Sturdy W c) (message : IsMessage e) : Sturdy W (c.push e) :=
  have run : Run W .asking 0 0 c (c.push e) := .message c message
  h.run run

theorem mark {e : Edit} (h : Sturdy W c) (mark : IsMark e) : Sturdy W (c.edit e) :=
  ⟨(Grows.mark h.orderly mark 0).orderly, by cases mark <;> exact h.top⟩

theorem began (h : Sturdy W c) (t : Task) : Sturdy W (c.edit (.began t)) := h.mark (.began t)

theorem addComposite (h : Sturdy W c) (g : Graph) : Sturdy W (c.edit (.add (.composite { graph := g }))) where
  orderly := (Grows.addComposite h.orderly g 0).orderly
  top top := (h.top top).extends (.add _ _)

theorem starts {h : NodeGraph} (sturdy : Sturdy W c) (starts : Starts h c x c') : Sturdy W c' where
  orderly := (starts.grows sturdy.orderly).1.orderly
  top top := by
    refine (sturdy.top ?_).extends (Starts.steps (r := W.renderer) starts).extends
    cases starts <;> exact top

end Sturdy

/-! ## Answers -/

/-- The site from which a composite builds a child: a node of the top level, or else the graph of the composite. -/
def Serves (c : Context σ) (id : PartId) (name : String) (t : Site) : Prop :=
  ∀ k, c.assembly.composite? id = some k →
    if c.assembly.top = some id then ∀ n, k.graph.node? name = some n → t = .node n else t = .graph k.graph

/-- A way to get parts returns whenever the effort is smaller than its fuel. -/
def Answers (W : Env σ) (fuel : Nat) (sub : SubPart σ) : Prop :=
  ∀ p id name c t, Sturdy W c → Serves c id name t → effort W.catalog c.assembly t < fuel →
    Returns (sub id name) (W.at p) c

/-- There is fuel to build any child of a composite. -/
def Room (W : Env σ) (fuel : Nat) (c : Context σ) (id : PartId) : Prop :=
  ∀ name, ∃ t, Serves c id name t ∧ effort W.catalog c.assembly t < fuel

theorem Room.of_all (h : ∀ t, effort W.catalog c.assembly t < fuel) (id : PartId) : Room W fuel c id := by
  intro name
  cases there : c.assembly.composite? id with
  | none =>
      refine ⟨.graph (.document W.catalog.document), fun k hk => ?_, h _⟩
      cases there.symm.trans hk
  | some k =>
      by_cases top : c.assembly.top = some id
      · cases node : k.graph.node? name with
        | none =>
            refine ⟨.graph (.document W.catalog.document), fun k' hk => ?_, h _⟩
            cases there.symm.trans hk
            rw [if_pos top, node]
            rintro _ ⟨⟩
        | some n =>
            refine ⟨.node n, fun k' hk => ?_, h _⟩
            cases there.symm.trans hk
            rw [if_pos top, node]
            rintro _ ⟨⟩
            rfl
      · refine ⟨.graph k.graph, fun k' hk => ?_, h _⟩
        cases there.symm.trans hk
        rw [if_neg top]

theorem Room.run (room : Room W fuel c id) (there : HasGraph c.assembly id g) {ph : Phase} {j : PartId}
    (run : Run W ph j s c c') : Room W fuel c' id := by
  intro name
  obtain ⟨t, serves, enough⟩ := room name
  refine ⟨t, fun k hk => ?_, Nat.lt_of_le_of_lt (effort_le run.ahead t) enough⟩
  obtain ⟨k₀, hk₀, -⟩ := there
  obtain ⟨k₁, hk₁, same⟩ := run.steps.extends.composite hk₀
  rw [hk] at hk₁
  cases hk₁
  have serves := serves k₀ hk₀
  by_cases top : c.assembly.top = some id
  · rw [if_pos top] at serves
    rw [if_pos (run.steps.extends.top top), same]
    exact serves
  · have top' : c'.assembly.top ≠ some id := fun h =>
      (run.top_origin h).elim top fun new => Nat.not_le.2 (lt_size_of_composite? hk₀) new.1
    rw [if_neg top] at serves
    rw [if_neg top', same]
    exact serves

/-- A composite that has just been added is not the one of the top level. -/
theorem Room.added (sturdy : Sturdy W c) (h : effort W.catalog c.assembly (.graph g) < fuel) :
    Room W fuel (c.edit (.add (.composite { graph := g }))) c.assembly.size := by
  refine fun name => ⟨.graph g, fun k hk => ?_, Nat.lt_of_le_of_lt (effort_le ?_ _) h⟩
  · have fresh : (c.edit (.add (.composite { graph := g }))).assembly.top ≠ some c.assembly.size :=
      fun top => Nat.lt_irrefl _ (sturdy.top top).lt_size
    rw [if_neg fresh]
    rw [Context.edit_assembly, composite?_add_composite, if_pos rfl] at hk
    cases hk
    rfl
  · exact (Extends.add _ _).ahead fun busy => busy

/-! ## Connections -/

theorem returns_connect (descends : Descends c.assembly) (x : PartId) (output : Option String) (y : PartId)
    (i : Input) : Returns (connect x output y i) (W.at p) c := by
  have descends' : Descends (c.edit (.began (.connection x output y i))).assembly := descends
  rw [connect, returns_asTask]
  refine (returns_outputHandle descends' x output).andThen after_outputHandle ?_
  rintro h c₁ ⟨rfl, -⟩
  exact returns_bindInput descends' y i _

theorem returns_connectChildren (descends : Descends c.assembly) (id : PartId) (e : Edge) (x : PartId)
    (output : Option String) (y : PartId) (i : Input) : Returns (connectChildren id e x output y i) (W.at p) c := by
  have closes : After (closesCycle id e) (W.at p) c fun _ c' => c' = c := by
    rw [closesCycle, after_bind, after_assembly]
    split <;> exact after_pure.2 rfl
  have looks : Returns (closesCycle id e) (W.at p) c := by
    rw [closesCycle, returns_total_bind total_assembly, after_assembly]
    split <;> exact rfl
  rw [connectChildren]
  refine looks.bind closes ?_
  rintro cycle _ rfl
  split
  · exact rfl
  · exact (returns_connect descends x output y i).andThen (fun _ _ _ => trivial) fun _ _ _ =>
      (total_edit _).bind (fun _ => total_pure _) _ _

theorem returns_reportConnect (descends : Descends c.assembly) (x : PartId) (output : Option String) (y : PartId)
    (i : Input) : Returns (reportConnect x output y i) (W.at p) c := by
  rw [reportConnect, returns_bind]
  refine ⟨returns_connect descends x output y i, fun res c₁ _ => ?_⟩
  cases res with
  | ok => exact rfl
  | error e => exact (total_emit _).bind (fun _ => total_pure _) _ _

/-! ## Graphs -/

theorem returns_buildOutputs (hsub : Sound W sub) (answers : Answers W fuel sub) (sturdy : Sturdy W c)
    (room : Room W fuel c id) (required : List Output) : Returns (buildOutputs sub id required) (W.at p) c := by
  rw [buildOutputs, returns_total_bind total_assembly, after_assembly]
  split
  · exact rfl
  · next k hk =>
    dsimp only
    rw [returns_total_bind (total_remark _), after_remark, returns_within, returns_bind]
    refine ⟨returns_mapM (I := fun c₁ => Run W .asking id c.assembly.size c c₁) (fun o _ c₁ run => ?_)
      (.message c (.remark _ _)), fun _ _ _ => rfl⟩
    refine ⟨?_, (after_buildOutput hsub).mono fun _ _ built => run.trans built.1⟩
    have begun : Run W .asking id c.assembly.size c
        (c₁.push (.remarked (W.at (p.enter .graph k.graph.filePrefix)).margin (.output o.name (o.nodeName?.getD "")))) :=
      run.trans (.message c₁ (.remark _ _))
    obtain ⟨t, serves, enough⟩ := room.run ⟨k, hk, rfl⟩ begun (o.nodeName?.getD "")
    rw [buildOutput, returns_total_bind (total_remark _), after_remark, returns_bind]
    refine ⟨answers _ _ _ _ t (sturdy.run begun) serves enough, fun res c₂ _ => ?_⟩
    cases res with
    | some => exact rfl
    | none => exact (total_emit _).bind (fun _ => total_pure _) _ _

theorem returns_buildComposite (hsub : Sound W sub) (answers : Answers W fuel sub) (sturdy : Sturdy W c)
    (enough : effort W.catalog c.assembly (.graph g) < fuel) (required : List Output) :
    Returns (buildComposite sub g required) (W.at p) c := by
  rw [buildComposite, addComposite, returns_total_bind (total_addPart _), after_addPart]
  exact (returns_buildOutputs hsub answers (sturdy.addComposite g) (.added sturdy enough) required).andThen
    (fun _ _ _ => trivial) fun _ _ _ => rfl

theorem total_topComposite : Total (topComposite : Build σ PartId) := by
  refine total_assembly.bind fun a => ?_
  split
  · exact total_pure _
  · exact total_catalog.bind fun _ => (total_addPart _).bind fun _ => (total_edit _).bind fun _ => total_pure _

theorem returns_topPart (answers : Answers W fuel sub) (sturdy : Sturdy W c) {n : Node}
    (node : W.catalog.document.node? n.name = some n) (enough : effort W.catalog c.assembly (.node n) < fuel) :
    Returns (topPart sub n) (W.at p) c := by
  rw [topPart, returns_total_bind total_catalog, after_catalog]
  dsimp only
  rw [returns_total_bind total_topComposite]
  refine after_topComposite.mono ?_
  rintro t c₁ ⟨top, run⟩
  have run := run .asking 0 0
  have sturdy₁ := sturdy.run run
  rw [returns_within]
  refine answers _ t n.name c₁ (.node n) sturdy₁ (fun k hk => ?_) (Nat.lt_of_le_of_lt (effort_le run.ahead _) enough)
  obtain ⟨k', hk', same⟩ := sturdy₁.top top
  rw [hk] at hk'
  cases hk'
  rw [if_pos top, same]
  intro m hm
  rw [← Option.some.inj (node.symm.trans hm)]

/-- A free-standing graph that is entered is under way from then on. -/
theorem Starts.effort_lt {h : NodeGraph} (starts : Starts h c x c') (graph : h ∈ W.catalog.document.nodeGraphs)
    (t u : Site) : effort W.catalog c'.assembly u < effort W.catalog c.assembly t := by
  have entered : c'.assembly.Busy h.name := by
    cases starts <;> exact ⟨_, Std.TreeMap.getElem?_insert_self⟩
  have resting : ¬ c.assembly.Busy h.name := by
    rintro ⟨z, busy⟩
    cases starts with
    | first absent =>
        rw [absent] at busy
        cases busy
    | again built =>
        rw [built] at busy
        cases busy
  refine effort_lt_of_entered ((Starts.steps (r := W.renderer) starts).extends.ahead ?_) graph resting entered t u
  rintro name ⟨z, busy⟩
  have other : h.name ≠ name := by
    rintro rfl
    exact resting ⟨z, busy⟩
  refine ⟨z, ?_⟩
  cases starts <;> exact (getElem?_insert_of_ne other).trans busy

theorem Starts.room {h : NodeGraph} (starts : Starts h c x c') (graph : h ∈ W.catalog.document.nodeGraphs)
    {t : Site} (enough : effort W.catalog c.assembly t ≤ fuel) : Room W fuel c' x :=
  .of_all (fun u => Nat.lt_of_lt_of_le (starts.effort_lt graph t u) enough) x

theorem returns_buildStarted (hsub : Sound W sub) (answers : Answers W fuel sub) (sturdy : Sturdy W c)
    {h : NodeGraph} (starts : Starts h c x c') (room : Room W fuel c' x) (required : List Output) :
    Returns (do
      let outcome ← buildOutputs sub x required
      edit (.freeStanding h.name (.built x))
      pure (outcome.map fun () => x)) (W.at p) c' := by
  rw [returns_bind]
  exact ⟨returns_buildOutputs hsub answers (sturdy.starts starts) room required, fun _ _ _ =>
    (total_edit _).bind (fun _ => total_pure _) _ _⟩

theorem returns_freeStandingGraph (hsub : Sound W sub) (answers : Answers W fuel sub) (sturdy : Sturdy W c)
    {h : NodeGraph} (room : ∀ x c', Starts h c x c' → Room W fuel c' x) (required : List Output) :
    Returns (freeStandingGraph sub h required) (W.at p) c := by
  rw [freeStandingGraph, returns_total_bind total_assembly, after_assembly]
  cases known : c.assembly.freeStanding[h.name]? with
  | none =>
      dsimp only
      rw [addComposite, returns_total_bind (total_addPart _), after_addPart, returns_total_bind (total_edit _),
        after_edit]
      exact returns_buildStarted hsub answers sturdy (.first known) (room _ _ (.first known)) required
  | some state =>
      cases state with
      | building => exact rfl
      | built x =>
          dsimp only
          rw [returns_total_bind (total_pure _), after_pure, returns_total_bind (total_edit _), after_edit]
          exact returns_buildStarted hsub answers sturdy (.again known) (room _ _ (.again known)) required

theorem total_noteGeometry {g : GeomPropDef} {m : Build σ (Result Leaf)} (hm : Total m) :
    Total (m >>= fun leaf => match leaf with
      | .error e => do
        warn (.geomProp g.name e)
        pure none
      | .ok l => do
        let id ← addPart (.leaf l)
        edit (.geometry g.name id)
        pure (some id)) := by
  refine hm.bind fun res => ?_
  cases res with
  | error e => exact (total_emit _).bind fun _ => total_pure _
  | ok l => exact (total_addPart _).bind fun _ => (total_edit _).bind fun _ => total_pure _

theorem total_geomPart (g : GeomPropDef) : Total (geomPart g : Build σ (Option PartId)) := by
  refine total_assembly.bind fun a => ?_
  split
  · exact total_pure _
  · dsimp only
    split
    · refine (total_emit _).bind fun _ => ?_
      split
      · exact total_noteGeometry (total_pure _)
      · exact total_noteGeometry (total_createLeaf _ _ _ _)
    · split
      · exact total_noteGeometry (total_pure _)
      · exact total_noteGeometry (total_createLeaf _ _ _ _)

end MaterialGraph.Build
