import MaterialGraph.Proofs.Build.Depth
import MaterialGraph.Proofs.Handover
import MaterialGraph.Renderer.Recorder

/-!
# Loads come to an end

Whatever a renderer answers, a load comes to an end if no site of the documents leads back to itself (`load_returns`).
It does not matter how nodes of a graph refer to each other, nor how free-standing graphs do, since both are noted
before what they need is built. A node of the top level that is expanded is noted only after it has been expanded: if
its graph takes its own output, it is built again below itself without an end (`reentered_never_returns`).
-/

namespace MaterialGraph

set_option autoImplicit false

open Build Assembly Relation

variable {σ : Type} {W : Env σ} {c c' : Context σ} {p : Place}

namespace Build

/-! ## Groups -/

theorem Sturdy.works {harvest harvest' : Harvest} (sturdy : Sturdy W c) (h : Works W harvest c harvest' c') :
    Sturdy W c' := by
  induction h with
  | refl | more | root => exact sturdy
  | trans _ _ ih₁ ih₂ => exact ih₂ (ih₁ sturdy)
  | mark _ _ mark => exact sturdy.mark mark
  | inside _ _ run => exact sturdy.run run
  | elsewhere _ run => exact sturdy.run (run .asking 0 0)
  | own _ inner => exact (sturdy.addComposite _).run inner
  | @wrap harvest c c₁ x h l holds creation =>
      refine ⟨((Works.wrap harvest holds creation).grows sturdy.orderly).orderly, fun {t} top => ?_⟩
      rw [Context.edit_assembly, creation.assembly] at top ⊢
      exact (sturdy.top top).extends (.add _ _)
  | wrapFailed harvest holds creation =>
      refine ⟨((Works.wrapFailed harvest holds creation).grows sturdy.orderly).orderly, fun {t} top => ?_⟩
      rw [creation.assembly] at top ⊢
      exact sturdy.top top

theorem Adds.sturdy {id : PartId} {added : List PartId} (h : Adds W id c added c') (sturdy : Sturdy W c) :
    Sturdy W c' :=
  sturdy.works (h { parts := [id] } ⟨id, List.mem_append_left _ (List.mem_singleton_self _), .refl⟩)

variable (acyclic : ∀ t, ¬ TransGen W.catalog.Leads t t)

include acyclic

theorem returns_part (sturdy : Sturdy W c) (id : PartId) (name : String) : Returns (part id name) (W.at p) c :=
  let ⟨t, serves, enough⟩ := Room.of_all (effort_lt_depthBound W.catalog c.assembly) id name
  answers_part acyclic p id name c t sturdy serves enough

theorem returns_groupComposite (sturdy : Sturdy W c) (g : Group) : Returns (groupComposite g) (W.at p) c := by
  have answers := answers_part acyclic
  rw [groupComposite]
  split
  · exact returns_buildComposite sound_part answers sturdy (effort_lt_depthBound _ _ _) _
  · rw [returns_total_bind total_topComposite]
    refine after_topComposite.mono ?_
    rintro t c₁ ⟨-, run⟩
    exact (returns_buildOutputs sound_part answers (sturdy.run (run .asking 0 0))
      (.of_all (effort_lt_depthBound _ _) t) _).andThen (fun _ _ _ => trivial) fun _ _ _ => rfl
  · exact returns_freeStandingGraph sound_part answers sturdy
      (fun x c₁ _ => .of_all (effort_lt_depthBound _ _) x) _

omit acyclic in
theorem after_groupComposite_sturdy (sturdy : Sturdy W c) (g : Group) :
    After (groupComposite g) (W.at p) c fun _ c' => Sturdy W c' := by
  rw [groupComposite]
  split
  · exact after_buildComposite_run.mono fun _ _ built => (sturdy.addComposite _).run built.1
  · rw [after_bind]
    refine after_topComposite.mono ?_
    rintro t c₁ ⟨-, run⟩
    have sturdy₁ := sturdy.run (run .asking 0 0)
    rw [after_andThen]
    refine (after_buildOutputs (s := 0) sound_part).mono ?_
    rintro res c₂ ⟨run₂, -⟩
    exact ⟨fun _ _ => after_pure.2 (sturdy₁.run run₂), fun _ _ => sturdy₁.run run₂⟩
  · exact (after_freeStandingGraph sound_part).mono fun _ _ reaches => sturdy.run (reaches.1 .asking 0 0)

theorem returns_setBindInput (sturdy : Sturdy W c) (id : PartId) (r : ShaderRef) (i : Input) :
    Returns (setBindInput id r i) (W.at p) c := by
  have takes : Takes .asking id id (c.edit (.began (.override id r i))) id := ⟨rfl, Nat.le_refl _⟩
  have sturdy : Sturdy W (c.edit (.began (.override id r i))) := sturdy.began _
  rw [setBindInput, returns_asTask, returns_bind]
  refine ⟨returns_connectOutside sound_part (answers_part acyclic) sturdy
    (Nat.le_of_lt (effort_lt_depthBound W.catalog c.assembly (.graph (.document W.catalog.document))))
    (fun _ _ _ _ _ _ _ => effort_lt_depthBound _ _ _) id i, ?_⟩
  refine (after_connectOutside .asking sound_part takes).mono fun done c₁ run => ?_
  split
  · exact rfl
  · split
    · exact rfl
    · rw [returns_total_bind (total_remark _), after_remark, returns_bind]
      refine ⟨returns_bindInput (c := c₁.push _) (sturdy.run run).descends id i _, fun res c₂ _ => ?_⟩
      cases res <;> exact rfl

theorem returns_outputLeaf (sturdy : Sturdy W c) (id : PartId) (o : Output) :
    Returns (outputLeaf id o) (W.at p) c := by
  rw [outputLeaf, returns_total_bind total_assembly, after_assembly]
  split
  · exact rfl
  · split
    · exact rfl
    · exact rfl
    · rw [innerPart]
      split
      · exact rfl
      · dsimp only
        split
        · exact rfl
        · rw [returns_bind]
          refine ⟨returns_part acyclic sturdy _ _, fun res c₁ _ => ?_⟩
          cases res <;> exact rfl

omit acyclic in
theorem total_wrapSurface (h : Handle) (type : String) : Total (wrapSurface h type : Build σ (Result PartId)) := by
  intro E c
  rw [wrapSurface]
  split
  · exact (total_createLeaf _ _ _ _ E c).andThen (fun _ _ _ => trivial) fun _ _ _ =>
      (total_addPart _).bind (fun _ => total_pure _) _ _
  · exact rfl

theorem returns_addRoot (sturdy : Sturdy W c) (g : Group) (id : PartId) (harvest : Harvest)
    (o : OutputKind × Output) : Returns (addRoot g id harvest o) (W.at p) c := by
  have sturdy : Sturdy W (c.edit (.began (.root id o.1))) := sturdy.began _
  have root : Returns (rootOf g id o.1 o.2) (W.at p) (c.edit (.began (.root id o.1))) := by
    rw [rootOf, returns_bind]
    refine ⟨returns_outputLeaf acyclic sturdy id o.2, fun res c₁ _ => ?_⟩
    cases res with
    | none => exact rfl
    | some leaf =>
        dsimp only
        rw [returns_total_bind total_assembly, after_assembly]
        split
        · exact rfl
        · split
          · rw [returns_total_bind (total_wrapSurface _ _)]
            intro res c₂ _
            cases res <;> exact rfl
          · exact rfl
  rw [addRoot, returns_bind, returns_asTask]
  refine ⟨root, fun res c₁ _ => ?_⟩
  obtain ⟨root, added⟩ := res
  cases root <;> exact rfl

omit acyclic in
theorem after_addRoot_sturdy (sturdy : Sturdy W c) (g : Group) (id : PartId) (harvest : Harvest)
    (o : OutputKind × Output) : After (addRoot g id harvest o) (W.at p) c fun _ c' => Sturdy W c' := by
  rw [addRoot, after_bind, after_asTask]
  refine after_rootOf.mono ?_
  rintro ⟨root, added⟩ c₁ finds
  have sturdy₁ := (Adds.sturdy finds.adds (sturdy.began _)).mark (.ended (.root id o.1) root.isSome)
  cases root <;> exact after_pure.2 sturdy₁

omit acyclic in
theorem total_reportGroup (e : LoadError) : Total (reportGroup e : Build σ Unit) := by
  unfold reportGroup
  split
  · exact total_remark _
  · exact total_emit _

theorem returns_buildGroup (sturdy : Sturdy W c) (harvest : Harvest) (g : Group) :
    Returns (buildGroup harvest g) (W.at p) c := by
  have roots {c₁ : Context σ} (sturdy₁ : Sturdy W c₁) (id : PartId) (harvest : Harvest) :
      Returns (g.outputs.foldlM (addRoot g id) harvest) (W.at p) c₁ :=
    returns_foldlM (I := fun _ c₂ => Sturdy W c₂) (fun o _ harvest c₂ sturdy₂ =>
      ⟨returns_addRoot acyclic sturdy₂ g id harvest o, after_addRoot_sturdy sturdy₂ g id harvest o⟩) sturdy₁
  rw [buildGroup, returns_bind]
  refine ⟨returns_groupComposite acyclic sturdy g, (after_groupComposite_sturdy sturdy g).mono fun res c₁ sturdy₁ => ?_⟩
  cases res with
  | error e => exact (total_reportGroup e).bind (fun _ => total_pure _) _ _
  | ok id =>
      dsimp only
      split
      · next r _ =>
        have keeps (i : Input) (c₂ : Context σ) (sturdy₂ : Sturdy W c₂) :
            After (setBindInput id r i) (W.at p) c₂ fun _ c₃ => Sturdy W c₃ :=
          after_setBindInput.mono fun _ _ sets => sturdy₂.works (sets.works (reached_add _ {} id))
        rw [returns_bind]
        refine ⟨returns_forM (I := Sturdy W) (fun i _ c₂ sturdy₂ =>
          ⟨returns_setBindInput acyclic sturdy₂ id r i, keeps i c₂ sturdy₂⟩) sturdy₁, ?_⟩
        exact (after_forM (I := Sturdy W) (fun i _ c₂ sturdy₂ => keeps i c₂ sturdy₂) sturdy₁).mono
          fun _ c₂ sturdy₂ => roots sturdy₂ id _
      · exact roots sturdy₁ id _

omit acyclic in
theorem total_releaseParts (xs : List PartId) : Total (releaseParts xs : Build σ Unit) := by
  refine total_forM (fun x => total_assembly.bind fun a => ?_) xs
  split
  · exact total_release _ _
  · exact total_pure _

theorem returns_loadSelection (sturdy : Sturdy W c) (s : Selection) : Returns (loadSelection s) (W.at p) c := by
  rw [loadSelection, returns_bind]
  refine ⟨returns_foldlM (I := fun _ c₁ => Sturdy W c₁) (fun g _ harvest c₁ sturdy₁ =>
    ⟨returns_buildGroup acyclic sturdy₁ harvest g, after_buildGroup.mono fun _ _ works => sturdy₁.works works⟩)
    sturdy, fun harvest c₁ _ => ?_⟩
  dsimp only
  split
  · exact (total_catalog.bind fun _ => (total_emit _).bind fun _ => total_assembly.bind fun _ =>
      (total_releaseParts _).bind fun _ => total_pure _) _ _
  · exact (total_assembly.bind fun _ => (total_releaseParts _).bind fun _ => (total_emit _).bind fun _ =>
      total_pure _) _ _

end Build

/-- A load returns, whatever is loaded with whatever options and whatever the renderer answers, if no site of the
documents leads back to itself: no graph, by its nodes that are expanded to graphs and by the outputs of the top level
that they take, and no node of the top level by the graph that it is expanded to. Nodes of a graph may refer to each
other, and free-standing graphs may refer to each other, in cycles or not. -/
theorem load_returns (l : Loader) (d : Document) (options : LoadOptions) (fileExists : String → Bool)
    (r : Renderer σ) (s : σ) (acyclic : ∀ t, ¬ TransGen (l.catalog d).Leads t t) :
    (l.load d options fileExists r s).isSome := by
  have returns : Returns (loadDocument options.targets) (l.env d options fileExists r) { system := s } := by
    rw [loadDocument, returns_total_bind total_catalog, after_catalog]
    dsimp only
    rw [returns_within]
    split
    · exact rfl
    · exact returns_loadSelection (W := l.env d options fileExists r) acyclic (.start s) _
  rw [Loader.load, Option.isSome_map]
  exact isSome_toOption.2 returns

/-- The nodes `y` and `z` take each other's values, and `loop` takes its own. `x` is expanded to a graph that takes the
output of `y`. -/
def entangled : Document where
  nodeDefs := [
    { name := "ND_add", node := "add", type := "float"
      inputs := [{ name := "in1", type := "float" }, { name := "in2", type := "float" }] },
    { name := "ND_thing", node := "thing", type := "float", nodeGraph := some "NG_thing" }]
  nodeGraphs := [
    { name := "NG_thing", nodeDef := some "ND_thing"
      nodes := [
        { name := "a", category := "add", type := "float"
          inputs := [{ name := "in1", type := "float", nodeGraph := some "loop", output := some "back" },
            { name := "in2", type := "float", output := some "p" }] }]
      outputs := [{ name := "out", type := "float", nodeName := some "a" }] },
    { name := "loop"
      nodes := [
        { name := "k", category := "add", type := "float"
          inputs := [{ name := "in1", type := "float", nodeGraph := some "loop", output := some "back" }] }]
      outputs := [{ name := "back", type := "float", nodeName := some "k" }] }]
  nodes := [
    { name := "x", category := "thing", type := "float" },
    { name := "y", category := "add", type := "float"
      inputs := [{ name := "in1", type := "float", nodeName := some "z" }] },
    { name := "z", category := "add", type := "float"
      inputs := [{ name := "in1", type := "float", nodeName := some "y" }] }]
  outputs := [
    { name := "o", type := "float", nodeName := some "x" }, { name := "p", type := "float", nodeName := some "y" }]

/-- How far the sites of the document lead: `x` leads to the graph that it is expanded to, and that graph leads to
`y`. -/
def entangledReach : Site → Nat
  | .graph g => if g.name = "NG_thing" then 1 else 0
  | .node n => if n.name = "x" then 2 else 0

theorem load_returns_entangled :
    (∀ t, ¬ TransGen (Catalog.Leads ⟨entangled, none⟩) t t) ∧
      (Loader.load {} entangled {} (fun _ => false) Recorder.renderer {}).isSome := by
  have acyclic : ∀ t, ¬ TransGen (Catalog.Leads ⟨entangled, none⟩) t t :=
    Catalog.acyclic_of_lt entangledReach (by decide +kernel)
  exact ⟨acyclic, load_returns {} entangled {} (fun _ => false) Recorder.renderer {} acyclic⟩

/-! ## A node that takes its own output -/

namespace Reentered

def element : Input := { name := "bsdf", type := "BSDF", output := some "o" }

def inner : Node := { name := "s", category := "surface", type := "surfaceshader", inputs := [element] }

def output : Output := { name := "out", type := "surfaceshader", nodeName := some "s" }

def graph : NodeGraph where
  name := "NG_thing"
  nodeDef := some "ND_thing"
  nodes := [inner]
  outputs := [output]

def surface : NodeDef :=
  { name := "ND_surface", node := "surface", type := "surfaceshader", inputs := [{ name := "bsdf", type := "BSDF" }] }

def thing : NodeDef := { name := "ND_thing", node := "thing", type := "surfaceshader", nodeGraph := some "NG_thing" }

def outer : Node := { name := "x", category := "thing", type := "surfaceshader" }

def top : Output := { name := "o", type := "surfaceshader", nodeName := some "x" }

end Reentered

/-- The output of `x` is taken in the graph to which `x` is expanded. -/
def reentered : Document where
  nodeDefs := [Reentered.surface, Reentered.thing]
  nodeGraphs := [Reentered.graph]
  nodes := [Reentered.outer]
  outputs := [Reentered.top]

namespace Reentered

/-- The top level has a composite, but `x` is not noted there. -/
def Open (t : PartId) (c : Context σ) : Prop :=
  c.assembly.top = some t ∧
    ∃ k, c.assembly.composite? t = some k ∧ k.graph = .document reentered ∧ k.child? "x" = none

/-- The graph of `x` has a composite, in which nothing is built. -/
def Entered (id : PartId) (c : Context σ) : Prop :=
  c.assembly.composite? id = some { graph := .named graph }

variable {id t : PartId} {fuel : Nat}

/-- To ask for a child that is missing builds it. -/
theorem builds {sub : SubPart σ} {name : String} {k : Composite} {root : Node}
    (composite : c.assembly.composite? id = some k) (absent : k.child? name = none)
    (node : k.graph.node? name = some root) (returns : Returns (childPartWith sub id name) (W.at p) c) :
    Returns (buildNode sub root) ((W.at p).at ((W.at p).place.enter .node root.filePrefix))
        ((c.edit (.began (.child id name))).push (.remarked (W.at p).margin (.node root.name root.category))) ∧
      ∀ x c₁, buildNode sub root ((W.at p).at ((W.at p).place.enter .node root.filePrefix))
          ((c.edit (.began (.child id name))).push (.remarked (W.at p).margin (.node root.name root.category))) =
          .ok (.ok x, c₁) →
        Returns (resolveInputs sub id root x) ((W.at p).at ((W.at p).place.enter .node root.filePrefix))
          (c₁.edit (.child id root.name x)) := by
  have there : (c.edit (.began (.child id name))).assembly.composite? id = some k := composite
  obtain ⟨-, rfl⟩ := mem_of_node? node
  rw [childPartWith, returns_asTask, returns_total_bind total_assembly, after_assembly, there] at returns
  dsimp only at returns
  rw [absent] at returns
  dsimp only at returns
  rw [node] at returns
  dsimp only at returns
  rw [returns_total_bind total_catalog, after_catalog] at returns
  cases steps : stackBound (W.at p).catalog k.graph with
  | zero =>
      have := unresolved_lt_stackBound (W.at p).catalog c.assembly id k.graph
      omega
  | succ steps =>
      rw [steps, drain, returns_bind] at returns
      have returns := returns.1
      rw [buildChild, returns_total_bind total_assembly, after_assembly, there, Option.bind_some, absent] at returns
      dsimp only at returns
      rw [returns_total_bind (total_remark _), after_remark, returns_within, returns_bind] at returns
      refine ⟨returns.1, fun x c₁ made => ?_⟩
      have rest := returns.2 _ _ made
      dsimp only at rest
      rw [returns_total_bind (total_edit _), after_edit, returns_bind] at rest
      exact rest.1

/-- To build `x` at the top level asks for `s` in a new composite. -/
theorem enters (hW : W.catalog = ⟨reentered, none⟩) (opened : Open t c)
    (returns : Returns (childPart (fuel + 1) t "x") (W.at p) c) :
    ∃ p' id c', Open t c' ∧ Entered id c' ∧ Returns (childPart fuel id "s") (W.at p') c' := by
  obtain ⟨top, k, hk, hg, absent⟩ := opened
  have node : k.graph.node? "x" = some outer := by
    rw [hg]
    rfl
  have returns := (builds hk absent node returns).1
  have implementation : (W.catalog.nodeDefOf? outer).bind W.catalog.implementation? = some graph := by
    rw [hW]
    decide +kernel
  rw [buildNode, show Recipe.of outer = .ok .expand from rfl] at returns
  dsimp only at returns
  rw [returns_total_bind total_catalog, after_catalog] at returns
  split at returns
  · next g found =>
    cases implementation.symm.trans found
    have entered {c₁ : Context σ} : (c₁.edit (.add (.composite { graph := .named graph }))).assembly.composite?
        c₁.assembly.size = some { graph := .named graph } := by
      rw [Context.edit_assembly, composite?_add_composite, if_pos rfl]
    rw [buildComposite, addComposite, returns_total_bind (total_addPart _), after_addPart, andThen,
      returns_bind] at returns
    have returns := returns.1
    rw [buildOutputs, returns_total_bind total_assembly, after_assembly, entered] at returns
    dsimp only at returns
    rw [returns_total_bind (total_remark _), after_remark, returns_within, returns_bind,
      show graph.outputs = [output] from rfl, List.mapM_cons, returns_bind] at returns
    have returns := returns.1.1
    rw [buildOutput, returns_total_bind (total_remark _), after_remark, returns_bind,
      show output.nodeName?.getD "" = "s" from rfl] at returns
    refine ⟨_, _, _, ?_, ?_, returns.1⟩
    · refine ⟨top, k, ?_, hg, absent⟩
      change (c.assembly.apply (.add _)).composite? t = some k
      rw [composite?_add_composite, if_neg (Nat.ne_of_lt (lt_size_of_composite? hk)), hk]
    · exact entered
  · next none =>
    cases implementation.symm.trans none

/-- To build `s` asks for `x` at the top level. -/
theorem reenters (hW : W.catalog = ⟨reentered, none⟩) (opened : Open t c) (entered : Entered id c)
    (returns : Returns (childPart (fuel + 1) id "s") (W.at p) c) :
    ∃ p' c', Open t c' ∧ Returns (childPart fuel t "x") (W.at p') c' := by
  obtain ⟨-, rest⟩ := builds entered rfl (show _ = some inner from rfl) returns
  have rest := rest c.assembly.size _ (by rfl)
  have definition : W.catalog.nodeDefOf? inner = some surface := by
    rw [hW]
    decide +kernel
  have produces : topProducer? W.catalog "o" = some (Reentered.top, outer, thing) := by
    rw [hW]
    decide +kernel
  rw [resolveInputs, returns_total_bind total_catalog, after_catalog] at rest
  split at rest
  · next none => cases definition.symm.trans none
  · next nd found =>
    cases definition.symm.trans found
    have extended : Extends c.assembly ((c.assembly.apply (.add (.leaf ⟨.nothing, .surface⟩))).apply
        (.child id inner.name c.assembly.size)) := (Extends.add _ _).trans (.note _ (.child _ _ _))
    obtain ⟨k, hk, hg⟩ := extended.composite entered
    rw [returns_bind, show surface.inputs = [{ name := "bsdf", type := "BSDF" }] from rfl, List.mapM_cons,
      returns_bind] at rest
    have rest := rest.1.1
    rw [returns_total_bind (total_remark _), after_remark, returns_within, resolveInput,
      returns_total_bind total_assembly, after_assembly] at rest
    split at rest
    · next none => cases hk.symm.trans none
    · next k' found =>
      cases hk.symm.trans found
      rw [show effectiveInput id k.graph inner { name := "bsdf", type := "BSDF" } = (pure element : Build σ Input) from
        rfl, returns_total_bind (total_pure _), after_pure, if_pos (show element.isInput = true from rfl), bindElement,
        show element.nodeName? = none from rfl] at rest
      dsimp only at rest
      rw [returns_total_bind (total_pure _), after_pure] at rest
      dsimp only at rest
      rw [returns_bind, connectOutside, show element.output? = some "o" from rfl] at rest
      have rest := rest.1
      dsimp only at rest
      rw [show nonEmpty element.nodeGraph = none from rfl] at rest
      dsimp only at rest
      rw [connectTopOutput, returns_total_bind total_catalog, after_catalog] at rest
      split at rest
      · next none => cases produces.symm.trans none
      · next o n nd found =>
        cases produces.symm.trans found
        rw [show chooseOutput thing.type thing.outputs Reentered.top.output? Reentered.top.name = .ok none from
          rfl] at rest
        dsimp only at rest
        rw [returns_bind] at rest
        have rest := rest.1
        obtain ⟨top, k₀, hk₀, hg₀, absent⟩ := opened
        rw [topPart, returns_total_bind total_catalog, after_catalog] at rest
        dsimp only at rest
        rw [returns_total_bind total_topComposite, topComposite, after_bind, after_assembly] at rest
        split at rest
        · next t' top' =>
          cases top.symm.trans top'
          rw [after_pure, returns_within] at rest
          refine ⟨_, _, ?_, rest⟩
          refine ⟨top, k₀, ?_, hg₀, absent⟩
          have other : id ≠ t := by
            rintro rfl
            cases entered.symm.trans hk₀
            cases hg₀
          change ((c.assembly.apply (.add _)).apply (.child id _ _)).composite? t = some k₀
          rw [composite?_child, if_neg other, composite?_add_leaf, hk₀]
        · next none => cases top.symm.trans none

/-- To ask for `x` at the top level comes to no end. -/
theorem never (hW : W.catalog = ⟨reentered, none⟩) (fuel : Nat) :
    ∀ (p : Place) (c : Context σ), Open t c → ¬ Returns (childPart fuel t "x") (W.at p) c := by
  induction fuel using Nat.strongRecOn with
  | ind fuel ih =>
    intro p c opened returns
    cases fuel with
    | zero => cases returns
    | succ fuel =>
        obtain ⟨p₁, id, c₁, opened₁, entered, returns₁⟩ := enters hW opened returns
        cases fuel with
        | zero => cases returns₁
        | succ fuel =>
            obtain ⟨p₂, c₂, opened₂, returns₂⟩ := reenters hW opened₁ entered returns₁
            exact ih fuel (by omega) p₂ c₂ opened₂ returns₂

/-- To build the group of the output asks for `x` at the top level. -/
theorem opens (hW : W.catalog = ⟨reentered, none⟩) (fresh : c.assembly.top = none)
    (returns : Returns (groupComposite ⟨.document reentered, none, [(.surface, Reentered.top)]⟩) (W.at p) c) :
    ∃ p' t c', Open t c' ∧ Returns (childPart (depthBound W.catalog) t "x") (W.at p') c' := by
  rw [groupComposite] at returns
  dsimp only at returns
  rw [returns_total_bind total_topComposite, topComposite, after_bind, after_assembly] at returns
  split at returns
  · next top => cases fresh.symm.trans top
  · rw [after_bind, after_catalog, after_bind, addComposite, after_addPart, after_bind, after_edit, after_pure,
      andThen, returns_bind] at returns
    have returns := returns.1
    have opened : (c.assembly.apply (.add (.composite { graph := .document W.catalog.document }))).composite?
        c.assembly.size = some { graph := .document reentered } := by
      rw [composite?_add_composite, if_pos rfl, hW]
    rw [buildOutputs, returns_total_bind total_assembly, after_assembly] at returns
    split at returns
    · next none => cases opened.symm.trans none
    · next k found =>
      cases opened.symm.trans found
      dsimp only at returns
      rw [returns_total_bind (total_remark _), after_remark, returns_within, returns_bind, List.map_cons, List.map_nil,
        List.mapM_cons, returns_bind] at returns
      have returns := returns.1.1
      rw [buildOutput, returns_total_bind (total_remark _), after_remark, returns_bind,
        show Reentered.top.nodeName?.getD "" = "x" from rfl, part, returns_total_bind total_catalog,
        after_catalog] at returns
      exact ⟨_, _, _, ⟨rfl, _, opened, rfl, rfl⟩, returns.1⟩

end Reentered

/-- The node `x` of the document is built again below itself until the fuel is used up, however much of it there is. -/
theorem reentered_never_returns :
    Loader.load {} reentered {} (fun _ => false) Recorder.renderer {} = none := by
  rw [Loader.load, Option.map_eq_none_iff, ← Option.not_isSome_iff_eq_none]
  intro evaluated
  have returns := isSome_toOption.1 evaluated
  have selected : (Selection.choose ⟨reentered, none⟩ none).selected =
      [(.surface, { graph := .document reentered, output := Reentered.top })] := by
    decide +kernel
  change Returns (loadDocument none) (Loader.env {} reentered {} (fun _ => false) Recorder.renderer) { system := {} }
    at returns
  rw [loadDocument, returns_total_bind total_catalog, after_catalog] at returns
  dsimp only at returns
  rw [returns_within, show (Loader.env {} reentered {} (fun _ => false) Recorder.renderer).catalog =
    ⟨reentered, none⟩ from rfl, selected, if_neg (by decide), loadSelection, selected, returns_bind] at returns
  have returns := returns.1
  rw [show Group.ofSelected [(.surface, { graph := .document reentered, output := Reentered.top })] =
    [⟨.document reentered, none, [(.surface, Reentered.top)]⟩] from rfl, List.foldlM_cons, returns_bind] at returns
  have returns := returns.1
  rw [buildGroup, returns_bind] at returns
  obtain ⟨p, t, c, opened, returns⟩ := Reentered.opens rfl rfl returns.1
  exact Reentered.never rfl _ p c opened returns

end MaterialGraph
