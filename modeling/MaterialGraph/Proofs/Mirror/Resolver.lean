import MaterialGraph.Build.Resolver
import MaterialGraph.Proofs.Build.Steps
import MaterialGraph.Proofs.Mirror.Builds

/-!
# Children of mirrored builds

* `mirrors_buildNode`, `mirrors_resolveInput`, `mirrors_buildChild`, `mirrors_drain` : each way through the resolver
  mirrors itself if the ways back to it do.
* `mirrors_part` : so the resolver as a whole does. Its fuel depends on nothing but the number of nodes.
-/

namespace MaterialGraph.Build

set_option autoImplicit false

variable {σ σ' : Type} {r : Renderer σ} {r' : Renderer σ'} {M : Mirror r r'} {sub : SubPart σ} {sub' : SubPart σ'}

def SubMirrors (M : Mirror r r') (sub : SubPart σ) (sub' : SubPart σ') : Prop :=
  ∀ id name, Mirrors M Eq (sub id name) (sub' id name)

theorem relabelSettings_of_fixed {settings : List (InputKey × Bound)} (fixed : Fixed settings) (ρ : Handle → Handle) :
    relabelSettings ρ settings = settings := by
  refine (List.map_congr_left fun s hs => ?_).trans (List.map_id settings)
  obtain ⟨key, value⟩ := s
  cases value with
  | node h => exact absurd hs (fixed key h)
  | floats x => rfl
  | word n => rfl

/-! ## Geometric properties -/

theorem mirrors_geomPart (g : GeomPropDef) : Mirrors M Eq (geomPart g) (geomPart g) := by
  refine mirrors_assembly.bind fun a a' h => ?_
  rw [h.geometry]
  split
  · exact mirrors_pure rfl
  · dsimp only
    split
    case' isTrue => refine (mirrors_warn _).bind_same fun _ => ?_
    all_goals
      split
      case' h_1 => refine Mirrors.bind (R := Relabels (Leaf.relabel M.label)) (mirrors_pure rfl) fun res _ same => ?_
      case' h_2 => refine (mirrors_createLeaf _ _ [(.value, .word _)] _).bind fun res _ same => ?_
      all_goals
        subst same
        cases res with
        | error e => exact (mirrors_warn _).bind_same fun _ => mirrors_pure rfl
        | ok l =>
            refine (mirrors_addPart (.leaf l)).bind_same fun id => ?_
            exact (mirrors_edit fun _ _ h => h.setGeometry g.name id).bind_same fun _ => mirrors_pure rfl

theorem mirrors_bindGeomProp (property : String) (x : PartId) (i : Input) :
    Mirrors M Eq (bindGeomProp property x i) (bindGeomProp property x i) := by
  refine mirrors_catalog.bind fun C C' alike => ?_
  rw [alike.geomPropDef?]
  split
  · exact mirrors_warn _
  · refine (mirrors_geomPart _).bind_same fun o => ?_
    cases o with
    | none => exact mirrors_pure rfl
    | some id =>
        refine (mirrors_connect id none x i).bind_same fun res => ?_
        cases res with
        | ok => exact mirrors_pure rfl
        | error e =>
            dsimp only
            split
            · exact mirrors_remark _
            · exact mirrors_warn _

/-! ## Literals and references inside -/

theorem mirrors_bindLiteral (element : Input) (n : Node) (x : PartId) (i : Input) :
    Mirrors M Eq (bindLiteral element n x i) (bindLiteral element n x i) := by
  unfold bindLiteral
  split
  · exact mirrors_pure rfl
  · refine (mirrors_remark _).bind_same fun _ => (mirrors_bindInput x i (.literal _ _)).bind_same fun res => ?_
    cases res with
    | ok => exact mirrors_pure rfl
    | error e =>
        dsimp only
        split
        · exact mirrors_remark _
        · exact mirrors_warn _

theorem mirrors_connectInside (id : PartId) {g g' : Graph} (alike : g.Alike g') (consumer : Node) (x : PartId)
    (i element : Input) (name : String) :
    Mirrors M Eq (connectInside id g consumer x i element name) (connectInside id g' consumer x i element name) := by
  refine (mirrors_remark _).bind_same fun _ => ?_
  rw [alike.node?, alike.name]
  split
  · exact (mirrors_warn _).bind_same fun _ => mirrors_pure rfl
  · refine mirrors_catalog.bind fun C C' catalogs => ?_
    rw [catalogs.nodeDefOf?]
    dsimp only
    split
    · exact (mirrors_warn _).bind_same fun _ => mirrors_pure rfl
    · refine mirrors_assembly.bind fun a a' h => ?_
      rw [h.child?]
      split
      · exact mirrors_pure rfl
      · refine (mirrors_connectChildren id _ _ _ x i).bind_same fun res => ?_
        cases res with
        | ok => exact (mirrors_remark _).bind_same fun _ => mirrors_pure rfl
        | error e =>
            dsimp only
            split
            · exact (mirrors_remark _).bind_same fun _ => mirrors_pure rfl
            · exact (mirrors_warn _).bind_same fun _ => mirrors_pure rfl

theorem mirrors_effectiveInput (id : PartId) {g g' : Graph} (alike : g.Alike g') (n : Node) (i : Input) :
    Mirrors M Eq (effectiveInput id g n i) (effectiveInput id g' n i) := by
  unfold effectiveInput
  split
  · exact mirrors_pure rfl
  · split
    · exact mirrors_pure rfl
    · refine (mirrors_edit fun _ _ h => h.addSocket id _ _).bind_same fun _ => ?_
      refine mirrors_catalog.bind fun C C' catalogs => ?_
      rw [catalogs.nodeDefOfGraph? alike]
      exact mirrors_pure rfl

theorem mirrors_connectPending (id : PartId) (consumer : Node) (link : Link) (x producing : PartId) :
    Mirrors M Eq (connectPending id consumer link x producing) (connectPending id consumer link x producing) := by
  refine (mirrors_connectChildren id _ producing _ x _).bind_same fun res => ?_
  cases res with
  | ok => exact mirrors_remark _
  | error e => exact mirrors_warn _

theorem mirrors_reportConnect (producer : PartId) (output : Option String) (consumer : PartId) (i : Input) :
    Mirrors M Eq (reportConnect producer output consumer i) (reportConnect producer output consumer i) := by
  refine (mirrors_connect producer output consumer i).bind_same fun res => ?_
  cases res with
  | ok => exact mirrors_pure rfl
  | error e => exact (mirrors_warn _).bind_same fun _ => mirrors_pure rfl

theorem mirrors_reportNode (n : Node) (e : LoadError) : Mirrors M Eq (reportNode n e) (reportNode n e) := by
  unfold reportNode
  split
  · exact mirrors_remark _
  · split
    · exact mirrors_remark _
    · exact mirrors_warn _

theorem mirrors_topComposite : Mirrors M Eq topComposite topComposite := by
  refine mirrors_assembly.bind fun a a' h => ?_
  rw [h.top]
  split
  · exact mirrors_pure rfl
  · refine mirrors_catalog.bind fun C C' alike => ?_
    refine (mirrors_addComposite (.document alike.document)).bind_same fun id => ?_
    exact (mirrors_edit fun _ _ h => h.setTop id).bind_same fun _ => mirrors_pure rfl

/-! ## Graphs -/

section

variable (hsub : SubMirrors M sub sub')

include hsub

theorem mirrors_buildOutput (id : PartId) {g g' : Graph} (alike : g.Alike g') (o : Output) :
    Mirrors M Eq (buildOutput sub id g o) (buildOutput sub' id g' o) := by
  unfold buildOutput
  dsimp only
  rw [alike.name]
  refine (mirrors_remark _).bind_same fun _ => (hsub id _).bind_same fun x => ?_
  cases x with
  | some => exact mirrors_pure rfl
  | none => exact (mirrors_warn _).bind_same fun _ => mirrors_pure rfl

theorem mirrors_buildOutputs (id : PartId) (required : List Output) :
    Mirrors M Eq (buildOutputs sub id required) (buildOutputs sub' id required) := by
  refine mirrors_assembly.bind fun a a' h => ?_
  obtain ⟨none, none'⟩ | ⟨k, k', some, some', twin⟩ := rel_none_or_some (h.composite? id)
  · rw [none, none']
    exact mirrors_pure rfl
  · rw [some, some']
    dsimp only
    rw [twin.graph.name, twin.graph.filePrefix]
    refine (mirrors_remark _).bind_same fun _ => mirrors_within ?_
    exact (mirrors_mapM (mirrors_buildOutput hsub id twin.graph) required).bind_same fun _ => mirrors_pure rfl

theorem mirrors_buildComposite {g g' : Graph} (alike : g.Alike g') (required : List Output) :
    Mirrors M Eq (buildComposite sub g required) (buildComposite sub' g' required) :=
  (mirrors_addComposite alike).bind_same fun id =>
    mirrors_andThen_same (mirrors_buildOutputs hsub id required) fun _ => mirrors_pure rfl

theorem mirrors_topPart (n : Node) : Mirrors M Eq (topPart sub n) (topPart sub' n) := by
  refine mirrors_catalog.bind fun C C' alike => mirrors_topComposite.bind_same fun t => ?_
  rw [alike.document.filePrefix]
  exact mirrors_within (hsub t n.name)

theorem mirrors_freeStandingGraph {g g' : NodeGraph} (alike : g.Alike g') (required : List Output) :
    Mirrors M Eq (freeStandingGraph sub g required) (freeStandingGraph sub' g' required) := by
  unfold freeStandingGraph
  rw [alike.name]
  refine mirrors_assembly.bind fun a a' h => ?_
  rw [h.freeStanding]
  split
  · exact mirrors_pure rfl
  · dsimp only
    split
    case' h_1 => refine Mirrors.bind_same (mirrors_pure rfl) fun id => ?_
    case' h_2 => refine (mirrors_addComposite (.named alike)).bind_same fun id => ?_
    all_goals
      refine (mirrors_edit fun _ _ h => h.setFreeStanding g.name (.building id)).bind_same fun _ => ?_
      refine (mirrors_buildOutputs hsub id required).bind_same fun outcome => ?_
      exact (mirrors_edit fun _ _ h => h.setFreeStanding g.name (.built id)).bind_same fun _ => mirrors_pure rfl

/-! ## Nodes -/

theorem mirrors_buildNode (n : Node) : Mirrors M Eq (buildNode sub n) (buildNode sub' n) := by
  unfold buildNode
  split
  · exact mirrors_pure rfl
  · exact (mirrors_addPart (.leaf ⟨.nothing, _⟩)).bind_same fun _ => mirrors_pure rfl
  · next type role settings recipe =>
    have creation := mirrors_createLeaf (M := M) type role settings (some n.name)
    rw [relabelSettings_of_fixed (fixed_of_recipe recipe)] at creation
    exact mirrors_andThen creation fun l => (mirrors_addPart (.leaf l)).bind_same fun _ => mirrors_pure rfl
  · refine mirrors_catalog.bind fun C C' alike => ?_
    rw [alike.nodeDefOf?]
    have implementations : Option.Rel NodeGraph.Alike ((C.nodeDefOf? n).bind C.implementation?)
        ((C.nodeDefOf? n).bind C'.implementation?) :=
      rel_bind (R := Eq) (rel_refl (fun _ => rfl) _) fun nd _ same => same ▸ alike.implementation? nd
    obtain ⟨none, none'⟩ | ⟨g, g', some, some', alike⟩ := rel_none_or_some implementations
    · rw [none, none']
      exact mirrors_pure rfl
    · rw [some, some']
      dsimp only
      rw [alike.outputs]
      exact mirrors_buildComposite hsub (.named alike) _

/-! ## Inputs -/

theorem mirrors_connectGraph (element : Input) (graph output : String) (consumer : PartId) (i : Input) :
    Mirrors M Eq (connectGraph sub element graph output consumer i)
      (connectGraph sub' element graph output consumer i) := by
  refine mirrors_catalog.bind fun C C' alike => ?_
  obtain ⟨none, none'⟩ | ⟨g, g', some, some', alike⟩ := rel_none_or_some (alike.document.nodeGraph? graph)
  · rw [none, none']
    exact (mirrors_warn _).bind_same fun _ => mirrors_pure rfl
  · rw [some, some']
    dsimp only
    rw [(Graph.Alike.named alike).output?]
    split
    · exact (mirrors_warn _).bind_same fun _ => mirrors_pure rfl
    · refine (mirrors_freeStandingGraph hsub alike _).bind_same fun res => ?_
      cases res with
      | error e => exact (mirrors_warn _).bind_same fun _ => mirrors_pure rfl
      | ok id => exact (mirrors_remark _).bind_same fun _ => mirrors_reportConnect id _ consumer i

theorem mirrors_connectTopOutput (element : Input) (output : String) (consumer : PartId) (i : Input) :
    Mirrors M Eq (connectTopOutput sub element output consumer i)
      (connectTopOutput sub' element output consumer i) := by
  refine mirrors_catalog.bind fun C C' alike => ?_
  have producer : topProducer? C' output = topProducer? C output := by
    unfold topProducer?
    rw [alike.document.output?, funext alike.document.node?, funext alike.nodeDefOf?]
  rw [producer]
  split
  · exact mirrors_pure rfl
  · split
    · exact (mirrors_warn _).bind_same fun _ => mirrors_pure rfl
    · refine (mirrors_topPart hsub _).bind_same fun o => ?_
      cases o with
      | none => exact mirrors_pure rfl
      | some id => exact (mirrors_remark _).bind_same fun _ => mirrors_reportConnect id _ consumer i

theorem mirrors_connectOutside (element : Input) (consumer : PartId) (i : Input) :
    Mirrors M Eq (connectOutside sub element consumer i) (connectOutside sub' element consumer i) := by
  unfold connectOutside
  split
  · exact mirrors_pure rfl
  · split
    · exact mirrors_connectGraph hsub _ _ _ _ _
    · exact mirrors_connectTopOutput hsub _ _ _ _

theorem mirrors_bindElement (id : PartId) {g g' : Graph} (alike : g.Alike g') (n : Node) (x : PartId)
    (i element : Input) :
    Mirrors M Eq (bindElement sub id g n x i element) (bindElement sub' id g' n x i element) := by
  unfold bindElement
  dsimp only
  split
  case' h_1 => refine (mirrors_connectInside id alike n x i element _).bind_same fun resolution => ?_
  case' h_2 => refine Mirrors.bind_same (mirrors_pure rfl) fun resolution => ?_
  all_goals
    cases resolution with
    | settled => exact mirrors_pure rfl
    | deferred p => exact mirrors_pure rfl
    | unsettled =>
        refine (mirrors_connectOutside hsub element x i).bind_same fun connected => ?_
        split
        · exact mirrors_pure rfl
        · split
          · exact (mirrors_bindGeomProp _ x i).bind_same fun _ => mirrors_pure rfl
          · exact (mirrors_bindLiteral element n x i).bind_same fun _ => mirrors_pure rfl

theorem mirrors_resolveInput (id : PartId) (n : Node) (x : PartId) (i : Input) :
    Mirrors M Eq (resolveInput sub id n x i) (resolveInput sub' id n x i) := by
  refine mirrors_assembly.bind fun a a' h => ?_
  obtain ⟨none, none'⟩ | ⟨k, k', some, some', twin⟩ := rel_none_or_some (h.composite? id)
  · rw [none, none']
    exact mirrors_pure rfl
  · rw [some, some']
    refine (mirrors_effectiveInput id twin.graph n i).bind_same fun element => ?_
    split
    · exact mirrors_bindElement hsub id twin.graph n x i element
    · exact (mirrors_bindLiteral element n x i).bind_same fun _ => mirrors_pure rfl

theorem mirrors_resolveInputs (id : PartId) (n : Node) (x : PartId) :
    Mirrors M Eq (resolveInputs sub id n x) (resolveInputs sub' id n x) := by
  refine mirrors_catalog.bind fun C C' alike => ?_
  rw [alike.nodeDefOf?]
  split
  · exact (mirrors_warn _).bind_same fun _ => mirrors_pure rfl
  · refine (mirrors_mapM (fun i => ?_) _).bind_same fun _ => mirrors_pure rfl
    exact (mirrors_remark _).bind_same fun _ => mirrors_within (mirrors_resolveInput hsub id n x i)

/-! ## Children -/

theorem mirrors_buildChild (id : PartId) (n : Node) : Mirrors M Eq (buildChild sub id n) (buildChild sub' id n) := by
  refine mirrors_assembly.bind fun a a' h => ?_
  rw [h.child?]
  split
  · exact mirrors_pure rfl
  · refine (mirrors_remark _).bind_same fun _ => mirrors_within ?_
    refine (mirrors_buildNode hsub n).bind_same fun res => ?_
    cases res with
    | error e => exact (mirrors_reportNode n e).bind_same fun _ => mirrors_pure rfl
    | ok x =>
        refine (mirrors_edit fun _ _ h => h.setChild id n.name x).bind_same fun _ => ?_
        exact (mirrors_resolveInputs hsub id n x).bind_same fun _ => mirrors_pure rfl

theorem mirrors_followLink (id : PartId) (consumer : Node) (x : Option PartId) (link : Option Link) :
    Mirrors M Eq (followLink sub id consumer x link) (followLink sub' id consumer x link) := by
  cases link with
  | none => exact mirrors_pure rfl
  | some link =>
      refine (mirrors_buildChild hsub id link.producer).bind_same fun ⟨producing, waiting⟩ => ?_
      cases x with
      | none => exact mirrors_pure rfl
      | some x =>
          cases producing with
          | none => exact mirrors_pure rfl
          | some producing =>
              exact (mirrors_connectPending id consumer link x producing).bind_same fun _ => mirrors_pure rfl

theorem mirrors_drain (id : PartId) (root : String) (fuel : Nat) (stack : List Pending) (found : Option PartId) :
    Mirrors M Eq (drain sub id root fuel stack found) (drain sub' id root fuel stack found) := by
  induction fuel generalizing stack found with
  | zero =>
      cases stack with
      | nil => exact mirrors_pure rfl
      | cons => exact mirrors_outOfFuel
  | succ fuel ih =>
      cases stack with
      | nil => exact mirrors_pure rfl
      | cons p stack =>
          refine (mirrors_buildChild hsub id p.consumer).bind_same fun ⟨x, waiting⟩ => ?_
          exact (mirrors_followLink hsub id p.consumer x p.link).bind_same fun _ => ih _ _

omit hsub in
theorem stackBound_alike {C C' : Catalog} (alike : C.Alike C') {g g' : Graph} (graphs : g.Alike g') :
    stackBound C' g' = stackBound C g := by
  unfold stackBound
  rw [funext alike.nodeDefOf?]
  refine graphs.perm.foldl_eq' (fun n _ m _ k => ?_) 1
  omega

theorem mirrors_childPartWith : SubMirrors M (childPartWith sub) (childPartWith sub') := by
  intro id name
  refine mirrors_asTask (mirrors_assembly.bind fun a a' h => ?_)
  obtain ⟨none, none'⟩ | ⟨k, k', some, some', twin⟩ := rel_none_or_some (h.composite? id)
  · rw [none, none']
    exact mirrors_pure rfl
  · rw [some, some']
    dsimp only
    rw [twin.child?, twin.graph.node?, twin.graph.name]
    split
    · exact mirrors_pure rfl
    · split
      · exact (mirrors_warn _).bind_same fun _ => mirrors_pure rfl
      · refine mirrors_catalog.bind fun C C' alike => ?_
        rw [stackBound_alike alike twin.graph]
        exact mirrors_drain hsub id _ _ _ _

end

theorem mirrors_childPart (fuel : Nat) : SubMirrors M (childPart fuel) (childPart fuel) := by
  induction fuel with
  | zero => exact fun _ _ => mirrors_outOfFuel
  | succ fuel ih => exact mirrors_childPartWith ih

theorem depthBound_alike {C C' : Catalog} (alike : C.Alike C') : depthBound C' = depthBound C := by
  have graphs (n : Nat) : C'.documents.foldl (fun k d => k + d.nodeGraphs.length) n =
      C.documents.foldl (fun k d => k + d.nodeGraphs.length) n := by
    have documents := alike.documents
    generalize C.documents = ds at documents
    generalize C'.documents = ds' at documents
    induction documents generalizing n with
    | nil => rfl
    | cons h _ ih => rw [List.foldl_cons, List.foldl_cons, h.graphs.length_eq, ih]
  unfold depthBound
  rw [alike.document.nodes, graphs]

/-- The resolver mirrors itself. -/
theorem mirrors_part : SubMirrors M (part (σ := σ)) part := by
  intro id name
  refine mirrors_catalog.bind fun C C' alike => ?_
  rw [depthBound_alike alike]
  exact mirrors_childPart _ id name

end MaterialGraph.Build
