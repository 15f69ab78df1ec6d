import MaterialGraph.Proofs.Build.Run

/-!
# What the resolver calls

A function of the resolver asks for parts and binds inputs, by what it finds. All ways through such a function are the
constructors of a relation; what is called on a way is known by its result alone.

* `Tops`, `Opens`, `Consults` : a request for the top level, a free-standing graph, and a geometric property.
* `BuildsNode` : the part for a node.
* `Comments` : what is said of a result.
* `ConnectsOutside`, `BindsGeomProp`, `BindsLiteral` : an input that takes no node of the same graph.
* `ConnectsChildren`, `ConnectsInside` : an input that takes a node of the same graph.
* `ReadsInput`, `BindsElement` : the element that an input is bound to, and any element that can be connected.
* `BuildsChild`, `ConnectsPending` : a child, and a connection that has waited.

Whatever is said of these functions later is said of these ways.
-/

namespace MaterialGraph.Build

set_option autoImplicit false

variable {σ : Type} {E : Env σ} {c : Context σ} {sub : SubPart σ} {id y : PartId} {g : Graph} {n : Node}
  {i element : Input}

/-! ## Requests for parts -/

/-- The creation of a leaf ends in the same ways at any place. -/
theorem CreatesLeaf.of_eq {W : Env σ} {p : Place} {type : NodeType} {role : Role} {settings : List (InputKey × Bound)}
    {name : Option String} {res : Result Leaf} {c' : Context σ}
    (call : createLeaf type role settings name (W.at p) c = .ok (res, c')) :
    CreatesLeaf W.renderer type role settings name c res c' :=
  (after_createLeaf (E := W.at p)).of_eq call

/-- The composite of the top level is there, or it is added. -/
inductive Tops (E : Env σ) (c : Context σ) : PartId → Context σ → Prop
  | known {t : PartId} (top : c.assembly.top = some t) : Tops E c t c
  | added (absent : c.assembly.top = none) : Tops E c c.assembly.size
      ((c.edit (.add (.composite { graph := .document E.catalog.document }))).edit (.top c.assembly.size))

theorem tops_topComposite : After topComposite E c (Tops E c) := by
  rw [topComposite, after_bind, after_assembly]
  split
  · next top => exact after_pure.2 (.known top)
  · next absent =>
    rw [after_bind, after_catalog, after_bind, after_addComposite, after_bind, after_edit, after_pure]
    exact .added absent

/-- What a request for a free-standing graph calls, unless the graph is being built. -/
inductive Opens (E : Env σ) (sub : SubPart σ) (h : NodeGraph) (required : List Output) (c : Context σ) :
    Result PartId → Context σ → Prop
  | busy {x : PartId} (building : c.assembly.freeStanding[h.name]? = some (.building x)) :
      Opens E sub h required c (.error (.cycle ("node graph " ++ h.name ++ " depends on itself"))) c
  | call {x : PartId} {c₁ c₂ : Context σ} {outcome : Result Unit} (starts : Starts h c x c₁)
      (call : buildOutputs sub x required E c₁ = .ok (outcome, c₂)) :
      Opens E sub h required c (outcome.map fun () => x) (c₂.edit (.freeStanding h.name (.built x)))

theorem opens_freeStandingGraph {sub : SubPart σ} {h : NodeGraph} {required : List Output} :
    After (freeStandingGraph sub h required) E c (Opens E sub h required c) := by
  have started {x : PartId} {c₁ : Context σ} (starts : Starts h c x c₁) : After (do
      let outcome ← buildOutputs sub x required
      edit (.freeStanding h.name (.built x))
      pure (outcome.map fun () => x)) E c₁ (Opens E sub h required c) := by
    rw [after_bind]
    intro outcome c₂ call
    rw [after_bind, after_edit, after_pure]
    exact .call starts call
  rw [freeStandingGraph, after_bind, after_assembly]
  cases known : c.assembly.freeStanding[h.name]? with
  | none =>
      dsimp only
      rw [after_bind, after_addComposite, after_bind, after_edit]
      exact started (.first known)
  | some state =>
      cases state with
      | building x => exact after_pure.2 (.busy known)
      | built x =>
          dsimp only
          rw [after_bind, after_pure, after_bind, after_edit]
          exact started (.again known)

/-- How it ends to ask for the part that looks up a geometric property: it is known, or its leaf is made and noted,
unless that fails. A strange type is complained of first. -/
inductive Consults (E : Env σ) (g : GeomPropDef) : Context σ → Option PartId → Context σ → Prop
  | known {c : Context σ} {x : PartId} (there : c.assembly.geometry[g.name]? = some x) : Consults E g c (some x) c
  | strange {c c' : Context σ} {res : Option PartId} (absent : c.assembly.geometry[g.name]? = none)
      (rest : Consults E g (c.push (.warned (.texcoordType g.type))) res c') : Consults E g c res c'
  | unread {c : Context σ} {e : LoadError} (absent : c.assembly.geometry[g.name]? = none)
      (unread : Lookup.ofGeomProp g = .error e) : Consults E g c none (c.push (.warned (.geomProp g.name e)))
  | failed {c c₁ : Context σ} {e : LoadError} {quantity : Lookup} (absent : c.assembly.geometry[g.name]? = none)
      (call : createLeaf .inputLookup .plain [(.value, .word quantity.id)] (some g.name) E c = .ok (.error e, c₁)) :
      Consults E g c none (c₁.push (.warned (.geomProp g.name e)))
  | made {c c₁ : Context σ} {l : Leaf} {quantity : Lookup} (absent : c.assembly.geometry[g.name]? = none)
      (call : createLeaf .inputLookup .plain [(.value, .word quantity.id)] (some g.name) E c = .ok (.ok l, c₁)) :
      Consults E g c (some c₁.assembly.size)
        ((c₁.edit (.add (.leaf l))).edit (.geometry g.name c₁.assembly.size))

/-- What becomes of the leaf for a property: it is noted, or its failure is complained of. -/
def Notes (E : Env σ) (g : GeomPropDef) (c : Context σ) : Result Leaf → Context σ → Prop
  | .error e, c₁ => Consults E g c none (c₁.push (.warned (.geomProp g.name e)))
  | .ok l, c₁ =>
      Consults E g c (some c₁.assembly.size) ((c₁.edit (.add (.leaf l))).edit (.geometry g.name c₁.assembly.size))

theorem consults_note {g : GeomPropDef} {m : Build σ (Result Leaf)} (hm : After m E c (Notes E g c)) :
    After (m >>= fun leaf => match leaf with
      | .error e => do
        warn (.geomProp g.name e)
        pure none
      | .ok l => do
        let id ← addPart (.leaf l)
        edit (.geometry g.name id)
        pure (some id)) E c (Consults E g c) := by
  rw [after_bind]
  refine hm.mono fun res c₁ notes => ?_
  cases res with
  | error e =>
      dsimp only
      rw [after_bind, after_warn, after_pure]
      exact notes
  | ok l =>
      dsimp only
      rw [after_bind, after_addPart, after_bind, after_edit, after_pure]
      exact notes

theorem notes_unread {g : GeomPropDef} {e : LoadError} (absent : c.assembly.geometry[g.name]? = none)
    (unread : Lookup.ofGeomProp g = .error e) : After (pure (.error e)) E c (Notes E g c) :=
  after_pure.2 (.unread absent unread)

theorem notes_createLeaf {g : GeomPropDef} {quantity : Lookup}
    (absent : c.assembly.geometry[g.name]? = none) :
    After (createLeaf .inputLookup .plain [(.value, .word quantity.id)] (some g.name)) E c (Notes E g c) := by
  intro res c₁ call
  cases res with
  | error e => exact .failed absent call
  | ok l => exact .made absent call

theorem consults_geomPart {g : GeomPropDef} : After (geomPart g) E c (Consults E g c) := by
  rw [geomPart, after_bind, after_assembly]
  cases absent : c.assembly.geometry[g.name]? with
  | some x => exact after_pure.2 (.known absent)
  | none =>
      dsimp only
      cases read : Lookup.ofGeomProp g with
      | error e =>
          split
          · rw [after_bind, after_warn]
            exact (consults_note (notes_unread (c := c.push _) absent read)).mono fun _ _ => .strange absent
          · exact consults_note (notes_unread absent read)
      | ok quantity =>
          split
          · rw [after_bind, after_warn]
            exact (consults_note (notes_createLeaf (c := c.push _) absent)).mono fun _ _ => .strange absent
          · exact consults_note (notes_createLeaf absent)

/-- How the construction of the part for a node ends: it is a leaf, or the composite for its implementation. -/
inductive BuildsNode (E : Env σ) (sub : SubPart σ) (n : Node) (c : Context σ) : Result PartId → Context σ → Prop
  | unknown {e : LoadError} (recipe : Recipe.of n = .error e) : BuildsNode E sub n c (.error e) c
  | forward {role : Role} (recipe : Recipe.of n = .ok (.forward role)) :
      BuildsNode E sub n c (.ok c.assembly.size) (c.edit (.add (.leaf ⟨.nothing, role⟩)))
  | created {type : NodeType} {role : Role} {settings : List (InputKey × Bound)} {l : Leaf} {c₁ : Context σ}
      (recipe : Recipe.of n = .ok (.create type role settings))
      (call : createLeaf type role settings (some n.name) E c = .ok (.ok l, c₁)) :
      BuildsNode E sub n c (.ok c₁.assembly.size) (c₁.edit (.add (.leaf l)))
  | failed {type : NodeType} {role : Role} {settings : List (InputKey × Bound)} {e : LoadError} {c₁ : Context σ}
      (recipe : Recipe.of n = .ok (.create type role settings))
      (call : createLeaf type role settings (some n.name) E c = .ok (.error e, c₁)) :
      BuildsNode E sub n c (.error e) c₁
  | expanded {h : NodeGraph} {res : Result PartId} {c₁ : Context σ} (recipe : Recipe.of n = .ok .expand)
      (implementation : (E.catalog.nodeDefOf? n).bind E.catalog.implementation? = some h)
      (call : buildComposite sub (.named h) h.outputs E c = .ok (res, c₁)) : BuildsNode E sub n c res c₁
  | unexpanded (recipe : Recipe.of n = .ok .expand)
      (absent : (E.catalog.nodeDefOf? n).bind E.catalog.implementation? = none) :
      BuildsNode E sub n c (.error (.unsupported ("node " ++ n.category ++ " (" ++ n.type ++ ")"))) c

theorem builds_buildNode : After (buildNode sub n) E c (BuildsNode E sub n c) := by
  rw [buildNode]
  cases recipe : Recipe.of n with
  | error e => exact after_pure.2 (.unknown recipe)
  | ok how =>
      cases how with
      | forward role =>
          dsimp only
          rw [after_bind, after_addPart, after_pure]
          exact .forward recipe
      | create type role settings =>
          dsimp only
          rw [after_andThen]
          refine fun res c₁ call => ⟨?_, ?_⟩
          · rintro l rfl
            rw [after_bind, after_addPart, after_pure]
            exact .created recipe call
          · rintro e rfl
            exact .failed recipe call
      | expand =>
          dsimp only
          rw [after_bind, after_catalog]
          split
          · next implementation => exact fun res c₁ call => .expanded recipe implementation call
          · next absent => exact after_pure.2 (.unexpanded recipe absent)

/-! ## Comments -/

/-- What is said of a result: nothing if it is fine, else a remark or a warning about the error. -/
inductive Comments {α : Type} (E : Env σ) (r : LoadError → Remark) (w : LoadError → Warning) :
    Result α → Context σ → Context σ → Prop
  | fine (a : α) (c : Context σ) : Comments E r w (.ok a) c c
  | remark (e : LoadError) (c : Context σ) : Comments E r w (.error e) c (c.push (.remarked E.margin (r e)))
  | warning (e : LoadError) (c : Context σ) : Comments E r w (.error e) c (c.push (.warned (w e)))

theorem comments_reportNode {e : LoadError} :
    After (reportNode n e) E c fun _ c' =>
      Comments E .skipped (.node n.name n.category) (.error e : Result Unit) c c' := by
  unfold reportNode
  split
  · exact after_remark.2 (.remark _ c)
  · split
    · exact after_remark.2 (.remark _ c)
    · exact after_warn.2 (.warning _ c)

/-! ## Nodes of other graphs -/

/-- A connection is attempted, and its failure is complained of. -/
inductive ReportsConnect (E : Env σ) (x : PartId) (output : Option String) (y : PartId) (i : Input) (c : Context σ) :
    Bool → Context σ → Prop
  | made {c₁ : Context σ} (call : connect x output y i E c = .ok (.ok (), c₁)) :
      ReportsConnect E x output y i c true c₁
  | failed {e : LoadError} {c₁ : Context σ} (call : connect x output y i E c = .ok (.error e, c₁)) :
      ReportsConnect E x output y i c false (c₁.push (.warned (.binding i.name e)))

theorem reports_reportConnect {x : PartId} {output : Option String} :
    After (reportConnect x output y i) E c (ReportsConnect E x output y i c) := by
  rw [reportConnect, after_bind]
  intro res c₁ call
  cases res with
  | ok => exact after_pure.2 (.made call)
  | error e =>
      dsimp only
      rw [after_bind, after_warn, after_pure]
      exact .failed call

/-- An element names an output of a free-standing graph. -/
structure NamesGraph (cat : Catalog) (element : Input) (graph output : String) (h : NodeGraph) (o : Output) : Prop where
  named : nonEmpty element.nodeGraph = some graph
  takes : element.output? = some output
  found : cat.document.nodeGraph? graph = some h
  there : (Graph.named h).output? output = some o

/-- An element names an output of the top level, which is behind a node. -/
structure NamesTop (cat : Catalog) (element : Input) (output : String) (o : Output) (n : Node) (nd : NodeDef) :
    Prop where
  unnamed : nonEmpty element.nodeGraph = none
  takes : element.output? = some output
  producer : topProducer? cat output = some (o, n, nd)

/-- How it ends to connect an input to what an element names outside its graph. -/
inductive ConnectsOutside (E : Env σ) (sub : SubPart σ) (element : Input) (y : PartId) (i : Input) (c : Context σ) :
    Bool → Context σ → Prop
  | idle : ConnectsOutside E sub element y i c false c
  | noGraph (graph : String) : ConnectsOutside E sub element y i c false (c.push (.warned (.noGraph graph)))
  | noOutput (graph output : String) :
      ConnectsOutside E sub element y i c false (c.push (.warned (.noGraphOutput graph output)))
  | badGraph {graph output : String} {h : NodeGraph} {o : Output} {e : LoadError} {c₁ : Context σ}
      (names : NamesGraph E.catalog element graph output h o)
      (call : freeStandingGraph sub h [o] E c = .ok (.error e, c₁)) :
      ConnectsOutside E sub element y i c false (c₁.push (.warned (.failed e)))
  | graph {graph output : String} {h : NodeGraph} {o : Output} {x : PartId} {made : Bool} {c₁ c₂ : Context σ}
      (names : NamesGraph E.catalog element graph output h o)
      (call : freeStandingGraph sub h [o] E c = .ok (.ok x, c₁))
      (report : ReportsConnect E x (some output) y i
        (c₁.push (.remarked E.margin (.boundToGraph element.name graph output))) made c₂) :
      ConnectsOutside E sub element y i c made c₂
  | badOutput {output : String} {o : Output} {m : Node} {nd : NodeDef} {e : LoadError}
      (names : NamesTop E.catalog element output o m nd)
      (chosen : chooseOutput nd.type nd.outputs o.output? o.name = .error e) :
      ConnectsOutside E sub element y i c false (c.push (.warned (.failed e)))
  | badNode {output : String} {o : Output} {m : Node} {nd : NodeDef} {c₁ : Context σ}
      (names : NamesTop E.catalog element output o m nd) (call : topPart sub m E c = .ok (none, c₁)) :
      ConnectsOutside E sub element y i c false c₁
  | node {output : String} {o : Output} {m : Node} {nd : NodeDef} {chosen : Option String} {x : PartId} {made : Bool}
      {c₁ c₂ : Context σ} (names : NamesTop E.catalog element output o m nd)
      (call : topPart sub m E c = .ok (some x, c₁))
      (report : ReportsConnect E x chosen y i (c₁.push (.remarked E.margin (.boundToOutput element.name output))) made
        c₂) : ConnectsOutside E sub element y i c made c₂

theorem connects_connectGraph {graph output : String} (named : nonEmpty element.nodeGraph = some graph)
    (takes : element.output? = some output) :
    After (connectGraph sub element graph output y i) E c (ConnectsOutside E sub element y i c) := by
  rw [connectGraph, after_bind, after_catalog]
  split
  · rw [after_bind, after_warn, after_pure]
    exact .noGraph graph
  · next h found =>
    split
    · rw [after_bind, after_warn, after_pure]
      exact .noOutput graph output
    · next o there =>
      have names : NamesGraph E.catalog element graph output h o := ⟨named, takes, found, there⟩
      rw [after_bind]
      intro res c₁ call
      cases res with
      | error e =>
          dsimp only
          rw [after_bind, after_warn, after_pure]
          exact .badGraph names call
      | ok x =>
          dsimp only
          rw [after_bind, after_remark]
          exact reports_reportConnect.mono fun _ _ report => .graph names call report

theorem connects_connectTopOutput {output : String} (unnamed : nonEmpty element.nodeGraph = none)
    (takes : element.output? = some output) :
    After (connectTopOutput sub element output y i) E c (ConnectsOutside E sub element y i c) := by
  rw [connectTopOutput, after_bind, after_catalog]
  split
  · exact after_pure.2 .idle
  · next o m nd producer =>
    have names : NamesTop E.catalog element output o m nd := ⟨unnamed, takes, producer⟩
    split
    · next e chosen =>
      rw [after_bind, after_warn, after_pure]
      exact .badOutput names chosen
    · rw [after_bind]
      intro res c₁ call
      cases res with
      | none => exact after_pure.2 (.badNode names call)
      | some x =>
          dsimp only
          rw [after_bind, after_remark]
          exact reports_reportConnect.mono fun _ _ report => .node names call report

theorem connects_connectOutside :
    After (connectOutside sub element y i) E c (ConnectsOutside E sub element y i c) := by
  unfold connectOutside
  split
  · exact after_pure.2 .idle
  · next takes =>
    split
    · next named => exact connects_connectGraph named takes
    · next unnamed => exact connects_connectTopOutput unnamed takes

/-! ## Geometric properties and literals -/

/-- How it ends to bind a geometric property to an input. -/
inductive BindsGeomProp (E : Env σ) (property : String) (y : PartId) (i : Input) (c : Context σ) : Context σ → Prop
  | unknown : BindsGeomProp E property y i c (c.push (.warned (.noGeomProp property)))
  | failed {h : GeomPropDef} {c₁ : Context σ} (call : geomPart h E c = .ok (none, c₁)) :
      BindsGeomProp E property y i c c₁
  | bound {x : PartId} {h : GeomPropDef} {res : Result Unit} {c₁ c₂ c₃ : Context σ}
      (call : geomPart h E c = .ok (some x, c₁)) (connection : connect x none y i E c₁ = .ok (res, c₂))
      (comments : Comments E (.geomPropRefused property i.name) (.geomPropBinding property i.name) res c₂ c₃) :
      BindsGeomProp E property y i c c₃

theorem binds_bindGeomProp {property : String} :
    After (bindGeomProp property y i) E c fun _ c' => BindsGeomProp E property y i c c' := by
  rw [bindGeomProp, after_bind, after_catalog]
  split
  · exact after_warn.2 .unknown
  · rw [after_bind]
    intro res c₁ call
    cases res with
    | none => exact after_pure.2 (.failed call)
    | some x =>
        dsimp only
        rw [after_bind]
        intro res c₂ connection
        cases res with
        | ok => exact after_pure.2 (.bound call connection (.fine () c₂))
        | error e =>
            dsimp only
            split
            · exact after_remark.2 (.bound call connection (.remark e c₂))
            · exact after_warn.2 (.bound call connection (.warning e c₂))

/-- How it ends to bind the literal of an element to an input. -/
inductive BindsLiteral (E : Env σ) (element : Input) (n : Node) (y : PartId) (i : Input) (c : Context σ) :
    Context σ → Prop
  | absent (absent : element.value? = none) : BindsLiteral E element n y i c c
  | bound {value : String} {res : Result Unit} {c₁ c₂ : Context σ} (given : element.value? = some value)
      (call : bindInput y i (.literal value element.type) E (c.push (.remarked E.margin (.literal value))) =
        .ok (res, c₁))
      (comments : Comments E (.literalRefused n.name i.name value) (.literal n.name i.name value) res c₁ c₂) :
      BindsLiteral E element n y i c c₂

theorem binds_bindLiteral : After (bindLiteral element n y i) E c fun _ c' => BindsLiteral E element n y i c c' := by
  rw [bindLiteral]
  split
  · next absent => exact after_pure.2 (.absent absent)
  · next given =>
    rw [after_bind, after_remark, after_bind]
    intro res c₁ call
    cases res with
    | ok => exact after_pure.2 (.bound given call (.fine () c₁))
    | error e =>
        dsimp only
        split
        · exact after_remark.2 (.bound given call (.remark e c₁))
        · exact after_warn.2 (.bound given call (.warning e c₁))

/-! ## Nodes of the same graph -/

/-- How it ends to connect two children of a composite: a cycle would arise, or the connection is attempted and noted
if it is made. -/
inductive ConnectsChildren (E : Env σ) (id : PartId) (e : Edge) (x : PartId) (output : Option String) (y : PartId)
    (i : Input) (c : Context σ) : Result Unit → Context σ → Prop
  | cycle {k : Composite} (composite : c.assembly.composite? id = some k)
      (depends : k.dependsOn e.producer e.consumer = true) :
      ConnectsChildren E id e x output y i c
        (.error (.cycle (e.producer ++ " -> " ++ e.consumer ++ " in " ++ k.graph.name))) c
  | failed {error : LoadError} {c₁ : Context σ}
      (free : ∀ k, c.assembly.composite? id = some k → k.dependsOn e.producer e.consumer = false)
      (call : connect x output y i E c = .ok (.error error, c₁)) :
      ConnectsChildren E id e x output y i c (.error error) c₁
  | made {c₁ : Context σ} (free : ∀ k, c.assembly.composite? id = some k → k.dependsOn e.producer e.consumer = false)
      (call : connect x output y i E c = .ok (.ok (), c₁)) :
      ConnectsChildren E id e x output y i c (.ok ()) (c₁.edit (.edge id e))

theorem connects_andThen_edge {x : PartId} {e : Edge} {output : Option String}
    (free : ∀ k, c.assembly.composite? id = some k → k.dependsOn e.producer e.consumer = false) :
    After (andThen (connect x output y i) fun () => do
      edit (.edge id e)
      return .ok ()) E c (ConnectsChildren E id e x output y i c) := by
  rw [after_andThen]
  refine fun res c₁ call => ⟨?_, ?_⟩
  · rintro ⟨⟩ rfl
    rw [after_bind, after_edit, after_pure]
    exact .made free call
  · rintro error rfl
    exact .failed free call

theorem connects_connectChildren {x : PartId} {e : Edge} {output : Option String} :
    After (connectChildren id e x output y i) E c (ConnectsChildren E id e x output y i c) := by
  rw [connectChildren, after_bind, closesCycle, after_bind, after_assembly]
  cases composite : c.assembly.composite? id with
  | none => exact after_pure.2 (connects_andThen_edge fun k hk => by rw [composite] at hk; cases hk)
  | some k =>
      dsimp only
      cases depends : k.dependsOn e.producer e.consumer with
      | true => exact after_pure.2 (after_pure.2 (.cycle composite depends))
      | false =>
          refine after_pure.2 (connects_andThen_edge fun k' hk' => ?_)
          cases composite.symm.trans hk'
          exact depends

/-- What the attempt of a connection leads to: a message, and the choice whether another way may be tried. -/
inductive Replies (E : Env σ) (e : Edge) (i : Input) : Result Unit → Resolution → Event → Prop
  | connected : Replies E e i (.ok ()) .settled (.remarked E.margin (.connected e.producer e.consumer))
  | refused {error : LoadError} (unsupported : error.isUnsupported = true) :
      Replies E e i (.error error) .unsettled (.remarked E.margin (.refused e.producer e.consumer i.name error))
  | failed (error : LoadError) :
      Replies E e i (.error error) .settled (.warned (.connection e.producer e.consumer i.name error))

/-- How it ends to connect an input to a node of the same graph: the node or its output is lost, or the connection
waits, or it is attempted. -/
inductive ConnectsInside (E : Env σ) (id : PartId) (g : Graph) (n : Node) (y : PartId) (i element : Input)
    (name : String) (c : Context σ) : Resolution → Context σ → Prop
  | lost (absent : g.node? name = none) : ConnectsInside E id g n y i element name c .settled
      ((c.push (.remarked E.margin (.reference name))).push (.warned (.noProducer name g.name)))
  | wrong {m : Node} {e : LoadError} (found : g.node? name = some m)
      (chosen : chooseOutput m.type (((E.catalog.nodeDefOf? m).map NodeDef.outputs).getD []) element.output?
        element.name = .error e) : ConnectsInside E id g n y i element name c .settled
      ((c.push (.remarked E.margin (.reference name))).push (.warned (.failed e)))
  | waits {m : Node} {output : Option String} (found : g.node? name = some m)
      (chosen : chooseOutput m.type (((E.catalog.nodeDefOf? m).map NodeDef.outputs).getD []) element.output?
        element.name = .ok output) : ConnectsInside E id g n y i element name c (.deferred ⟨n, some ⟨i, m, output⟩⟩)
      (c.push (.remarked E.margin (.reference name)))
  | attempt {x : PartId} {m : Node} {output : Option String} {res : Result Unit} {r : Resolution} {e : Event}
      {c₁ : Context σ} (found : g.node? name = some m)
      (chosen : chooseOutput m.type (((E.catalog.nodeDefOf? m).map NodeDef.outputs).getD []) element.output?
        element.name = .ok output) (there : c.assembly.child? id name = some x)
      (call : connectChildren id ⟨name, n.name⟩ x output y i E (c.push (.remarked E.margin (.reference name))) =
        .ok (res, c₁)) (reply : Replies E ⟨name, n.name⟩ i res r e) :
      ConnectsInside E id g n y i element name c r (c₁.push e)

theorem connects_connectInside {name : String} :
    After (connectInside id g n y i element name) E c (ConnectsInside E id g n y i element name c) := by
  rw [connectInside, after_bind, after_remark]
  split
  · next absent =>
    rw [after_bind, after_warn, after_pure]
    exact .lost absent
  · next m found =>
    rw [after_bind, after_catalog]
    dsimp only
    split
    · next chosen =>
      rw [after_bind, after_warn, after_pure]
      exact .wrong found chosen
    · next output chosen =>
      rw [after_bind, after_assembly]
      split
      · exact after_pure.2 (.waits found chosen)
      · next x there =>
        rw [after_bind]
        intro res c₁ call
        cases res with
        | ok =>
            dsimp only
            rw [after_bind, after_remark, after_pure]
            exact .attempt found chosen there call .connected
        | error e =>
            dsimp only
            split
            · next unsupported =>
              rw [after_bind, after_remark, after_pure]
              exact .attempt found chosen there call (.refused unsupported)
            · rw [after_bind, after_warn, after_pure]
              exact .attempt found chosen there call (.failed e)

/-! ## Inputs -/

/-- Which element says what an input is bound to: the declared one, the one of the node, or the interface input to which
that one refers. -/
inductive ReadsInput (E : Env σ) (id : PartId) (g : Graph) (n : Node) (i : Input) (c : Context σ) :
    Input → Context σ → Prop
  | declared (absent : n.input? i.name = none) : ReadsInput E id g n i c i c
  | given {element : Input} (named : n.input? i.name = some element) (own : element.interfaceName? = none) :
      ReadsInput E id g n i c element c
  | interface {element : Input} {interface : String} (named : n.input? i.name = some element)
      (refers : element.interfaceName? = some interface) :
      ReadsInput E id g n i c (((g.nodeDef? E.catalog).bind (·.input? interface)).getD i)
        (c.edit (.socket id interface ⟨n.name, i⟩))

theorem reads_effectiveInput : After (effectiveInput id g n i) E c (ReadsInput E id g n i c) := by
  rw [effectiveInput]
  split
  · next absent => exact after_pure.2 (.declared absent)
  · next named =>
    split
    · next own => exact after_pure.2 (.given named own)
    · next refers =>
      rw [after_bind, after_edit, after_bind, after_catalog, after_pure]
      exact .interface named refers

/-- What is tried for an input that takes no node of the same graph: an output outside, and else a geometric property
or a literal. -/
inductive BindsOutside (E : Env σ) (sub : SubPart σ) (n : Node) (y : PartId) (i element : Input) (c : Context σ) :
    Context σ → Prop
  | outside {c₁ : Context σ} (call : connectOutside sub element y i E c = .ok (true, c₁)) :
      BindsOutside E sub n y i element c c₁
  | property {property : String} {c₁ c₂ : Context σ} (call : connectOutside sub element y i E c = .ok (false, c₁))
      (named : nonEmpty element.defaultGeomProp = some property)
      (binding : bindGeomProp property y i E c₁ = .ok ((), c₂)) : BindsOutside E sub n y i element c c₂
  | literal {c₁ c₂ : Context σ} (call : connectOutside sub element y i E c = .ok (false, c₁))
      (binding : bindLiteral element n y i E c₁ = .ok ((), c₂)) : BindsOutside E sub n y i element c c₂

theorem binds_outside {Q : Option Pending → Context σ → Prop}
    (ends : ∀ c', BindsOutside E sub n y i element c c' → Q none c') :
    After (connectOutside sub element y i >>= fun done =>
      if done = true then pure none else match nonEmpty element.defaultGeomProp with
        | some property => do
          bindGeomProp property y i
          pure none
        | none => do
          bindLiteral element n y i
          pure none) E c Q := by
  rw [after_bind]
  intro done c₁ call
  cases done with
  | true => exact after_pure.2 (ends c₁ (.outside call))
  | false =>
      rw [if_neg Bool.false_ne_true]
      split
      · next named =>
        rw [after_bind]
        exact fun _ c₂ binding => after_pure.2 (ends c₂ (.property call named binding))
      · rw [after_bind]
        exact fun _ c₂ binding => after_pure.2 (ends c₂ (.literal call binding))

/-- How it ends to bind an element that can be connected. -/
inductive BindsElement (E : Env σ) (sub : SubPart σ) (id : PartId) (g : Graph) (n : Node) (y : PartId)
    (i element : Input) (c : Context σ) : Option Pending → Context σ → Prop
  | settled {name : String} {c₁ : Context σ} (named : element.nodeName? = some name)
      (call : connectInside id g n y i element name E c = .ok (.settled, c₁)) :
      BindsElement E sub id g n y i element c none c₁
  | deferred {name : String} {q : Pending} {c₁ : Context σ} (named : element.nodeName? = some name)
      (call : connectInside id g n y i element name E c = .ok (.deferred q, c₁)) :
      BindsElement E sub id g n y i element c (some q) c₁
  | unsettled {name : String} {c₁ c₂ : Context σ} (named : element.nodeName? = some name)
      (call : connectInside id g n y i element name E c = .ok (.unsettled, c₁))
      (outside : BindsOutside E sub n y i element c₁ c₂) : BindsElement E sub id g n y i element c none c₂
  | unnamed {c₁ : Context σ} (unnamed : element.nodeName? = none) (outside : BindsOutside E sub n y i element c c₁) :
      BindsElement E sub id g n y i element c none c₁

theorem binds_bindElement :
    After (bindElement sub id g n y i element) E c (BindsElement E sub id g n y i element c) := by
  rw [bindElement]
  split
  · next named =>
    rw [after_bind]
    intro res c₁ call
    cases res with
    | settled => exact after_pure.2 (.settled named call)
    | deferred q => exact after_pure.2 (.deferred named call)
    | unsettled => exact binds_outside fun c₂ outside => .unsettled named call outside
  · next unnamed =>
    rw [after_bind, after_pure]
    exact binds_outside fun c₁ outside => .unnamed unnamed outside

/-! ## Children -/

/-- How it ends to build the child for a node: it is there, or it cannot be built, or it is noted and its inputs are
resolved. -/
inductive BuildsChild (E : Env σ) (sub : SubPart σ) (id : PartId) (n : Node) (c : Context σ) :
    Option PartId × List Pending → Context σ → Prop
  | there {x : PartId} (there : c.assembly.child? id n.name = some x) : BuildsChild E sub id n c (some x, []) c
  | failed {e : LoadError} {c₁ c₂ : Context σ} (absent : c.assembly.child? id n.name = none)
      (call : buildNode sub n (E.at (E.place.enter .node n.filePrefix))
        (c.push (.remarked E.margin (.node n.name n.category))) = .ok (.error e, c₁))
      (report : reportNode n e (E.at (E.place.enter .node n.filePrefix)) c₁ = .ok ((), c₂)) :
      BuildsChild E sub id n c (none, []) c₂
  | built {x : PartId} {waiting : List Pending} {c₁ c₂ : Context σ} (absent : c.assembly.child? id n.name = none)
      (call : buildNode sub n (E.at (E.place.enter .node n.filePrefix))
        (c.push (.remarked E.margin (.node n.name n.category))) = .ok (.ok x, c₁))
      (inputs : resolveInputs sub id n x (E.at (E.place.enter .node n.filePrefix)) (c₁.edit (.child id n.name x)) =
        .ok (waiting, c₂)) : BuildsChild E sub id n c (some x, waiting) c₂

theorem builds_buildChild : After (buildChild sub id n) E c (BuildsChild E sub id n c) := by
  rw [buildChild, after_bind, after_assembly]
  split
  · next there => exact after_pure.2 (.there there)
  · next absent =>
    rw [after_bind, after_remark, after_within, after_bind]
    intro res c₁ call
    cases res with
    | error e =>
        dsimp only
        rw [after_bind]
        exact fun _ c₂ report => after_pure.2 (.failed absent call report)
    | ok x =>
        dsimp only
        rw [after_bind, after_edit, after_bind]
        exact fun waiting c₂ inputs => after_pure.2 (.built absent call inputs)

/-- A connection that has waited is attempted. -/
inductive ConnectsPending (E : Env σ) (id : PartId) (n : Node) (link : Link) (y x : PartId) (c : Context σ) :
    Context σ → Prop
  | attempt {res : Result Unit} {e : Event} {c₁ : Context σ}
      (call : connectChildren id ⟨link.producer.name, n.name⟩ x link.output y link.input E c = .ok (res, c₁))
      (reply : Replies E ⟨link.producer.name, n.name⟩ link.input res .settled e) :
      ConnectsPending E id n link y x c (c₁.push e)

theorem connects_connectPending {link : Link} {x : PartId} :
    After (connectPending id n link y x) E c fun _ c' => ConnectsPending E id n link y x c c' := by
  rw [connectPending, after_bind]
  intro res c₁ call
  cases res with
  | ok => exact after_remark.2 (.attempt call .connected)
  | error e => exact after_warn.2 (.attempt call (.failed e))

end MaterialGraph.Build
