import MaterialGraph.Proofs.Build.Graphs

/-!
# What resolving inputs does

The functions that resolve the inputs of a part, as runs in the composite that the part is in.

* `after_connectOutside` : an input takes an output of another graph.
* `after_connectInside` : an input takes a node of the same graph, or waits for it.
* `after_resolveInputs` : all inputs of a child. What is left waits for nodes of the graph.
-/

namespace MaterialGraph.Build

set_option autoImplicit false

open Assembly

variable {σ : Type} {W : Env σ} {c c' : Context σ} {p : Place} {sub : SubPart σ} {ph : Phase} {id x y : PartId}
  {s : Nat}

/-! ## Outputs of other graphs -/

theorem IsOutside.push {e : Event} (h : IsOutside c x) : IsOutside (c.push e) x := by
  cases h with
  | geometry known => exact .geometry known
  | graph built => exact .graph built
  | top top child => exact .top top child.push

theorem Takes.push {e : Event} (h : Takes ph id s c x) : Takes ph id s (c.push e) x := h

theorem Comments.run {α : Type} {r : LoadError → Remark} {w : LoadError → Warning} {res : Result α}
    (h : Comments (W.at p) r w res c c') : Run W ph id s c c' := by
  cases h with
  | fine => exact .refl _ _ _ _
  | remark => exact .message c (.remark _ _)
  | warning => exact .message c (.warning _)

theorem ReportsConnect.run {output : Option String} {i : Input} {made : Bool}
    (h : ReportsConnect (W.at p) x output y i c made c') (producer : IsOutside c x) (takes : Takes ph id s c y) :
    Run W ph id s c c' := by
  cases h with
  | made call => exact .outside producer takes (.of_eq call)
  | failed call =>
      have run : Run W ph id s c _ := .outside producer takes (.of_eq call)
      exact run.trans (.message _ (.warning _))

/-- To connect an input to an output of another graph is a run, and the input may belong to any part that takes
inputs. -/
theorem after_connectOutside (ph : Phase) (hsub : Sound W sub) {element i : Input} (takes : Takes ph id s c y) :
    After (connectOutside sub element y i) (W.at p) c fun _ c' => Run W ph id s c c' := by
  refine connects_connectOutside.mono fun made c' connects => ?_
  cases connects with
  | idle => exact .refl _ _ _ _
  | noGraph | noOutput | badOutput => exact .message c (.warning _)
  | badGraph _ call =>
      obtain ⟨run, -⟩ := (after_freeStandingGraph hsub).of_eq call
      exact (run ph id s).trans (.message _ (.warning _))
  | @graph graph output _ _ x _ c₁ _ _ call report =>
      obtain ⟨run, known⟩ := (after_freeStandingGraph hsub).of_eq call
      have run₂ := (run ph id s).trans (.message c₁ (.remark (W.at p).margin (.boundToGraph element.name graph output)))
      exact run₂.trans (report.run (IsOutside.graph (known x rfl)).push (takes.run run₂))
  | badNode _ call => exact ((after_topPart hsub).of_eq call).1 ph id s
  | @node output _ _ _ _ x _ c₁ _ _ call report =>
      obtain ⟨run, outside⟩ := (after_topPart hsub).of_eq call
      have run₂ := (run ph id s).trans (.message c₁ (.remark (W.at p).margin (.boundToOutput element.name output)))
      exact run₂.trans (report.run (outside x rfl).push (takes.run run₂))

theorem after_bindGeomProp (ph : Phase) {property : String} {i : Input} (takes : Takes ph id s c y) :
    After (bindGeomProp property y i) (W.at p) c fun _ c' => Run W ph id s c c' := by
  refine binds_bindGeomProp.mono fun _ c' binds => ?_
  cases binds with
  | unknown => exact .message c (.warning _)
  | failed call => exact (after_geomPart.of_eq call).1 ph id s
  | @bound x _ _ _ _ _ call connection comments =>
      obtain ⟨run, outside⟩ := after_geomPart.of_eq call
      have takes₁ := takes.run (run ph id s)
      have connected : Run W ph id s _ _ := .outside (outside x rfl) takes₁ (.of_eq connection)
      exact ((run ph id s).trans connected).trans comments.run

theorem after_bindLiteral (ph : Phase) {element i : Input} {n : Node} (takes : Takes ph id s c y) :
    After (bindLiteral element n y i) (W.at p) c fun _ c' => Run W ph id s c c' := by
  refine binds_bindLiteral.mono fun _ c' binds => ?_
  cases binds with
  | absent => exact .refl _ _ _ _
  | bound _ call comments =>
      have literal : Run W ph id s _ _ := .literal takes.push (.of_eq call)
      exact ((Run.message c (.remark _ _)).trans literal).trans comments.run

/-! ## Nodes of the same graph -/

theorem HasGraph.extends {a a' : Assembly} {g : Graph} (h : HasGraph a id g) (ha : Extends a a') :
    HasGraph a' id g := by
  obtain ⟨k, hk, rfl⟩ := h
  obtain ⟨k', hk', e⟩ := ha.composite hk
  exact ⟨k', hk', e⟩

/-- A part that was there stands for the graph for which it stood. -/
theorem Extends.hasGraph_of_lt {a a' : Assembly} {g : Graph} (ext : Extends a a') (there : id < a.size)
    (graph : HasGraph a' id g) : HasGraph a id g := by
  obtain ⟨k', composite', rfl⟩ := graph
  cases part : a.part? id with
  | none => exact absurd (part?_eq_none.1 part) (Nat.not_le_of_lt there)
  | some q =>
      cases q with
      | leaf l =>
          obtain ⟨l', leaf⟩ := ext.leaf (leaf?_eq_some.2 part)
          rw [leaf?_eq_none_of_composite? composite'] at leaf
          cases leaf
      | composite k =>
          obtain ⟨k'', composite'', same⟩ := ext.composite (composite?_eq_some.2 part)
          cases composite'.symm.trans composite''
          exact ⟨k, composite?_eq_some.2 part, same.symm⟩

/-- A connection waits for nodes of a graph, and its consumer is there. -/
structure Waits (id : PartId) (s : Nat) (g : Graph) (c : Context σ) (q : Pending) : Prop where
  consumer : g.Has q.consumer
  link : ∀ l ∈ q.link, g.Has l.producer ∧ ∃ x, Given id s c q.consumer.name x

theorem Waits.run {g : Graph} {q : Pending} {s' : Nat} (h : Waits id s g c q) (run : Run W ph id s' c c') :
    Waits id s g c' q where
  consumer := h.consumer
  link l hl :=
    let ⟨hn, x, given⟩ := h.link l hl
    ⟨hn, x, given.run run⟩

/-- How far it is to connect an input: the run that it took, and the connection that waits, if one does. -/
def Resolves (W : Env σ) (id : PartId) (s : Nat) (g : Graph) (consumer : Node) (c : Context σ) (res : Option Pending)
    (c' : Context σ) : Prop :=
  Run W .giving id s c c' ∧ ∀ q, res = some q → q.consumer = consumer ∧ ∀ l ∈ q.link, g.Has l.producer

theorem Resolves.done {g : Graph} {consumer : Node} (run : Run W .giving id s c c') :
    Resolves W id s g consumer c none c' := by
  refine ⟨run, fun q hq => ?_⟩
  cases hq

/-- The connection that waits after one way of resolving an input. -/
def Resolution.pending? : Resolution → Option Pending
  | .deferred q => some q
  | _ => none

theorem Replies.run {e : Edge} {i : Input} {res : Result Unit} {r : Resolution} {event : Event}
    (h : Replies (W.at p) e i res r event) : Run W ph id s c (c.push event) ∧ Resolution.pending? r = none := by
  cases h with
  | connected | refused => exact ⟨.message c (.remark _ _), rfl⟩
  | failed => exact ⟨.message c (.warning _), rfl⟩

theorem after_connectInside {g : Graph} {consumer : Node} {i element : Input} {name : String}
    (composite : HasGraph c.assembly id g) (given : Given id s c consumer.name y) :
    After (connectInside id g consumer y i element name) (W.at p) c fun res c' =>
      Resolves W id s g consumer c (Resolution.pending? res) c' := by
  obtain ⟨k, hk, -⟩ := composite
  have start : Run W .giving id s c (c.push (.remarked (W.at p).margin (.reference name))) := .message c (.remark _ _)
  refine connects_connectInside.mono fun res c' connects => ?_
  cases connects with
  | lost | wrong => exact .done (start.trans (.message _ (.warning _)))
  | waits found =>
      refine ⟨start, ?_⟩
      rintro q ⟨⟩
      refine ⟨rfl, ?_⟩
      rintro l ⟨⟩
      exact (mem_of_node? found).1
  | @attempt x _ _ _ _ _ c₁ _ _ there call reply =>
      have producing : Given id 0 (c.push (.remarked (W.at p).margin (.reference name))) name x :=
        ⟨there, Nat.zero_le _⟩
      have run : Run W .giving id s (c.push (.remarked (W.at p).margin (.reference name))) c₁ :=
        (after_connectChildren (c := c.push _) (e := ⟨name, consumer.name⟩) hk producing given.push).of_eq call
      obtain ⟨answered, none⟩ := reply.run (W := W) (c := c₁)
      rw [none]
      exact .done ((start.trans run).trans answered)

/-! ## Inputs -/

theorem after_effectiveInput (s : Nat) {g : Graph} {n : Node} {nd : NodeDef} {i : Input}
    (composite : HasGraph c.assembly id g) (hn : g.Has n) (there : (c.assembly.child? id n.name).isSome)
    (definition : W.catalog.nodeDefOf? n = some nd) (declared : i ∈ nd.inputs) :
    After (effectiveInput id g n i) (W.at p) c fun _ c' => Run W .giving id s c c' := by
  refine reads_effectiveInput.mono fun _ c' reads => ?_
  cases reads with
  | declared | given => exact .refl _ _ _ _
  | interface named refers => exact .socket composite hn there definition declared named refers

theorem BindsOutside.run (hsub : Sound W sub) {n : Node} {i element : Input}
    (h : BindsOutside (W.at p) sub n y i element c c') (takes : Takes .giving id s c y) : Run W .giving id s c c' := by
  cases h with
  | outside call => exact (after_connectOutside .giving hsub takes).of_eq call
  | property call _ binding =>
      have run : Run W .giving id s c _ := (after_connectOutside .giving hsub takes).of_eq call
      exact run.trans ((after_bindGeomProp .giving (takes.run run)).of_eq binding)
  | literal call binding =>
      have run : Run W .giving id s c _ := (after_connectOutside .giving hsub takes).of_eq call
      exact run.trans ((after_bindLiteral .giving (takes.run run)).of_eq binding)

theorem after_bindElement (hsub : Sound W sub) {g : Graph} {n : Node} {i element : Input}
    (composite : HasGraph c.assembly id g) (given : Given id s c n.name y) :
    After (bindElement sub id g n y i element) (W.at p) c (Resolves W id s g n c) := by
  refine binds_bindElement.mono fun res c' binds => ?_
  cases binds with
  | settled _ call => exact .done ((after_connectInside composite given).of_eq call).1
  | deferred _ call => exact (after_connectInside composite given).of_eq call
  | unsettled _ call outside =>
      obtain ⟨run, -⟩ := (after_connectInside composite given).of_eq call
      exact .done (run.trans (outside.run hsub (given.run run).takes))
  | unnamed _ outside => exact .done (outside.run hsub given.takes)

theorem after_resolveInput (hsub : Sound W sub) {g : Graph} {n : Node} {nd : NodeDef} {i : Input} (hn : g.Has n)
    (definition : W.catalog.nodeDefOf? n = some nd) (declared : i ∈ nd.inputs)
    (composite : HasGraph c.assembly id g) (there : (c.assembly.child? id n.name).isSome)
    (given : Given id s c n.name y) :
    After (resolveInput sub id n y i) (W.at p) c (Resolves W id s g n c) := by
  obtain ⟨k, hk, rfl⟩ := composite
  rw [resolveInput, after_bind, after_assembly, hk]
  dsimp only
  rw [after_bind]
  refine (after_effectiveInput s ⟨k, hk, rfl⟩ hn there definition declared).mono ?_
  intro element c₁ run₁
  have given₁ := given.run run₁
  split
  · have composite₁ : HasGraph c₁.assembly id k.graph := HasGraph.extends ⟨k, hk, rfl⟩ run₁.steps.extends
    refine (after_bindElement hsub composite₁ given₁).mono ?_
    rintro res c₂ ⟨run₂, waits⟩
    exact ⟨run₁.trans run₂, waits⟩
  · rw [after_bind]
    refine (after_bindLiteral .giving given₁.takes).mono fun _ c₂ run₂ => ?_
    exact after_pure.2 (.done (run₁.trans run₂))

/-- All inputs of a child are resolved by a run; what waits, waits for nodes of the graph. -/
theorem after_resolveInputs (hsub : Sound W sub) {g : Graph} {n : Node} (hn : g.Has n)
    (composite : HasGraph c.assembly id g) (there : (c.assembly.child? id n.name).isSome)
    (given : Given id s c n.name y) :
    After (resolveInputs sub id n y) (W.at p) c fun waiting c' =>
      Run W .giving id s c c' ∧ ∀ q ∈ waiting, Waits id s g c' q := by
  rw [resolveInputs, after_bind, after_catalog]
  split
  · rw [after_bind, after_warn, after_pure]
    exact ⟨.message c (.warning _), fun q hq => absurd hq List.not_mem_nil⟩
  · next nd definition =>
    rw [after_bind]
    have all := after_mapM (E := W.at p) (c := c) (l := nd.inputs) (I := fun c₁ => Run W .giving id s c c₁)
      (P := fun res => ∀ q, res = some q → q.consumer = n ∧ ∀ l ∈ q.link, g.Has l.producer)
      (f := fun i => do
        remark (.input i.kind i.name)
        within .input i.filePrefix (resolveInput sub id n y i))
    refine (all (fun i declared c₁ run₁ => ?_) (.refl _ _ _ _)).mono ?_
    · rw [after_bind, after_remark, after_within]
      have run₂ := run₁.trans (.message c₁ (.remark (W.at p).margin (.input i.kind i.name)))
      refine (after_resolveInput (c := c₁.push _) hsub hn definition declared (composite.extends run₂.steps.extends)
        (run₂.steps.extends.child there) (given.run run₂)).mono ?_
      rintro res c₃ ⟨run₃, waits⟩
      exact ⟨run₂.trans run₃, waits⟩
    · rintro waiting c₁ ⟨run, waits⟩
      rw [after_pure]
      refine ⟨run, fun q hq => ?_⟩
      obtain ⟨res, hres, hq⟩ := List.mem_filterMap.1 (List.mem_reverse.1 hq)
      obtain ⟨rfl, links⟩ := waits res hres q hq
      exact ⟨hn, fun l hl => ⟨links l hl, y, given.run run⟩⟩

end MaterialGraph.Build
