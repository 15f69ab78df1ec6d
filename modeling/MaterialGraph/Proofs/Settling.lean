import Mathlib.Data.List.Forall2
import MaterialGraph.Proofs.Fostering

/-!
# What becomes of the inputs of a child

When a child is noted, all its inputs wait. Each is settled when it is resolved, or it waits on the stack until its
producer is there.

* `Resolved` : how it ends to resolve an input that waits.
* `after_resolveInputs_stage` : what waits on the stack, once all inputs of a child have been resolved.
-/

namespace MaterialGraph

set_option autoImplicit false

open Build Assembly

/-- The inputs of the part for a node, as the definition of the node declares them. -/
def Catalog.portsOf (C : Catalog) (x : PartId) (node : Node) : List Port :=
  (((C.nodeDefOf? node).map NodeDef.inputs).getD []).map fun i => ⟨x, node, i⟩

namespace Build

variable {s : Recorder} {W : Env Recorder} {sub : SubPart Recorder} {c c₁ c' : Context Recorder} {p : Place}
  {id x producer : PartId} {n : Nat} {g : Graph} {t : Port} {us ts : List Port} {element : Input} {output : Option String}

/-- A connection that waits on the stack is one to an input that waits. -/
structure Defers (C : Catalog) (g : Graph) (q : Pending) (t : Port) : Prop where
  consumer : q.consumer = t.node
  link : ∃ l, q.link = some l ∧ l.input = t.input ∧ g.Has l.producer
  vain : t.IsVain C g

section

variable (recording : W.renderer = Recorder.renderer) (clear : W.catalog.IsClear) (hsub : Sound W sub)
  (diligent : Diligent W s sub)

include recording clear

/-! ## Outputs of other graphs -/

theorem ReportsConnect.stage {made : Bool} (h : ReportsConnect (W.at p) producer output t.part t.input c made c')
    (stage : Stage W s id n g us (t :: ts) c) (vain : t.IsVain W.catalog g) :
    Stage W s id n g us (if made then ts else t :: ts) c' := by
  cases h with
  | made call => exact (after_connect_stage stage clear recording vain).of_eq call
  | failed call =>
      have refused : Stage W s id n g us (t :: ts) _ := (after_connect_stage stage clear recording vain).of_eq call
      exact refused.message (.warning _)

omit recording clear in
theorem Comments.stage {α : Type} {r : LoadError → Remark} {w : LoadError → Warning} {res : Result α}
    (h : Comments (W.at p) r w res c c') (stage : Stage W s id n g us ts c) : Stage W s id n g us ts c' := by
  cases h with
  | fine => exact stage
  | remark => exact stage.message (.remark _ _)
  | warning => exact stage.message (.warning _)

include hsub diligent

theorem after_connectOutside_stage (stage : Stage W s id n g us (t :: ts) c) (element : Input)
    (vain : element.output? ≠ none → t.IsVain W.catalog g) :
    After (connectOutside sub element t.part t.input) (W.at p) c fun made c' =>
      Stage W s id n g us (if made then ts else t :: ts) c' := by
  have named {output : String} (takes : element.output? = some output) : t.IsVain W.catalog g := vain (by rw [takes]; nofun)
  refine connects_connectOutside.mono fun made c' connects => ?_
  cases connects with
  | idle => exact stage
  | noGraph | noOutput | badOutput => exact stage.message (.warning _)
  | badGraph _ call =>
      have cares := (after_freeStandingGraph_cares recording hsub diligent stage.proper).of_eq call
      exact (stage.fosters cares.fosters cares.proper).message (.warning _)
  | graph names call report =>
      have cares := (after_freeStandingGraph_cares recording hsub diligent stage.proper).of_eq call
      have stage₁ := stage.fosters cares.fosters cares.proper
      exact report.stage recording clear (stage₁.message (.remark _ _)) (named names.takes)
  | badNode _ call =>
      have cares := (after_topPart_cares recording hsub diligent stage.proper).of_eq call
      exact stage.fosters cares.fosters cares.proper
  | node names call report =>
      have cares := (after_topPart_cares recording hsub diligent stage.proper).of_eq call
      have stage₁ := stage.fosters cares.fosters cares.proper
      exact report.stage recording clear (stage₁.message (.remark _ _)) (named names.takes)

omit hsub diligent

/-! ## Geometric properties and literals -/

theorem after_bindGeomProp_stage {property : String} (stage : Stage W s id n g us (t :: ts) c)
    (vain : t.IsVain W.catalog g) :
    After (bindGeomProp property t.part t.input) (W.at p) c fun _ c' => Stage W s id n g us ts c' := by
  refine binds_bindGeomProp.mono fun _ c' binds => ?_
  cases binds with
  | unknown => exact (stage.message (.warning _)).giveUp vain
  | failed call =>
      have cares := (after_geomPart_cares recording stage.proper).of_eq call
      exact (stage.fosters cares.fosters cares.proper).giveUp vain
  | @bound _ _ res _ c₂ _ call connection comments =>
      have cares := (after_geomPart_cares recording stage.proper).of_eq call
      have stage₁ := stage.fosters cares.fosters cares.proper
      have stage₂ := (after_connect_stage stage₁ clear recording vain).of_eq connection
      cases res with
      | ok => exact comments.stage stage₂
      | error e =>
          have refused : Stage W s id n g us (t :: ts) c₂ := stage₂
          exact (comments.stage refused).giveUp vain

/-- A literal is the last that is tried. -/
theorem after_bindLiteral_stage (stage : Stage W s id n g us (t :: ts) c) :
    After (bindLiteral (W.catalog.elementOf g t.node t.input) t.node t.part t.input) (W.at p) c fun _ c' =>
      Stage W s id n g us ts c' := by
  have mem : t ∈ us ++ t :: ts := Stage.mem_waiting
  refine binds_bindLiteral.mono fun _ c' binds => ?_
  cases binds with
  | absent absent =>
      refine stage.giveUp fun value literal => ?_
      have given := literal.value
      rw [absent] at given
      cases given
  | @bound value _ c₂ _ given call comments =>
      have stage₁ := stage.message (.remark (W.at p).margin (.literal value))
      obtain ⟨spreads, pervades⟩ := (after_bindInput_pervades (E := W.at p) (c := c.push _) recording
        stage₁.proper.keeps stage₁.proper.equipped (stage₁.isOf mem).isIn.isChild).of_eq call
      have bound := stage₁.spreads (E := W.at p) mem clear recording spreads
      have here : IsGiven W.catalog g c₂ t := by
        intro value' v literal floats
        cases given.symm.trans literal.value
        exact pervades _ (.literal floats) (by rintro ⟨_, ⟨⟩⟩)
      exact comments.stage (bound.settle here fun _ connected => (bound.tended.waiting mem _ connected).elim)

/-! ## Nodes of the same graph -/

theorem after_connectChildren_stage {e : Edge} (stage : Stage W s id n g us (t :: ts) c) (vain : t.IsVain W.catalog g) :
    After (connectChildren id e producer output t.part t.input) (W.at p) c fun res c' =>
      Stage W s id n g us (if res.isOk then ts else t :: ts) c' := by
  refine connects_connectChildren.mono fun res c' connects => ?_
  cases connects with
  | cycle => exact stage
  | failed _ call => exact (after_connect_stage stage clear recording vain).of_eq call
  | made _ call =>
      have stage₁ : Stage W s id n g us ts _ := (after_connect_stage stage clear recording vain).of_eq call
      exact stage₁.edge e

/-- How it ends to connect an input that waits to a node of the same graph. -/
inductive Tries (W : Env Recorder) (s : Recorder) (id : PartId) (n : Nat) (g : Graph) (t : Port) (us ts : List Port) :
    Resolution → Context Recorder → Prop
  | settled {c : Context Recorder} (stage : Stage W s id n g us ts c) : Tries W s id n g t us ts .settled c
  | deferred {c : Context Recorder} {q : Pending} (stage : Stage W s id n g us (t :: ts) c)
      (defers : Defers W.catalog g q t) :
      Tries W s id n g t us ts (.deferred q) c
  | unsettled {c : Context Recorder} (stage : Stage W s id n g us (t :: ts) c) : Tries W s id n g t us ts .unsettled c

theorem after_connectInside_stage {name : String} (stage : Stage W s id n g us (t :: ts) c) (vain : t.IsVain W.catalog g) :
    After (connectInside id g t.node t.part t.input element name) (W.at p) c (Tries W s id n g t us ts) := by
  have stage₁ := stage.message (.remark (W.at p).margin (.reference name))
  refine connects_connectInside.mono fun res c' connects => ?_
  cases connects with
  | lost | wrong => exact .settled ((stage₁.message (.warning _)).giveUp vain)
  | waits found => exact .deferred stage₁ ⟨rfl, ⟨_, rfl, rfl, (mem_of_node? found).1⟩, vain⟩
  | @attempt _ _ _ _ _ _ c₁ _ _ _ call reply =>
      have stage₂ := (after_connectChildren_stage (c := c.push _) recording clear stage₁ vain).of_eq call
      cases reply with
      | connected =>
          have made : Stage W s id n g us ts c₁ := stage₂
          exact .settled (made.message (.remark _ _))
      | refused =>
          have refused : Stage W s id n g us (t :: ts) c₁ := stage₂
          exact .unsettled (refused.message (.remark _ _))
      | failed =>
          have refused : Stage W s id n g us (t :: ts) c₁ := stage₂
          exact .settled ((refused.message (.warning _)).giveUp vain)

/-! ## Inputs -/

omit clear in
theorem after_effectiveInput_stage (stage : Stage W s id n g (t :: us) ts c) :
    After (effectiveInput id g t.node t.input) (W.at p) c fun element c' =>
      element = W.catalog.elementOf g t.node t.input ∧ Stage W s id n g us (t :: ts) c' := by
  refine after_effectiveInput_eq.and (reads_effectiveInput.mono fun element c' reads => ?_)
  cases reads with
  | declared absent => exact stage.read fun element interface named => by cases absent.symm.trans named
  | given there own =>
      refine stage.read fun element interface named refers => ?_
      cases there.symm.trans named
      cases own.symm.trans refers
  | interface there refers =>
      refine (stage.socket List.mem_cons_self there refers recording).read fun element interface named refers' => ?_
      cases there.symm.trans named
      cases refers.symm.trans refers'
      exact List.mem_cons_self

/-- How it ends to resolve an input that waits: it waits no more, or a connection waits on the stack. -/
inductive Resolved (W : Env Recorder) (s : Recorder) (id : PartId) (n : Nat) (g : Graph) (t : Port) (us ts : List Port) :
    Option Pending → Context Recorder → Prop
  | settled {c : Context Recorder} (stage : Stage W s id n g us ts c) : Resolved W s id n g t us ts none c
  | deferred {c : Context Recorder} {q : Pending} (stage : Stage W s id n g us (t :: ts) c)
      (defers : Defers W.catalog g q t) :
      Resolved W s id n g t us ts (some q) c

include hsub diligent

theorem BindsOutside.stage
    (h : BindsOutside (W.at p) sub t.node t.part t.input (W.catalog.elementOf g t.node t.input) c c')
    (stage : Stage W s id n g us (t :: ts) c) : Stage W s id n g us ts c' := by
  have vainOutput : (W.catalog.elementOf g t.node t.input).output? ≠ none → t.IsVain W.catalog g :=
    fun named value literal => named literal.output
  cases h with
  | outside call => exact (after_connectOutside_stage recording clear hsub diligent stage _ vainOutput).of_eq call
  | property call named binding =>
      have vain : t.IsVain W.catalog g := fun value literal => by cases literal.geomProp.symm.trans named
      have stage₁ : Stage W s id n g us (t :: ts) _ :=
        (after_connectOutside_stage recording clear hsub diligent stage _ vainOutput).of_eq call
      exact (after_bindGeomProp_stage recording clear stage₁ vain).of_eq binding
  | literal call binding =>
      have stage₁ : Stage W s id n g us (t :: ts) _ :=
        (after_connectOutside_stage recording clear hsub diligent stage _ vainOutput).of_eq call
      exact (after_bindLiteral_stage recording clear stage₁).of_eq binding

theorem after_bindElement_stage (stage : Stage W s id n g us (t :: ts) c) :
    After (bindElement sub id g t.node t.part t.input (W.catalog.elementOf g t.node t.input)) (W.at p) c
      (Resolved W s id n g t us ts) := by
  have vain {name : String} (named : (W.catalog.elementOf g t.node t.input).nodeName? = some name) :
      t.IsVain W.catalog g := fun value literal => by cases literal.nodeName.symm.trans named
  refine binds_bindElement.mono fun res c' binds => ?_
  cases binds with
  | settled named call =>
      cases (after_connectInside_stage recording clear stage (vain named)).of_eq call with
      | settled stage₁ => exact .settled stage₁
  | deferred named call =>
      cases (after_connectInside_stage recording clear stage (vain named)).of_eq call with
      | deferred stage₁ defers => exact .deferred stage₁ defers
  | unsettled named call outside =>
      cases (after_connectInside_stage recording clear stage (vain named)).of_eq call with
      | unsettled stage₁ => exact .settled (outside.stage recording clear hsub diligent stage₁)
  | unnamed _ outside => exact .settled (outside.stage recording clear hsub diligent stage)

theorem after_resolveInput_stage (stage : Stage W s id n g (t :: us) ts c) :
    After (resolveInput sub id t.node t.part t.input) (W.at p) c (Resolved W s id n g t us ts) := by
  obtain ⟨k, composite, rfl⟩ := stage.graph
  rw [resolveInput, after_bind, after_assembly, composite]
  dsimp only
  rw [after_bind]
  refine (after_effectiveInput_stage recording stage).mono ?_
  rintro element c₁ ⟨rfl, stage₁⟩
  split
  · exact after_bindElement_stage recording clear hsub diligent stage₁
  · rw [after_bind]
    exact (after_bindLiteral_stage recording clear stage₁).mono fun _ _ stage₂ => after_pure.2 (.settled stage₂)

/-! ## All inputs of a child -/

/-- Inputs that wait are resolved one after the other, and for those that still wait there are connections that
wait. -/
theorem after_mapM_stage {node : Node} {is : List Input}
    (stage : Stage W s id n g (is.map fun i => ⟨x, node, i⟩) ts c) :
    After (is.mapM fun i => do
      remark (.input i.kind i.name)
      within .input i.filePrefix (resolveInput sub id node x i)) (W.at p) c fun found c' =>
        ∃ us, List.Forall₂ (Defers W.catalog g) (found.filterMap fun q => q) us ∧ Stage W s id n g [] (us ++ ts) c' := by
  induction is generalizing c ts with
  | nil =>
      rw [List.mapM_nil, after_pure]
      exact ⟨[], .nil, stage⟩
  | cons i is ih =>
      rw [List.mapM_cons, after_bind, after_bind, after_remark, after_within]
      have begun := stage.message (.remark (W.at p).margin (.input i.kind i.name))
      refine (after_resolveInput_stage (t := ⟨x, node, i⟩) recording clear hsub diligent begun).mono ?_
      rintro res c₁ resolved
      rw [after_bind]
      cases resolved with
      | settled stage₁ =>
          refine (ih stage₁).mono ?_
          rintro found c₂ ⟨us, defers, stage₂⟩
          exact after_pure.2 ⟨us, defers, stage₂⟩
      | @deferred _ q stage₁ first =>
          refine (ih stage₁).mono ?_
          rintro found c₂ ⟨us, defers, stage₂⟩
          exact after_pure.2 ⟨⟨x, node, i⟩ :: us, .cons first defers, stage₂.perm List.perm_middle⟩

/-- Once all inputs of a child have been resolved, those that still wait do so on the stack. -/
theorem after_resolveInputs_stage {node : Node} (stage : Stage W s id n g (W.catalog.portsOf x node) ts c) :
    After (resolveInputs sub id node x) (W.at p) c fun waiting c' =>
      ∃ us, List.Forall₂ (Defers W.catalog g) waiting us ∧ Stage W s id n g [] (us ++ ts) c' := by
  rw [resolveInputs, after_bind, after_catalog]
  split
  · next undefined =>
    have none : W.catalog.portsOf x node = [] := by
      rw [Catalog.portsOf, show W.catalog.nodeDefOf? node = none from undefined]
      rfl
    rw [none] at stage
    rw [after_bind, after_warn, after_pure]
    exact ⟨[], .nil, stage.message (.warning _)⟩
  · next nd definition =>
    have all : W.catalog.portsOf x node = nd.inputs.map fun i => ⟨x, node, i⟩ := by
      rw [Catalog.portsOf, show W.catalog.nodeDefOf? node = some nd from definition]
      rfl
    rw [all] at stage
    rw [after_bind]
    refine (after_mapM_stage recording clear hsub diligent stage).mono ?_
    rintro found c₁ ⟨us, defers, stage₁⟩
    exact after_pure.2 ⟨us.reverse, List.forall₂_reverse_iff.2 defers,
      stage₁.perm ((List.reverse_perm us).symm.append_right ts)⟩

end

end Build

end MaterialGraph
