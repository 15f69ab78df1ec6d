import MaterialGraph.Proofs.Build.Binding

/-!
# What asking for parts does

The functions that ask for the parts of a graph, as runs. They are written for any way `sub` to get a part that is
`Sound`: it gives a child and leaves a run, or it gives none and leaves nothing but what a failed construction leaves.

* `after_buildOutputs`, `after_buildComposite` : the nodes behind outputs.
* `after_topPart`, `after_freeStandingGraph`, `after_geomPart` : parts that are not of the graph of a consumer.
* `after_buildNode` : the part for a node, without its inputs.
-/

namespace MaterialGraph.Build

set_option autoImplicit false

open Assembly

variable {σ : Type} {W : Env σ} {c c' : Context σ} {p : Place} {sub : SubPart σ}

/-! ## Asking for a child -/

/-- How it ends to ask a composite for a child. -/
inductive Gives (W : Env σ) (id : PartId) (name : String) (c : Context σ) : Option PartId → Context σ → Prop
  | child {x : PartId} {c₁ : Context σ}
      (run : Run W .giving id c.assembly.size (c.edit (.began (.child id name))) c₁) (given : Given id 0 c₁ name x)
      (asks : Requests W id name c (c₁.edit (.ended (.child id name) true))) :
      Gives W id name c (some x) (c₁.edit (.ended (.child id name) true))
  | nothing {c₁ : Context σ} (barren : Barren W.renderer c c₁) : Gives W id name c none c₁

def Sound (W : Env σ) (sub : SubPart σ) : Prop := ∀ p id name c, After (sub id name) (W.at p) c (Gives W id name c)

/-- A child that is given before a task ends is there after it. -/
theorem Given.ended {id j x : PartId} {s : Nat} {name n : String} {success : Bool} (hg : Given id s c name x) :
    Given id s (c.edit (.ended (.child j n) success)) name x :=
  hg

theorem Given.push {id x : PartId} {s : Nat} {name : String} {e : Event} (hg : Given id s c name x) :
    Given id s (c.push e) name x :=
  hg

theorem Gives.run {id : PartId} {s : Nat} {name : String} {res : Option PartId} (h : Gives W id name c res c') :
    Run W .asking id s c c' := by
  cases h with
  | child run _ asks => exact .task run asks
  | nothing barren => exact .barren barren

/-! ## Outputs -/

theorem after_buildOutput (hsub : Sound W sub) {id : PartId} {s : Nat} {g : Graph} {o : Output} :
    After (buildOutput sub id g o) (W.at p) c fun built c' =>
      Run W .asking id s c c' ∧ (built = false → Barren W.renderer c c') := by
  rw [buildOutput, after_bind, after_remark, after_bind]
  refine (hsub p id _ _).mono ?_
  intro res c₁ gives
  have start : Run W .asking id s c (c.push (.remarked (W.at p).margin (.output o.name (o.nodeName?.getD "")))) :=
    .message c (.remark _ _)
  cases gives with
  | child run _ asks =>
      rw [after_pure]
      exact ⟨start.trans (.task run asks), nofun⟩
  | nothing barren =>
      dsimp only
      rw [after_bind, after_warn, after_pure]
      have fails : Barren W.renderer c (c₁.push (.warned (.outputNode (o.nodeName?.getD "") o.name g.name))) :=
        (Barren.message c (.remark _ _)).trans (barren.trans (.message c₁ (.warning _)))
      exact ⟨.barren fails, fun _ => fails⟩

/-- The nodes behind outputs are built one after the other; if there is none, nothing has been built. -/
theorem after_mapM_buildOutput (hsub : Sound W sub) {id : PartId} {s : Nat} {g : Graph} {required : List Output} :
    After (required.mapM (buildOutput sub id g)) (W.at p) c fun built c' =>
      Run W .asking id s c c' ∧ (built.contains true = false → Barren W.renderer c c') := by
  induction required generalizing c with
  | nil =>
      rw [List.mapM_nil, after_pure]
      exact ⟨.refl _ _ _ _, fun _ => .refl _⟩
  | cons o required ih =>
      rw [List.mapM_cons, after_bind]
      refine (after_buildOutput (s := s) hsub).mono ?_
      rintro first c₁ ⟨run₁, barren₁⟩
      rw [after_bind]
      refine ih.mono ?_
      rintro rest c₂ ⟨run₂, barren₂⟩
      rw [after_pure]
      refine ⟨run₁.trans run₂, fun none => ?_⟩
      rw [List.contains_cons, Bool.or_eq_false_iff] at none
      have hfirst : first = false := by
        cases first with
        | false => rfl
        | true => exact absurd none.1 (by decide)
      exact (barren₁ hfirst).trans (barren₂ none.2)

/-- How it ends to ask a composite for the nodes behind outputs. -/
def Fills (W : Env σ) (id : PartId) (s : Nat) (c : Context σ) (res : Result Unit) (c' : Context σ) : Prop :=
  Run W .asking id s c c' ∧ (res.isOk = false → Barren W.renderer c c')

theorem after_buildOutputs (hsub : Sound W sub) {id : PartId} {s : Nat} {required : List Output} :
    After (buildOutputs sub id required) (W.at p) c (Fills W id s c) := by
  rw [buildOutputs, after_bind, after_assembly]
  split
  · exact after_pure.2 ⟨.refl _ _ _ _, fun _ => .refl _⟩
  · next k _ =>
    dsimp only
    rw [after_bind, after_remark, after_within, after_bind]
    refine (after_mapM_buildOutput (c := c.push _) (s := s) hsub).mono ?_
    rintro built c₁ ⟨run, barren⟩
    rw [after_pure]
    have start : Barren W.renderer c (c.push (.remarked (W.at p).margin (.graph k.graph.name))) := .message c (.remark _ _)
    refine ⟨(Run.barren start).trans run, fun failed => start.trans (barren ?_)⟩
    cases none : built.contains true with
    | false => rfl
    | true =>
        rw [if_pos none] at failed
        cases failed

/-- How the construction of a composite for a graph ends. -/
inductive Composes (W : Env σ) (g : Graph) (c : Context σ) : Result PartId → Context σ → Prop
  | done {c₁ : Context σ}
      (inner : Run W .asking c.assembly.size c.assembly.size (c.edit (.add (.composite { graph := g }))) c₁) :
      Composes W g c (.ok c.assembly.size) c₁
  | failed {e : LoadError} {c₁ : Context σ} (barren : Barren W.renderer c c₁) : Composes W g c (.error e) c₁

theorem after_buildComposite (hsub : Sound W sub) {g : Graph} {required : List Output} :
    After (buildComposite sub g required) (W.at p) c (Composes W g c) := by
  rw [buildComposite, after_bind, after_addComposite, after_andThen]
  refine (after_buildOutputs (s := c.assembly.size) hsub).mono ?_
  rintro res c₁ ⟨run, barren⟩
  refine ⟨fun _ _ => ?_, fun e he => ?_⟩
  · rw [after_pure]
    exact .done run
  · rw [he] at barren
    exact .failed ((Barren.composite c g).trans (barren rfl))

/-! ## Parts outside the graph of a consumer -/

/-- How it ends to ask for something outside the graph of a consumer: whatever composite the run is in, it is a run
there. -/
def Reaches (W : Env σ) (c : Context σ) (res : Option PartId) (c' : Context σ) : Prop :=
  (∀ ph id s, Run W ph id s c c') ∧ ∀ x, res = some x → IsOutside c' x

theorem after_topComposite :
    After topComposite (W.at p) c fun t c₁ => c₁.assembly.top = some t ∧ ∀ ph id s, Run W ph id s c c₁ := by
  refine tops_topComposite.mono fun t c₁ tops => ?_
  cases tops with
  | known top => exact ⟨top, fun _ _ _ => .refl _ _ _ _⟩
  | added absent => exact ⟨rfl, fun _ _ _ => .top absent⟩

theorem after_topPart (hsub : Sound W sub) {n : Node} : After (topPart sub n) (W.at p) c (Reaches W c) := by
  rw [topPart, after_bind, after_catalog]
  dsimp only
  rw [after_bind]
  refine after_topComposite.mono ?_
  rintro t c₁ ⟨top, run₁⟩
  rw [after_within]
  refine (hsub _ t n.name c₁).mono ?_
  intro res c₂ gives
  cases gives with
  | @child x c₂ run given asks =>
      refine ⟨fun ph id s => (run₁ ph id s).trans (.viaTop top run asks), ?_⟩
      rintro x ⟨⟩
      exact .top (run.steps.extends.top top) given.ended
  | nothing barren => exact ⟨fun ph id s => (run₁ ph id s).trans (.barren barren), nofun⟩

def ReachesGraph (W : Env σ) (g : NodeGraph) (c : Context σ) (res : Result PartId) (c' : Context σ) : Prop :=
  (∀ ph id s, Run W ph id s c c') ∧ ∀ x, res = .ok x → c'.assembly.freeStanding[g.name]? = some (.built x)

theorem Starts.size_le {g : NodeGraph} {x : PartId} (h : Starts g c x c') : c.assembly.size ≤ c'.assembly.size := by
  cases h with
  | first =>
      rw [Context.edit_assembly, size_freeStanding, Context.edit_assembly, size_add]
      exact Nat.le_succ _
  | again => exact Nat.le_refl _

theorem after_buildStarted (hsub : Sound W sub) {g : NodeGraph} {x : PartId} {required : List Output}
    (starts : Starts g c x c') :
    After (buildOutputs sub x required) (W.at p) c' fun res c₂ =>
      ReachesGraph W g c (res.map fun () => x) (c₂.edit (.freeStanding g.name (.built x))) := by
  refine (after_buildOutputs (s := c.assembly.size) hsub).mono ?_
  rintro res c₂ ⟨run, -⟩
  refine ⟨fun ph id s => .viaGraph starts run, fun y hy => ?_⟩
  cases res with
  | error => cases hy
  | ok =>
      cases hy
      exact Std.TreeMap.getElem?_insert_self

theorem after_freeStandingGraph (hsub : Sound W sub) {g : NodeGraph} {required : List Output} :
    After (freeStandingGraph sub g required) (W.at p) c (ReachesGraph W g c) := by
  refine opens_freeStandingGraph.mono fun res c' opens => ?_
  cases opens with
  | busy => exact ⟨fun _ _ _ => .refl _ _ _ _, nofun⟩
  | call starts call => exact (after_buildStarted hsub starts).of_eq call

theorem after_geomPart {g : GeomPropDef} : After (geomPart g) (W.at p) c (Reaches W c) := by
  refine consults_geomPart.mono fun res c' consults => ?_
  induction consults with
  | known there =>
      refine ⟨fun _ _ _ => .refl _ _ _ _, ?_⟩
      rintro _ ⟨⟩
      exact .geometry there
  | strange _ _ ih => exact ⟨fun ph id s => (Run.message _ (.warning _)).trans (ih.1 ph id s), ih.2⟩
  | unread => exact ⟨fun _ _ _ => .message _ (.warning _), nofun⟩
  | @failed c c₁ e quantity _ call =>
      have fails : Barren W.renderer c c₁ := .failed (fixed_ofLookup quantity) (.of_eq call)
      exact ⟨fun ph id s => (Run.barren fails).trans (.message c₁ (.warning _)), nofun⟩
  | @made c c₁ l quantity absent call =>
      refine ⟨fun _ _ _ => .geometry absent (.of_eq call), ?_⟩
      rintro _ ⟨⟩
      exact .geometry Std.TreeMap.getElem?_insert_self

/-! ## Nodes -/

/-- How the construction of the part for a node ends. -/
inductive Makes (W : Env σ) (n : Node) (c : Context σ) : Result PartId → Context σ → Prop
  | leaf {l : Leaf} {c₁ : Context σ} (makes : MakesLeaf W.renderer n c l c₁) :
      Makes W n c (.ok c₁.assembly.size) (c₁.edit (.add (.leaf l)))
  | composite {g : NodeGraph} {c₁ : Context σ} (recipe : Recipe.of n = .ok .expand)
      (implementation : (W.catalog.nodeDefOf? n).bind W.catalog.implementation? = some g)
      (inner : Run W .asking c.assembly.size c.assembly.size (c.edit (.add (.composite { graph := .named g }))) c₁) :
      Makes W n c (.ok c.assembly.size) c₁
  | failed {e : LoadError} {c₁ : Context σ} (barren : Barren W.renderer c c₁) : Makes W n c (.error e) c₁

theorem after_buildNode (hsub : Sound W sub) {n : Node} : After (buildNode sub n) (W.at p) c (Makes W n c) := by
  refine builds_buildNode.mono fun res c₁ builds => ?_
  cases builds with
  | unknown | unexpanded => exact .failed (.refl _)
  | forward recipe => exact .leaf (.forward recipe)
  | created recipe call => exact .leaf (.create recipe (.of_eq call))
  | failed recipe call => exact .failed (.failed (fixed_of_recipe recipe) (.of_eq call))
  | expanded recipe implementation call =>
      cases (after_buildComposite hsub).of_eq call with
      | done inner => exact .composite recipe implementation inner
      | failed barren => exact .failed barren

end MaterialGraph.Build
