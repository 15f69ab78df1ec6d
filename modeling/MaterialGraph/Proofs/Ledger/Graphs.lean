import MaterialGraph.Proofs.Ledger.Basic

/-!
# Ledgers of graphs

The functions that ask for parts outside the graph of a consumer leave nothing due, if the way in which they ask for
parts leaves nothing due.

* `aside_*` : what has nothing to do with children.
* `Accounts` : a way to get parts leaves nothing due.
* `balances_buildNode` : the part for a node, without its inputs.
* `balances_connectOutside` : an element takes an output of another graph.
-/

namespace MaterialGraph.Build

set_option autoImplicit false

open Assembly

variable {σ : Type} {W : Env σ} {c c₁ c' : Context σ} {p : Place} {sub : SubPart σ} {id x y : PartId} {g : Graph}
  {n : Node} {i element : Input}

/-! ## Parts, properties and literals -/

theorem Comments.aside {α : Type} {r : LoadError → Remark} {w : LoadError → Warning} {res : Result α}
    (h : Comments (W.at p) r w res c c') (remarks : ∀ e, (Event.remarked (W.at p).margin (r e)).IsAside)
    (warnings : ∀ e, (Event.warned (w e)).IsAside) : Aside c c' := by
  cases h with
  | fine => exact .refl c
  | remark e => exact .event rfl (remarks e)
  | warning e => exact .event rfl (warnings e)

theorem ReportsConnect.aside {output : Option String} {made : Bool}
    (h : ReportsConnect (W.at p) x output y i c made c') : Aside c c' := by
  cases h with
  | made call => exact aside_connect.of_eq call
  | failed call =>
      have connected := aside_connect.of_eq call
      exact connected.push trivial

theorem ReportsConnect.steps {output : Option String} {made : Bool}
    (h : ReportsConnect (W.at p) x output y i c made c') : Steps W.renderer c c' := by
  cases h with
  | made call => exact (after_connect.of_eq call).steps
  | failed call => exact (after_connect.of_eq call).steps.tail (.message (.warning _))

theorem aside_createLeaf {type : NodeType} {role : Role} {settings : List (InputKey × Bound)} {name : Option String} :
    After (createLeaf type role settings name) (W.at p) c fun _ c' => Aside c c' :=
  after_createLeaf.mono fun _ _ creation => creation.handiwork.aside

theorem aside_geomPart {property : GeomPropDef} : After (geomPart property) (W.at p) c fun _ c' => Aside c c' := by
  refine consults_geomPart.mono fun res c' consults => ?_
  induction consults with
  | known => exact .refl _
  | @strange c _ _ _ _ ih =>
      have strange : Aside c (c.push (.warned (.texcoordType property.type))) := .event rfl trivial
      exact strange.trans ih
  | unread => exact .event rfl trivial
  | failed _ call =>
      have made := aside_createLeaf.of_eq call
      exact made.push trivial
  | @made c c₁ l quantity _ call =>
      have made := aside_createLeaf.of_eq call
      exact (made.edit (e := .add (.leaf l)) trivial).edit trivial

theorem aside_bindGeomProp {property : String} :
    After (bindGeomProp property y i) (W.at p) c fun _ c' => Aside c c' := by
  refine binds_bindGeomProp.mono fun _ c' binds => ?_
  cases binds with
  | unknown => exact .event rfl trivial
  | failed call => exact aside_geomPart.of_eq call
  | bound call connection comments =>
      exact ((aside_geomPart.of_eq call).trans (aside_connect.of_eq connection)).trans
        (comments.aside (fun _ => trivial) fun _ => trivial)

theorem aside_bindLiteral : After (bindLiteral element n y i) (W.at p) c fun _ c' => Aside c c' := by
  refine binds_bindLiteral.mono fun _ c' binds => ?_
  cases binds with
  | absent => exact .refl c
  | @bound value _ _ _ _ call comments =>
      have begun : Aside c (c.push (.remarked (W.at p).margin (.literal value))) := .event rfl trivial
      exact (begun.trans (aside_bindInput.of_eq call)).trans (comments.aside (fun _ => trivial) fun _ => trivial)

theorem aside_effectiveInput : After (effectiveInput id g n i) (W.at p) c fun _ c' => Aside c c' := by
  refine reads_effectiveInput.mono fun _ c' reads => ?_
  cases reads with
  | declared | given => exact .refl c
  | interface => exact .event rfl trivial

theorem aside_reportNode {e : LoadError} : After (reportNode n e) (W.at p) c fun _ c' => Aside c c' :=
  comments_reportNode.mono fun _ _ comments => comments.aside (fun _ => trivial) fun _ => trivial

theorem aside_topComposite : After topComposite (W.at p) c fun _ c' => Aside c c' := by
  refine tops_topComposite.mono fun t c' tops => ?_
  cases tops with
  | known => exact .refl c
  | added =>
      have added : Aside c (c.edit (.add (.composite { graph := .document W.catalog.document }))) := .event rfl trivial
      exact added.edit trivial

theorem Starts.aside {h : NodeGraph} (starts : Starts h c x c') : Aside c c' := by
  cases starts with
  | first =>
      have added : Aside c (c.edit (.add (.composite { graph := .named h }))) := .event rfl trivial
      exact added.edit trivial
  | again => exact .event rfl trivial

/-! ## Asking for parts -/

def Accounts (W : Env σ) (sub : SubPart σ) : Prop :=
  ∀ p id name c, After (sub id name) (W.at p) c fun _ c' => Balances W [] [] c c'

section

variable (accounts : Accounts W sub)

include accounts

theorem balances_buildOutput {o : Output} :
    After (buildOutput sub id g o) (W.at p) c fun _ c' => Balances W [] [] c c' := by
  rw [buildOutput, after_bind, after_remark, after_bind]
  have begun : Balances W [] [] c (c.push (.remarked (W.at p).margin (.output o.name (o.nodeName?.getD "")))) :=
    (Balances.refl [] c).push (.remark _ _) trivial
  refine (accounts p id _ _).mono fun res c₁ asked => ?_
  have both := begun.trans asked
  cases res with
  | some => exact after_pure.2 both
  | none =>
      dsimp only
      rw [after_bind, after_warn, after_pure]
      exact both.push (.warning _) trivial

theorem balances_buildOutputs {required : List Output} :
    After (buildOutputs sub id required) (W.at p) c fun _ c' => Balances W [] [] c c' := by
  rw [buildOutputs, after_bind, after_assembly]
  split
  · exact after_pure.2 (.refl [] c)
  · next k _ =>
    dsimp only
    rw [after_bind, after_remark, after_within, after_bind]
    have begun : Balances W [] [] c (c.push (.remarked (W.at p).margin (.graph k.graph.name))) :=
      (Balances.refl [] c).push (.remark _ _) trivial
    refine (after_mapM (I := Balances W [] [] c) (P := fun _ => True) (fun o _ c₁ before => ?_) begun).mono
      fun _ _ all => after_pure.2 all.1
    exact (balances_buildOutput accounts).mono fun _ _ more => ⟨before.trans more, trivial⟩

theorem balances_buildComposite {required : List Output} :
    After (buildComposite sub g required) (W.at p) c fun _ c' => Balances W [] [] c c' := by
  rw [buildComposite, after_bind, after_addComposite, after_andThen]
  have added : Balances W [] [] c (c.edit (.add (.composite { graph := g }))) :=
    (Balances.refl [] c).edit (.composite g) trivial
  refine (balances_buildOutputs accounts).mono fun res c₁ built => ⟨fun _ _ => ?_, fun _ _ => added.trans built⟩
  exact after_pure.2 (added.trans built)

theorem balances_topPart : After (topPart sub n) (W.at p) c fun _ c' => Balances W [] [] c c' := by
  rw [topPart, after_bind, after_catalog]
  dsimp only
  rw [after_bind]
  refine (aside_topComposite.and after_topComposite).mono ?_
  rintro top c₁ ⟨aside, -, run⟩
  rw [after_within]
  exact (accounts _ top n.name c₁).mono fun _ _ asked =>
    (Balances.aside aside (run .asking top 0).steps []).trans asked

theorem balances_freeStandingGraph {h : NodeGraph} {required : List Output} :
    After (freeStandingGraph sub h required) (W.at p) c fun _ c' => Balances W [] [] c c' := by
  refine opens_freeStandingGraph.mono fun res c' opens => ?_
  cases opens with
  | busy => exact .refl [] c
  | call starts call =>
      have built := (balances_buildOutputs accounts).of_eq call
      exact ((Balances.aside starts.aside starts.steps []).trans built).edit (.share (.freeStanding _ _)) trivial

theorem balances_buildNode : After (buildNode sub n) (W.at p) c fun _ c' => Balances W [] [] c c' := by
  refine builds_buildNode.mono fun res c₁ builds => ?_
  cases builds with
  | unknown | unexpanded => exact .refl [] c
  | forward recipe => exact (Balances.refl [] c).edit (MakesLeaf.forward recipe).steps trivial
  | @created _ _ _ l _ recipe call =>
      have makes : MakesLeaf W.renderer n c l _ := .create recipe (.of_eq call)
      exact .aside ((aside_createLeaf.of_eq call).edit (e := .add (.leaf l)) trivial) (.single makes.steps) []
  | failed recipe call =>
      exact .aside (aside_createLeaf.of_eq call) (.single (.refused ((fixed_of_recipe recipe).held _) (.of_eq call))) []
  | expanded _ _ call => exact (balances_buildComposite accounts).of_eq call

/-! ## Outputs of other graphs -/

theorem balances_connectOutside :
    After (connectOutside sub element y i) (W.at p) c fun _ c' => Balances W [] [] c c' := by
  refine connects_connectOutside.mono fun made c' connects => ?_
  cases connects with
  | idle => exact .refl [] c
  | noGraph | noOutput | badOutput => exact (Balances.refl [] c).push (.warning _) trivial
  | badGraph _ call => exact ((balances_freeStandingGraph accounts).of_eq call).push (.warning _) trivial
  | @graph graph output _ _ _ _ _ _ _ call report =>
      have built := (balances_freeStandingGraph accounts).of_eq call
      have bound := built.push (.remark (W.at p).margin (.boundToGraph element.name graph output)) trivial
      exact bound.trans (.aside report.aside report.steps [])
  | badNode _ call => exact (balances_topPart accounts).of_eq call
  | @node output _ _ _ _ _ _ _ _ _ call report =>
      have built := (balances_topPart accounts).of_eq call
      have bound := built.push (.remark (W.at p).margin (.boundToOutput element.name output)) trivial
      exact bound.trans (.aside report.aside report.steps [])

theorem BindsOutside.balances (h : BindsOutside (W.at p) sub n y i element c c') : Balances W [] [] c c' := by
  cases h with
  | outside call => exact (balances_connectOutside accounts).of_eq call
  | property call _ binding =>
      have run := (after_bindGeomProp .asking (s := 0) ⟨rfl, Nat.zero_le y⟩).of_eq binding
      exact ((balances_connectOutside accounts).of_eq call).trans
        (.aside (aside_bindGeomProp.of_eq binding) run.steps [])
  | literal call binding =>
      have run := (after_bindLiteral .asking (s := 0) ⟨rfl, Nat.zero_le y⟩).of_eq binding
      exact ((balances_connectOutside accounts).of_eq call).trans
        (.aside (aside_bindLiteral.of_eq binding) run.steps [])

end

end MaterialGraph.Build
