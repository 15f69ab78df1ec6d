import MaterialGraph.Proofs.Tending

/-!
# What asking for parts leaves governed

To ask for the parts of a graph leaves the inputs of all new children governed and all other children alone, if each
child that is asked for on the way does so.

* `Diligent` : a way to get parts leaves the inputs of new children governed.
* `Cares` : what happens to a context from which all inputs of new children are governed.
* `after_topPart_cares`, `after_freeStandingGraph_cares`, `after_geomPart_cares` : parts outside the graph of a consumer.
* `after_buildNode_fosters` : the part for a node.
-/

namespace MaterialGraph.Build

set_option autoImplicit false

open Assembly

variable {s : Recorder} {C : Catalog} {W : Env Recorder} {sub : SubPart Recorder} {c c₁ c' : Context Recorder} {p : Place}
  {id x : PartId}

/-- A way to get parts leaves the inputs of new children governed. -/
def Diligent (W : Env Recorder) (s : Recorder) (sub : SubPart Recorder) : Prop :=
  ∀ p id name c, Proper s W.catalog c → After (sub id name) (W.at p) c fun _ c' =>
    Tended W.catalog c.assembly.size [] [] c'

/-- What happens elsewhere leads from a proper context to another. -/
structure Cares (s : Recorder) (C : Catalog) (c c' : Context Recorder) : Prop where
  proper : Proper s C c'
  fosters : Fosters C c c'

namespace Cares

theorem refl (proper : Proper s C c) : Cares s C c c := ⟨proper, .refl proper.orderly⟩

theorem trans (h₁ : Cares s C c c₁) (h₂ : Cares s C c₁ c') : Cares s C c c' :=
  ⟨h₂.proper, h₁.fosters.trans h₂.fosters⟩

theorem message {e : Event} (proper : Proper s C c) (message : IsMessage e) : Cares s C c (c.push e) :=
  ⟨proper.message message, .message proper.orderly message⟩

theorem push {e : Event} (h : Cares s C c c') (message : IsMessage e) : Cares s C c (c'.push e) :=
  h.trans (.message h.proper message)

theorem addComposite (proper : Proper s C c) (g : Graph) : Cares s C c (c.edit (.add (.composite { graph := g }))) :=
  ⟨proper.composite g, .addComposite proper.orderly g⟩

end Cares

/-! ## Outputs -/

section

variable (recording : W.renderer = Recorder.renderer) (hsub : Sound W sub) (diligent : Diligent W s sub)

include recording hsub diligent

theorem after_sub_cares {name : String} (proper : Proper s W.catalog c) (alone : Alone c id) :
    After (sub id name) (W.at p) c fun _ c' => Cares s W.catalog c c' ∧ Alone c' id := by
  refine ((hsub p id name c).and (diligent p id name c proper)).mono ?_
  rintro res c' ⟨gives, fresh⟩
  have run : Run W .asking id (id + 1) c c' := gives.run
  exact ⟨⟨proper.run recording run, .of_run recording (Nat.lt_succ_self id) run proper (fun _ _ => .inr alone) fresh⟩,
    run.alone proper.orderly alone⟩

theorem after_buildOutput_cares {g : Graph} {o : Output} (proper : Proper s W.catalog c) (alone : Alone c id) :
    After (buildOutput sub id g o) (W.at p) c fun _ c' => Cares s W.catalog c c' ∧ Alone c' id := by
  rw [buildOutput, after_bind, after_remark, after_bind]
  have begun : IsMessage (.remarked (W.at p).margin (.output o.name (o.nodeName?.getD ""))) := .remark _ _
  have start := Cares.message proper begun
  refine (after_sub_cares (c := c.push _) recording hsub diligent start.proper (alone.message begun)).mono ?_
  rintro res c₁ ⟨cares, alone⟩
  have done := start.trans cares
  cases res with
  | some x => exact after_pure.2 ⟨done, alone⟩
  | none =>
      dsimp only
      rw [after_bind, after_warn, after_pure]
      exact ⟨done.push (.warning _), alone.message (.warning _)⟩

theorem after_buildOutputs_cares {required : List Output} (proper : Proper s W.catalog c) (alone : Alone c id) :
    After (buildOutputs sub id required) (W.at p) c fun _ c' => Cares s W.catalog c c' := by
  rw [buildOutputs, after_bind, after_assembly]
  split
  · exact after_pure.2 (.refl proper)
  · next k _ =>
    dsimp only
    rw [after_bind, after_remark, after_within, after_bind]
    have begun : IsMessage (.remarked (W.at p).margin (.graph k.graph.name)) := .remark _ _
    have start := Cares.message proper begun
    refine (after_mapM (I := fun c₁ => Cares s W.catalog c c₁ ∧ Alone c₁ id) (P := fun _ => True)
      (fun o _ c₁ now => ?_) ⟨start, alone.message begun⟩).mono fun _ c₁ now => after_pure.2 now.1.1
    exact (after_buildOutput_cares recording hsub diligent now.1.proper now.2).mono fun _ _ more =>
      ⟨⟨now.1.trans more.1, more.2⟩, trivial⟩

theorem after_buildComposite_cares {g : Graph} {required : List Output} (proper : Proper s W.catalog c) :
    After (buildComposite sub g required) (W.at p) c fun _ c' => Cares s W.catalog c c' := by
  rw [buildComposite, after_bind, after_addComposite, after_andThen]
  have added := Cares.addComposite proper g
  refine (after_buildOutputs_cares recording hsub diligent added.proper (alone_added proper.orderly g)).mono ?_
  exact fun res c₁ cares => ⟨fun _ _ => after_pure.2 (added.trans cares), fun _ _ => added.trans cares⟩

/-! ## Parts outside the graph of a consumer -/

omit hsub diligent in
theorem after_topComposite_cares (proper : Proper s W.catalog c) :
    After topComposite (W.at p) c fun t c' => Cares s W.catalog c c' ∧ Alone c' t := by
  have whole : After topComposite (W.at p) c fun t c' => c'.assembly.top = some t ∧ ∀ ph id s, Run W ph id s c c' :=
    after_topComposite
  have fosters : After topComposite (W.at p) c fun _ c' => Fosters W.catalog c c' := by
    refine tops_topComposite.mono fun t c' tops => ?_
    cases tops with
    | known => exact .refl proper.orderly
    | added absent =>
        have added := Cares.addComposite proper (.document W.catalog.document)
        exact added.fosters.trans (.aside added.proper.orderly (.share (.top absent)) rfl rfl)
  refine (whole.and fosters).mono ?_
  rintro t c' ⟨⟨top, run⟩, fosters⟩
  have proper' := proper.run recording (run .asking 0 0)
  exact ⟨⟨proper', fosters⟩,
    alone_of_sharing proper'.orderly (proper'.orderly.sharing_of_mem_shared (mem_shared.2 (.inl top)))⟩

theorem after_topPart_cares {n : Node} (proper : Proper s W.catalog c) :
    After (topPart sub n) (W.at p) c fun _ c' => Cares s W.catalog c c' := by
  rw [topPart, after_bind, after_catalog]
  dsimp only
  rw [after_bind]
  refine (after_topComposite_cares recording proper).mono ?_
  rintro t c₁ ⟨cares, alone⟩
  rw [after_within]
  exact (after_sub_cares recording hsub diligent cares.proper alone).mono fun _ _ more => cares.trans more.1

/-- Once a free-standing graph has been started, its nodes are built, and it is noted as built. -/
theorem after_buildStarted_fosters {g : NodeGraph} {required : List Output} (starts : Starts g c x c₁)
    (proper : Proper s W.catalog c) :
    After (buildOutputs sub x required) (W.at p) c₁ fun _ c' =>
      Fosters W.catalog c (c'.edit (.freeStanding g.name (.built x))) := by
  have started := proper.starts starts
  have alone := alone_of_sharing started.orderly (starts.grows proper.orderly).2
  refine (after_buildOutputs_cares recording hsub diligent started alone).mono fun _ c₂ cares => ?_
  exact ((Fosters.starts proper.orderly starts).trans cares.fosters).trans
    (.aside cares.proper.orderly (.share (.freeStanding _ _)) rfl rfl)

theorem after_freeStandingGraph_cares {g : NodeGraph} {required : List Output} (proper : Proper s W.catalog c) :
    After (freeStandingGraph sub g required) (W.at p) c fun _ c' => Cares s W.catalog c c' := by
  have fosters : After (freeStandingGraph sub g required) (W.at p) c fun _ c' => Fosters W.catalog c c' := by
    refine opens_freeStandingGraph.mono fun res c' opens => ?_
    cases opens with
    | busy => exact .refl proper.orderly
    | call starts call => exact (after_buildStarted_fosters recording hsub diligent starts proper).of_eq call
  refine ((after_freeStandingGraph hsub).and fosters).mono ?_
  rintro res c' ⟨⟨run, -⟩, fosters⟩
  exact ⟨proper.run recording (run .asking 0 0), fosters⟩

/-! ## Nodes -/

omit hsub diligent in
theorem after_createLeaf_fosters {type : NodeType} {role : Role} {settings : List (InputKey × Bound)}
    {name : Option String} (proper : Proper s W.catalog c) :
    After (createLeaf type role settings name) (W.at p) c fun _ c' =>
      c'.assembly = c.assembly ∧ Orderly c' ∧ Fosters W.catalog c c' := by
  refine after_createLeaf.mono fun res c₁ creation => ?_
  have creation : CreatesLeaf Recorder.renderer type role settings name c res c₁ := recording ▸ creation
  exact ⟨creation.assembly, (creation.grows proper.orderly 0).orderly, .creates proper creation⟩

theorem after_buildNode_fosters {n : Node} (proper : Proper s W.catalog c) :
    After (buildNode sub n) (W.at p) c fun _ c' => Fosters W.catalog c c' := by
  refine builds_buildNode.mono fun res c₁ builds => ?_
  cases builds with
  | unknown | unexpanded => exact .refl proper.orderly
  | forward => exact .addLeaf proper.orderly _
  | created _ call =>
      obtain ⟨-, orderly, fosters⟩ := (after_createLeaf_fosters recording proper).of_eq call
      exact fosters.trans (.addLeaf orderly _)
  | failed _ call => exact ((after_createLeaf_fosters recording proper).of_eq call).2.2
  | expanded _ _ call => exact ((after_buildComposite_cares recording hsub diligent proper).of_eq call).fosters

end

/-! ## Geometric properties -/

theorem after_geomPart_cares {g : GeomPropDef} (recording : W.renderer = Recorder.renderer)
    (proper : Proper s W.catalog c) : After (geomPart g) (W.at p) c fun _ c' => Cares s W.catalog c c' := by
  have fosters : After (geomPart g) (W.at p) c fun _ c' => Fosters W.catalog c c' := by
    refine consults_geomPart.mono fun res c' consults => ?_
    induction consults with
    | known => exact .refl proper.orderly
    | strange _ _ ih =>
        have strange := Cares.message proper (.warning (.texcoordType g.type))
        exact strange.fosters.trans (ih strange.proper)
    | unread => exact .message proper.orderly (.warning _)
    | failed _ call =>
        obtain ⟨-, orderly, fosters⟩ := (after_createLeaf_fosters recording proper).of_eq call
        exact fosters.trans (.message orderly (.warning _))
    | @made c c₁ l quantity absent call =>
        obtain ⟨same, orderly, fosters⟩ := (after_createLeaf_fosters recording proper).of_eq call
        have still : (c₁.edit (.add (.leaf l))).assembly.geometry[g.name]? = none := by
          rw [← same] at absent
          exact absent
        exact (fosters.trans (.addLeaf orderly l)).trans
          (.aside (Grows.addLeaf orderly l 0).orderly (.share (.geometry still)) rfl rfl)
  refine (after_geomPart.and fosters).mono ?_
  rintro res c' ⟨⟨run, -⟩, fosters⟩
  exact ⟨proper.run recording (run .asking 0 0), fosters⟩

end MaterialGraph.Build
