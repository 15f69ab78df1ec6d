import MaterialGraph.Loader
import MaterialGraph.Proofs.Build.Children
import MaterialGraph.Proofs.Walk

/-!
# What a load does

* `Works` : what the construction of groups can do to what is to be handed over and to a context.
* `Loads` : how a load ends. It has nothing to build, or none of what it has built can be rendered and all of it is
  deleted, or it hands over what it has built and deletes what is left behind.
* `loads_of_load` : every load ends so.
* `Works.steps`, `Loads.moves` : both are made up of the steps and moves of all runs.
-/

namespace MaterialGraph.Build

set_option autoImplicit false

open Assembly Relation

variable {σ : Type} {W : Env σ} {c c' : Context σ} {p : Place}

/-! ## Groups -/

/-- A part stands at or below the parts to be handed over or the parts that graphs share. -/
def Reached (a : Assembly) (parts : List PartId) (x : PartId) : Prop := ∃ y ∈ parts ++ a.shared, Below a y x

def Harvest.add (harvest : Harvest) (x : PartId) : Harvest := { harvest with parts := harvest.parts ++ [x] }

/-- What can happen to what is to be handed over and to a context, while groups are built. -/
inductive Works (W : Env σ) : Harvest → Context σ → Harvest → Context σ → Prop
  | refl (harvest : Harvest) (c : Context σ) : Works W harvest c harvest c
  | trans {harvest harvest₁ harvest₂ : Harvest} {c c₁ c₂ : Context σ} (first : Works W harvest c harvest₁ c₁)
      (second : Works W harvest₁ c₁ harvest₂ c₂) : Works W harvest c harvest₂ c₂
  | mark (harvest : Harvest) (c : Context σ) {e : Edit} (mark : IsMark e) (routine : (Event.edited e).IsRoutine) :
      Works W harvest c harvest (c.edit e)
  | inside (harvest : Harvest) {id : PartId} {s : Nat} {c c₁ : Context σ} (known : Reached c₁.assembly harvest.parts id)
      (run : Run W .asking id s c c₁) : Works W harvest c harvest c₁
  | elsewhere (harvest : Harvest) {c c₁ : Context σ} (run : ∀ ph id s, Run W ph id s c c₁) :
      Works W harvest c harvest c₁
  | more (harvest : Harvest) (id : PartId) (c : Context σ) : Works W harvest c (harvest.add id) c
  | own (harvest : Harvest) {c c₁ : Context σ} {g : Graph}
      (inner : Run W .asking c.assembly.size c.assembly.size (c.edit (.add (.composite { graph := g }))) c₁) :
      Works W harvest c (harvest.add c.assembly.size) c₁
  | wrap (harvest : Harvest) {c c₁ : Context σ} {x : PartId} {h : Handle} {l : Leaf} (holds : Holds c.assembly x h)
      (creation : CreatesLeaf W.renderer .passthrough .wrap [(.color, .node h)] none c (.ok l) c₁) :
      Works W harvest c (harvest.add c₁.assembly.size) (c₁.edit (.add (.leaf l)))
  | wrapFailed (harvest : Harvest) {c c₁ : Context σ} {x : PartId} {h : Handle} {e : LoadError}
      (holds : Holds c.assembly x h)
      (creation : CreatesLeaf W.renderer .passthrough .wrap [(.color, .node h)] none c (.error e) c₁) :
      Works W harvest c harvest c₁
  | root (harvest : Harvest) (kind : OutputKind) {c : Context σ} {x : PartId} {h : Handle}
      (holds : Holds c.assembly x h) :
      Works W harvest c { harvest with roots := harvest.roots.set kind (some x) } c

theorem Works.message (harvest : Harvest) (c : Context σ) {e : Event} (message : IsMessage e) :
    Works W harvest c harvest (c.push e) :=
  .elsewhere harvest fun _ _ _ => .message c message

/-- An input of a composite is set as a shader reference says. -/
inductive Overrides (W : Env σ) (id : PartId) (r : ShaderRef) (i : Input) (c : Context σ) :
    Unit → Context σ → Prop
  | task {c₁ : Context σ} (inner : Run W .asking id id (c.edit (.began (.override id r i))) c₁) :
      Overrides W id r i c () (c₁.edit (.ended (.override id r i) true))

theorem after_setBindInput {id : PartId} {r : ShaderRef} {i : Input} :
    After (setBindInput id r i) (W.at p) c (Overrides W id r i c) := by
  have takes : Takes .asking id id (c.edit (.began (.override id r i))) id := ⟨rfl, Nat.le_refl _⟩
  rw [setBindInput, after_asTask, after_bind]
  refine (after_connectOutside .asking sound_part takes).mono ?_
  intro done c₁ run₁
  split
  · exact after_pure.2 (.task run₁)
  · split
    · exact after_pure.2 (.task run₁)
    · next value _ =>
      rw [after_bind, after_remark, after_bind]
      refine after_bindInput.mono ?_
      intro res c₂ binds
      have takes₁ := (takes.run run₁).push (e := .remarked (W.at p).margin (.boundToLiteral i.name value i.type))
      have run₂ := (run₁.trans (.message c₁ (.remark _ _))).trans (.literal takes₁ binds)
      cases res with
      | ok => exact after_pure.2 (.task run₂)
      | error e =>
          dsimp only
          rw [after_warn]
          exact .task (run₂.trans (.message c₂ (.warning _)))

/-- How it ends to look for something below a part: if that part is reached, what is to be handed over stays as it
is. -/
def Searches (W : Env σ) (id : PartId) (c c' : Context σ) : Prop :=
  ∀ harvest, Reached c.assembly harvest.parts id → Works W harvest c harvest c'

theorem Reached.child {parts : List PartId} {id x : PartId} {name : String} (known : Reached c.assembly parts id)
    (child : c.assembly.child? id name = some x) : Reached c.assembly parts x :=
  let ⟨y, hy, below⟩ := known
  ⟨y, hy, below.child child⟩

theorem mem_shared {a : Assembly} {x : PartId} :
    x ∈ a.shared ↔ a.top = some x ∨ (∃ name : String, a.geometry[name]? = some x) ∨
      ∃ (name : String) (state : Construction), a.freeStanding[name]? = some state ∧ state.id = x := by
  rw [shared, List.mem_append, List.mem_append, List.mem_map, NameMap.mem_values, or_assoc, Option.mem_toList]
  constructor
  · rintro (top | geometry | ⟨state, known, rfl⟩)
    · exact .inl top
    · exact .inr (.inl geometry)
    · obtain ⟨name, known⟩ := NameMap.mem_values.1 known
      exact .inr (.inr ⟨name, state, known, rfl⟩)
  · rintro (top | geometry | ⟨name, state, known, rfl⟩)
    · exact .inl top
    · exact .inr (.inl geometry)
    · exact .inr (.inr ⟨state, NameMap.mem_values.2 ⟨name, known⟩, rfl⟩)

/-- What graphs share stays shared in a run. -/
theorem Run.shared {ph : Phase} {id x : PartId} {s : Nat} (h : Run W ph id s c c') (hx : x ∈ c.assembly.shared) :
    x ∈ c'.assembly.shared := by
  rcases mem_shared.1 hx with top | ⟨name, geometry⟩ | ⟨name, state, known, rfl⟩
  · exact mem_shared.2 (.inl (h.steps.extends.top top))
  · exact mem_shared.2 (.inr (.inl ⟨name, h.steps.extends.geometry geometry⟩))
  · exact mem_shared.2 (.inr (.inr ⟨name, state, h.freeStanding known, rfl⟩))

theorem Reached.run {parts : List PartId} {ph : Phase} {id x : PartId} {s : Nat} (known : Reached c.assembly parts x)
    (run : Run W ph id s c c') : Reached c'.assembly parts x := by
  obtain ⟨y, hy, below⟩ := known
  refine ⟨y, ?_, run.below_kept below⟩
  rcases List.mem_append.1 hy with hy | hy
  · exact List.mem_append_left _ hy
  · exact List.mem_append_right _ (run.shared hy)

theorem Reached.mark {parts : List PartId} {x : PartId} {e : Edit} (known : Reached c.assembly parts x) (mark : IsMark e) :
    Reached (c.edit e).assembly parts x := by
  cases mark <;> exact known

theorem Overrides.works {harvest : Harvest} {id : PartId} {r : ShaderRef} {i : Input} {u : Unit}
    (h : Overrides W id r i c u c') (known : Reached c.assembly harvest.parts id) : Works W harvest c harvest c' := by
  obtain ⟨inner⟩ := h
  have begun : Reached (c.edit (.began (.override id r i))).assembly harvest.parts id := known.mark (.began _)
  exact ((Works.mark harvest c (.began (.override id r i)) trivial).trans (.inside harvest (begun.run inner) inner)).trans
    (.mark harvest _ (.ended _ _) trivial)

theorem after_innerPart {child : PartId} {inner : Graph} {o : Output} :
    After (innerPart child inner o) (W.at p) c fun _ c' => Searches W child c c' := by
  rw [innerPart]
  split
  · rw [after_bind, after_warn, after_pure]
    exact fun harvest _ => .message harvest c (.warning _)
  · dsimp only
    split
    · exact after_pure.2 fun harvest _ => .refl harvest c
    · next name _ =>
      rw [after_bind]
      refine (sound_part p child name c).mono ?_
      intro res c₁ gives
      have run := gives.run (s := 0)
      have works : Searches W child c c₁ := fun harvest known => .inside harvest (known.run run) run
      cases res with
      | none => exact after_pure.2 works
      | some found =>
          dsimp only
          rw [after_bind, after_assembly, after_pure]
          exact works

theorem after_outputLeaf {id : PartId} {o : Output} :
    After (outputLeaf id o) (W.at p) c fun _ c' => Searches W id c c' := by
  rw [outputLeaf, after_bind, after_assembly]
  split
  · exact after_pure.2 fun harvest _ => .refl harvest c
  · next child hchild =>
    split
    · exact after_pure.2 fun harvest _ => .refl harvest c
    · exact after_pure.2 fun harvest _ => .refl harvest c
    · refine after_innerPart.mono fun _ c₁ searches harvest known => searches harvest ?_
      obtain ⟨k, composite, named⟩ := Option.bind_eq_some_iff.1 hchild
      obtain ⟨name, -, there⟩ := Option.bind_eq_some_iff.1 named
      exact known.child ((child?_of_composite? composite name).trans there)

/-- How it ends to look for a root: the parts that were added are to be handed over. -/
def Adds (W : Env σ) (id : PartId) (c : Context σ) (added : List PartId) (c' : Context σ) : Prop :=
  ∀ harvest, Reached c.assembly harvest.parts id → Works W harvest c { harvest with parts := harvest.parts ++ added } c'

theorem Searches.adds {id : PartId} (h : Searches W id c c') : Adds W id c [] c' := by
  intro harvest known
  rw [List.append_nil]
  exact h harvest known

def HoldsSome (a : Assembly) (x : PartId) : Prop := ∃ h, Holds a x h

theorem after_wrapSurface {h : Handle} {type : String} {x : PartId} (holds : Holds c.assembly x h) :
    After (wrapSurface h type) (W.at p) c fun res c' =>
      (∀ harvest, Works W harvest c { harvest with parts := harvest.parts ++ res.toOption.toList } c') ∧
        ∀ y, res = .ok y → HoldsSome c'.assembly y := by
  rw [wrapSurface]
  split
  · rw [after_andThen]
    refine after_createLeaf.mono ?_
    intro res c₁ creation
    refine ⟨?_, ?_⟩
    · rintro l rfl
      rw [after_bind, after_addPart, after_pure]
      refine ⟨fun harvest => .wrap harvest holds creation, ?_⟩
      rintro _ ⟨⟩
      cases creation with
      | @done g _ _ _ =>
          refine ⟨g, ?_⟩
          rw [Holds, Context.edit_assembly, leaf?_add_leaf, if_pos rfl]
          rfl
    · rintro e rfl
      refine ⟨fun harvest => ?_, by rintro _ ⟨⟩⟩
      change Works W harvest c { harvest with parts := harvest.parts ++ [] } c₁
      rw [List.append_nil]
      exact .wrapFailed harvest holds creation
  · refine after_pure.2 ⟨fun harvest => ?_, by rintro _ ⟨⟩⟩
    change Works W harvest c { harvest with parts := harvest.parts ++ [] } c
    rw [List.append_nil]
    exact .refl harvest c

/-- How it ends to look for the root of an output. -/
structure Finds (W : Env σ) (id : PartId) (c : Context σ) (res : Option PartId × List PartId) (c' : Context σ) :
    Prop where
  adds : Adds W id c res.2 c'
  none : res.1 = none → res.2 = []
  holds : ∀ x, res.1 = some x → HoldsSome c'.assembly x

theorem Searches.finds_nothing {id : PartId} {e : Event} (h : Searches W id c c') (message : IsMessage e) :
    Finds W id c (none, []) (c'.push e) where
  adds := Searches.adds fun harvest known => (h harvest known).trans (.message harvest c' message)
  none _ := rfl
  holds := nofun

theorem after_rootOf {g : Group} {id : PartId} {kind : OutputKind} {o : Output} :
    After (rootOf g id kind o) (W.at p) c (Finds W id c) := by
  rw [rootOf, after_bind]
  refine after_outputLeaf.mono ?_
  intro leaf c₁ searches
  cases leaf with
  | none =>
      dsimp only
      rw [after_bind, after_warn, after_pure]
      exact searches.finds_nothing (.warning _)
  | some leaf =>
      dsimp only
      rw [after_bind, after_assembly]
      split
      · rw [after_bind, after_warn, after_pure]
        exact searches.finds_nothing (.warning _)
      · next h holds =>
        split
        · rw [after_bind]
          refine (after_wrapSurface holds).mono ?_
          rintro res c₂ ⟨adds, made⟩
          have adds₂ : Adds W id c res.toOption.toList c₂ :=
            fun harvest known => (searches harvest known).trans (adds harvest)
          cases res with
          | ok wrap =>
              refine after_pure.2 ⟨adds₂, nofun, ?_⟩
              rintro _ ⟨⟩
              exact made wrap rfl
          | error e =>
              dsimp only
              rw [after_bind, after_warn, after_pure]
              exact ⟨fun harvest known => (adds₂ harvest known).trans (.message _ c₂ (.warning _)), fun _ => rfl, nofun⟩
        · refine after_pure.2 ⟨searches.adds, nofun, ?_⟩
          rintro _ ⟨⟩
          exact ⟨h, holds⟩

theorem after_addRoot {g : Group} {id : PartId} {harvest : Harvest} {o : OutputKind × Output}
    (known : Reached c.assembly harvest.parts id) :
    After (addRoot g id harvest o) (W.at p) c fun harvest' c' => Works W harvest c harvest' c' := by
  rw [addRoot, after_bind, after_asTask]
  refine after_rootOf.mono ?_
  rintro ⟨root, added⟩ c₁ finds
  have works : Works W harvest c { harvest with parts := harvest.parts ++ added }
      (c₁.edit (.ended (.root id o.1) root.isSome)) :=
    ((Works.mark harvest c (.began (.root id o.1)) trivial).trans (finds.adds harvest (known.mark (.began _)))).trans
      (.mark _ _ (.ended _ _) trivial)
  cases root with
  | none =>
      cases (finds.none rfl : added = [])
      rw [List.append_nil] at works
      exact after_pure.2 works
  | some root =>
      obtain ⟨h, holds⟩ := finds.holds root rfl
      exact after_pure.2 (works.trans (.root { harvest with parts := harvest.parts ++ added } o.1 holds))

theorem Reached.add {parts : List PartId} {x : PartId} (known : Reached c.assembly parts x) (more : List PartId) :
    Reached c.assembly (parts ++ more) x :=
  let ⟨y, hy, below⟩ := known
  ⟨y, by
    rcases List.mem_append.1 hy with hy | hy
    · exact List.mem_append_left _ (List.mem_append_left _ hy)
    · exact List.mem_append_right _ hy, below⟩

theorem Reached.leaf {parts : List PartId} {x : PartId} {c₁ : Context σ} {l : Leaf} (known : Reached c.assembly parts x)
    (assembly : c₁.assembly = c.assembly) : Reached (c₁.edit (.add (.leaf l))).assembly parts x := by
  obtain ⟨y, hy, below⟩ := known
  refine ⟨y, ?_, ?_⟩
  · change y ∈ parts ++ c₁.assembly.shared
    rw [assembly]
    exact hy
  · rw [← assembly] at below
    exact below.mono fun id name z hz => (child?_add_leaf l name).trans hz

/-- What is reached stays so while groups are built. -/
theorem Works.known {harvest harvest' : Harvest} {x : PartId} (h : Works W harvest c harvest' c')
    (known : Reached c.assembly harvest.parts x) : Reached c'.assembly harvest'.parts x := by
  induction h with
  | refl => exact known
  | trans _ _ ih₁ ih₂ => exact ih₂ (ih₁ known)
  | mark _ _ mark => exact known.mark mark
  | inside _ _ run => exact known.run run
  | elsewhere _ run => exact known.run (run .asking 0 0)
  | more => exact known.add _
  | @own harvest c c₁ g inner =>
      have added : Reached (c.edit (.add (.composite { graph := g }))).assembly harvest.parts x :=
        let ⟨y, hy, below⟩ := known
        ⟨y, hy, below.mono fun id name z hz => (child?_add_composite g name).trans hz⟩
      exact (added.run inner).add _
  | wrap harvest _ creation => exact (known.leaf creation.assembly).add _
  | wrapFailed harvest _ creation =>
      rw [creation.assembly]
      exact known
  | root => exact known

/-- What is handed over is reached. -/
theorem reached_add (a : Assembly) (harvest : Harvest) (x : PartId) : Reached a (harvest.add x).parts x :=
  ⟨x, List.mem_append_left _ (List.mem_append_right _ (List.mem_singleton_self _)), .refl⟩

theorem after_addRoots {g : Group} {id : PartId} {outputs : List (OutputKind × Output)} (harvest harvest₁ : Harvest)
    {c₁ : Context σ} (works : Works W harvest c harvest₁ c₁) (known : Reached c₁.assembly harvest₁.parts id) :
    After (outputs.foldlM (addRoot g id) harvest₁) (W.at p) c₁ fun harvest' c' =>
      Works W harvest c harvest' c' := by
  have all := after_foldlM (E := W.at p) (l := outputs) (f := addRoot g id) (b := harvest₁) (c := c₁)
    (I := fun after c' => Works W harvest c after c' ∧ Reached c'.assembly after.parts id)
    (fun o _ harvest₂ c₂ kept => (after_addRoot kept.2).mono fun _ _ works₃ =>
      ⟨kept.1.trans works₃, works₃.known kept.2⟩) ⟨works, known⟩
  exact all.mono fun _ _ kept => kept.1

theorem after_reportGroup (harvest : Harvest) {e : LoadError} {c₁ : Context σ}
    (works : Works W harvest c harvest c₁) :
    After (reportGroup e) (W.at p) c₁ fun _ c₂ => Works W harvest c harvest c₂ := by
  unfold reportGroup
  split
  · rw [after_remark]
    exact works.trans (.message _ c₁ (.remark _ _))
  · rw [after_warn]
    exact works.trans (.message _ c₁ (.warning _))

/-- What is reached through a shader reference has a composite of its own, in which inputs are set. -/
theorem after_buildOwn {g : Group} {r : ShaderRef} {harvest : Harvest} {required : List Output} :
    After (do
      match ← buildComposite part g.graph required with
      | .error e =>
        reportGroup e
        return harvest
      | .ok id =>
        r.bindInputs.forM (setBindInput id r)
        g.outputs.foldlM (addRoot g id) { harvest with parts := harvest.parts ++ [id] }) (W.at p) c
      fun harvest' c' => Works W harvest c harvest' c' := by
  rw [after_bind]
  refine (after_buildComposite sound_part).mono ?_
  intro res c₁ composes
  cases composes with
  | failed barren =>
      dsimp only
      rw [after_bind]
      have nothing : Works W harvest c harvest c₁ := .elsewhere harvest fun _ _ _ => .barren barren
      exact (after_reportGroup harvest nothing).mono fun _ c₂ works => after_pure.2 works
  | done inner =>
      dsimp only
      rw [after_bind]
      have set := after_forM (E := W.at p) (l := r.bindInputs) (f := setBindInput c.assembly.size r) (c := c₁)
        (I := fun c₂ => Works W harvest c (harvest.add c.assembly.size) c₂)
      refine (set (fun i _ c₂ works => ?_) (.own harvest inner)).mono ?_
      · exact after_setBindInput.mono fun _ _ sets => works.trans (sets.works (reached_add _ harvest _))
      · exact fun _ c₂ works => after_addRoots harvest _ works (reached_add _ harvest _)

/-- How it ends to get a composite that is shared. -/
def GetsShared (W : Env σ) (c : Context σ) (res : Result PartId) (c' : Context σ) : Prop :=
  (∀ harvest, Works W harvest c harvest c') ∧ ∀ id, res = .ok id → id ∈ c'.assembly.shared

/-- A composite that is shared is handed over with all others. -/
theorem after_shareComposite {g : Group} {m : Build σ (Result PartId)} {harvest : Harvest}
    (hm : After m (W.at p) c (GetsShared W c)) :
    After (do
      match ← m with
      | .error e =>
        reportGroup e
        return harvest
      | .ok id =>
        pure ()
        g.outputs.foldlM (addRoot g id) { harvest with parts := harvest.parts ++ [id] }) (W.at p) c
      fun harvest' c' => Works W harvest c harvest' c' := by
  rw [after_bind]
  refine hm.mono ?_
  rintro res c₁ ⟨works, shared⟩
  cases res with
  | error e =>
      dsimp only
      rw [after_bind]
      exact (after_reportGroup harvest (works harvest)).mono fun _ c₂ works => after_pure.2 works
  | ok id =>
      refine after_addRoots harvest _ ((works harvest).trans (.more harvest id c₁)) ⟨id, ?_, .refl⟩
      exact List.mem_append_right _ (shared id rfl)

/-- Without a shader reference, the composite of a group is shared. -/
theorem after_groupComposite_shared {g : Group} (direct : g.shaderRef = none) :
    After (groupComposite g) (W.at p) c (GetsShared W c) := by
  rw [groupComposite, direct]
  cases g.graph with
  | document d =>
      dsimp only
      rw [after_bind]
      refine after_topComposite.mono ?_
      rintro t c₁ ⟨top, run⟩
      rw [after_andThen]
      refine (after_buildOutputs (s := c₁.assembly.size) sound_part).mono ?_
      rintro res c₂ ⟨run₂, -⟩
      have shared : t ∈ c₂.assembly.shared := mem_shared.2 (.inl (run₂.steps.extends.top top))
      have works : ∀ harvest, Works W harvest c harvest c₂ := fun harvest =>
        (Works.elsewhere harvest run).trans
          (.inside harvest ⟨t, List.mem_append_right _ shared, .refl⟩ run₂)
      refine ⟨fun _ _ => after_pure.2 ⟨works, ?_⟩, fun _ _ => ⟨works, nofun⟩⟩
      rintro _ ⟨⟩
      exact shared
  | named n =>
      refine (after_freeStandingGraph sound_part).mono ?_
      rintro res c₁ ⟨run, known⟩
      refine ⟨fun harvest => .elsewhere harvest run, fun id hid => ?_⟩
      exact mem_shared.2 (.inr (.inr ⟨n.name, _, known id hid, rfl⟩))

theorem after_buildGroup {harvest : Harvest} {g : Group} :
    After (buildGroup harvest g) (W.at p) c fun harvest' c' => Works W harvest c harvest' c' := by
  cases ref : g.shaderRef with
  | some r =>
      rw [buildGroup, groupComposite, ref]
      exact after_buildOwn
  | none =>
      have shared := after_groupComposite_shared (W := W) (p := p) (c := c) ref
      rw [buildGroup, ref]
      exact after_shareComposite shared

/-! ## Loads -/

/-- The context after the nodes of some parts have been deleted. -/
def releasedAll (r : Renderer σ) : List PartId → Context σ → Context σ
  | [], c => c
  | x :: xs, c =>
    match c.assembly.leaf? x with
    | some l => releasedAll r xs (released r x l c)
    | none => releasedAll r xs c

/-- What is kept whenever the node of a leaf is deleted is kept when the nodes of some parts are. -/
theorem releasedAll_induction {r : Renderer σ} {P : Context σ → Prop}
    (step : ∀ {d x l}, d.assembly.leaf? x = some l → P d → P (released r x l d)) (xs : List PartId) (start : P c) :
    P (releasedAll r xs c) := by
  induction xs generalizing c with
  | nil => exact start
  | cons x xs ih =>
      rw [releasedAll]
      cases leaf : c.assembly.leaf? x with
      | some l => exact ih (step leaf start)
      | none => exact ih start

theorem after_releaseParts {xs : List PartId} {Q : Unit → Context σ → Prop} :
    After (releaseParts xs) (W.at p) c Q ↔ Q () (releasedAll W.renderer xs c) := by
  induction xs generalizing c with
  | nil => exact after_pure
  | cons x xs ih =>
      rw [releaseParts, show (x :: xs).forM _ = (_ >>= fun _ => releaseParts xs) from rfl, after_bind, after_bind,
        after_assembly, releasedAll]
      cases c.assembly.leaf? x with
      | some l =>
          dsimp only
          rw [after_release]
          exact ih
      | none =>
          dsimp only
          rw [after_pure]
          exact ih

def Harvest.Resolves (harvest : Harvest) : Prop := harvest.roots.toList.all Option.isNone = false

/-- How a load ends that builds what is selected. -/
inductive Loads (W : Env σ) (c : Context σ) : LoadResult → Context σ → Prop
  | nothing {w : Warning} : Loads W c {} (c.push (.warned w))
  | unresolved {harvest : Harvest} {c₁ : Context σ} {w : Warning} (works : Works W {} c harvest c₁) :
      Loads W c {} (releasedAll W.renderer (List.range c₁.assembly.size) (c₁.push (.warned w)))
  | handOver {harvest : Harvest} {c₁ : Context σ} {e : Event} (works : Works W {} c harvest c₁)
      (resolves : Harvest.Resolves harvest) (message : IsMessage e) :
      Loads W c (.ofAssembly c₁.assembly harvest.parts harvest.roots)
        ((releasedAll W.renderer (LoadResult.left c₁.assembly harvest.parts) c₁).push e)

theorem after_buildGroups (gs : List Group) (harvest : Harvest) :
    After (gs.foldlM buildGroup harvest) (W.at p) c fun harvest' c' => Works W harvest c harvest' c' :=
  after_foldlM (I := fun harvest' c' => Works W harvest c harvest' c')
    (fun _ _ _ _ works => after_buildGroup.mono fun _ _ works₁ => works.trans works₁) (.refl _ _)

theorem after_loadSelection {s : Selection} :
    After (loadSelection s) (W.at p) c (Loads W c) := by
  rw [loadSelection, after_bind]
  refine (after_buildGroups _ {}).mono ?_
  intro harvest c₁ works
  split
  · rw [after_bind, after_catalog, after_bind, after_warn, after_bind, after_assembly, after_bind,
      after_releaseParts, after_pure]
    exact .unresolved works
  · next resolves =>
    rw [handOver, after_bind, after_assembly]
    dsimp only
    rw [after_bind, after_releaseParts, after_bind, after_emit, after_pure]
    exact .handOver works (Bool.eq_false_iff.2 resolves) (.finished _ _ _)

theorem after_loadDocument {l : Loader} {d : Document} {options : LoadOptions} {fileExists : String → Bool}
    {r : Renderer σ} : After (loadDocument options.targets) (l.env d options fileExists r) c
      (Loads (l.env d options fileExists r) c) := by
  rw [loadDocument, after_bind, after_catalog]
  dsimp only
  rw [after_within]
  split
  · rw [after_bind, after_warn, after_pure]
    exact .nothing
  · exact after_loadSelection

/-- What a load returns is what it has built in the end. -/
theorem built_of_load {l : Loader} {d : Document} {options : LoadOptions} {fileExists : String → Bool}
    {r : Renderer σ} {s : σ} {o : Outcome σ} (h : l.load d options fileExists r s = some o) :
    ∃ c, loadDocument options.targets (l.env d options fileExists r) { system := s } = .ok (o.result, c) ∧
      o.system = c.system ∧ o.journal = c.journal.reverse := by
  obtain ⟨result, c, hc, rfl⟩ := exists_of_toOption h
  exact ⟨c, hc, rfl, rfl⟩

/-- Whatever a load returns, it has ended in one of three ways. -/
theorem loads_of_load {l : Loader} {d : Document} {options : LoadOptions} {fileExists : String → Bool}
    {r : Renderer σ} {s : σ} {o : Outcome σ} (h : l.load d options fileExists r s = some o) :
    ∃ c, Loads (l.env d options fileExists r) { system := s } o.result c ∧ o.system = c.system ∧
      o.journal = c.journal.reverse :=
  let ⟨c, built, system, journal⟩ := built_of_load h
  ⟨c, after_loadDocument _ _ built, system, journal⟩

/-! ## Steps and moves of loads -/

variable {r : Renderer σ}

theorem Works.steps {harvest harvest' : Harvest} (h : Works W harvest c harvest' c') : Steps W.renderer c c' := by
  induction h with
  | refl | more | root => exact .refl
  | trans _ _ ih₁ ih₂ => exact ih₁.trans ih₂
  | mark _ _ mark => exact .single (.mark mark)
  | inside _ _ run => exact run.steps
  | elsewhere _ run => exact (run .asking 0 0).steps
  | own _ inner => exact (ReflTransGen.single (.composite _)).trans inner.steps
  | wrap _ holds creation =>
      refine .single (.create rfl (fun key h mem => ?_) creation)
      cases List.mem_singleton.1 mem
      exact ⟨_, holds⟩
  | wrapFailed _ holds creation =>
      refine .single (.refused (fun key h mem => ?_) creation)
      cases List.mem_singleton.1 mem
      exact ⟨_, holds⟩

theorem moves_releasedAll (xs : List PartId) (c : Context σ) : Moves r c (releasedAll r xs c) :=
  releasedAll_induction (fun leaf before => before.trans (moves_released leaf)) xs .refl

theorem silent_releasedAll (xs : List PartId) (c : Context σ) : Silent c (releasedAll r xs c) :=
  releasedAll_induction (fun _ before => before.trans (silent_released _ _)) xs (.refl c)

theorem leafwork_releasedAll (xs : List PartId) (c : Context σ) : Leafwork c (releasedAll r xs c) :=
  (silent_releasedAll xs c).leafwork

theorem extends_releasedAll (xs : List PartId) (c : Context σ) : Extends c.assembly (releasedAll r xs c).assembly :=
  (moves_releasedAll xs c).extends

theorem Loads.moves {result : LoadResult} (h : Loads W c result c') : Moves W.renderer c c' := by
  cases h with
  | nothing => exact .single (.message (.warning _))
  | unresolved works => exact (works.steps.moves.tail (.message (.warning _))).trans (moves_releasedAll _ _)
  | handOver works _ message => exact (works.steps.moves.trans (moves_releasedAll _ _)).tail (.message message)

end MaterialGraph.Build
