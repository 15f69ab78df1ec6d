import MaterialGraph.Proofs.Build.Ends

/-!
# Children come to an end

Each node of a graph puts its inputs on the stack once, when it is built (`unresolved`), so the stack is worked off
before its fuel is (`returns_drain`). With one more unit of fuel, a composite answers as well (`answers_childPartWith`),
so the granted depth is enough for whatever is asked (`answers_part`).
-/

namespace MaterialGraph.Build

set_option autoImplicit false

open Assembly Relation

variable {σ : Type} {W : Env σ} {c c' : Context σ} {p : Place} {sub : SubPart σ} {fuel : Nat} {id x y : PartId}
  {s : Nat} {g : Graph}

/-! ## Children -/

/-- The number of inputs that the definition of a node declares. -/
def declared (C : Catalog) (n : Node) : Nat := ((C.nodeDefOf? n).map fun nd => nd.inputs.length).getD 0

/-- The number of inputs of nodes that are not built yet. -/
def unresolved (C : Catalog) (a : Assembly) (id : PartId) (g : Graph) : Nat :=
  (g.nodes.map fun n => if (a.child? id n.name).isSome then 0 else declared C n).sum

theorem unresolved_le {a a' : Assembly} (C : Catalog) (h : Extends a a') (id : PartId) (g : Graph) :
    unresolved C a' id g ≤ unresolved C a id g := by
  refine List.sum_le_sum fun n _ => ?_
  by_cases there : (a.child? id n.name).isSome
  · rw [if_pos there, if_pos (h.child there)]
  · rw [if_neg there]
    split
    · exact Nat.zero_le _
    · exact Nat.le_refl _

theorem unresolved_add_le {a a' : Assembly} (C : Catalog) (h : Extends a a') {n : Node} (hn : n ∈ g.nodes)
    (absent : ¬ (a.child? id n.name).isSome) (there : (a'.child? id n.name).isSome) :
    unresolved C a' id g + declared C n ≤ unresolved C a id g := by
  refine sum_map_add_le (fun m _ => ?_) hn ?_
  · by_cases there : (a.child? id m.name).isSome
    · rw [if_pos there, if_pos (h.child there)]
    · rw [if_neg there]
      split
      · exact Nat.zero_le _
      · exact Nat.le_refl _
  · rw [if_pos there, if_neg absent, Nat.zero_add]

theorem unresolved_lt_stackBound (C : Catalog) (a : Assembly) (id : PartId) (g : Graph) :
    unresolved C a id g < stackBound C g := by
  have fold (l : List Node) (k : Nat) : l.foldl (fun k n => k + declared C n) k = k + (l.map (declared C)).sum := by
    induction l generalizing k with
    | nil => rfl
    | cons n l ih => rw [List.foldl_cons, ih, List.map_cons, List.sum_cons, Nat.add_assoc]
  change _ < g.nodes.foldl (fun k n => k + declared C n) 1
  rw [fold, Nat.add_comm, Nat.lt_succ_iff]
  refine List.sum_le_sum fun n _ => ?_
  split
  · exact Nat.zero_le _
  · exact Nat.le_refl _

theorem after_resolveInputs_length {n : Node} :
    After (resolveInputs sub id n y) (W.at p) c fun waiting _ => waiting.length ≤ declared W.catalog n := by
  rw [resolveInputs, after_bind, after_catalog]
  split
  · rw [after_bind, after_warn, after_pure]
    exact Nat.zero_le _
  · next nd definition =>
    change W.catalog.nodeDefOf? n = some nd at definition
    rw [after_bind]
    refine after_mapM_length.mono fun waiting c₁ length => ?_
    rw [after_pure, List.length_reverse, declared, definition, Option.map_some, Option.getD_some, ← length]
    exact List.length_filterMap_le _ _

/-- What a child puts on the stack is one entry for each declared input at most, and nothing if it was there. -/
theorem after_buildChild_length {n : Node} :
    After (buildChild sub id n) (W.at p) c fun res _ =>
      res.2.length ≤ if (c.assembly.child? id n.name).isSome then 0 else declared W.catalog n := by
  refine builds_buildChild.mono fun res c' builds => ?_
  cases builds with
  | there | failed => exact Nat.zero_le _
  | built absent _ inputs =>
      rw [absent]
      exact after_resolveInputs_length.of_eq inputs

/-- Together with the inputs of nodes that are not built yet, the stack does not grow when a child is built. -/
theorem Yields.unresolved_le {n : Node} {res : Option PartId × List Pending} (yields : Yields W id s g n c res c')
    (hn : n ∈ g.nodes)
    (length : res.2.length ≤ if (c.assembly.child? id n.name).isSome then 0 else declared W.catalog n) :
    res.2.length + unresolved W.catalog c'.assembly id g ≤ unresolved W.catalog c.assembly id g := by
  have later := Build.unresolved_le W.catalog yields.run.steps.extends id g
  split at length
  · omega
  · next absent =>
    by_cases there : (c'.assembly.child? id n.name).isSome
    · have := unresolved_add_le W.catalog yields.run.steps.extends hn absent there
      omega
    · have failed : res.1 = none := by
        rw [← yields.known, Option.not_isSome_iff_eq_none] at there
        exact there
      rw [(yields.barren failed).2, List.length_nil]
      omega

/-- A node is built if there is fuel for the graph that it is expanded to. -/
theorem returns_buildNode (hsub : Sound W sub) (answers : Answers W fuel sub) (sturdy : Sturdy W c) {n : Node}
    (expands : ∀ h, Recipe.of n = .ok .expand → (W.catalog.nodeDefOf? n).bind W.catalog.implementation? = some h →
      effort W.catalog c.assembly (.graph (.named h)) < fuel) : Returns (buildNode sub n) (W.at p) c := by
  rw [buildNode]
  cases recipe : Recipe.of n with
  | error e => exact rfl
  | ok how =>
      cases how with
      | forward role => exact (total_addPart _).bind (fun _ => total_pure _) _ _
      | create type role settings =>
          exact (total_createLeaf _ _ _ _ _ _).andThen (fun _ _ _ => trivial) fun _ _ _ =>
            (total_addPart _).bind (fun _ => total_pure _) _ _
      | expand =>
          dsimp only
          rw [returns_total_bind total_catalog, after_catalog]
          split
          · next h implementation =>
            exact returns_buildComposite hsub answers sturdy (expands h recipe implementation) _
          · exact rfl

theorem total_reportNode (n : Node) (e : LoadError) : Total (reportNode n e : Build σ Unit) := by
  unfold reportNode
  split
  · exact total_remark _
  · split
    · exact total_remark _
    · exact total_emit _

/-- A child is built and its inputs are resolved, if there is fuel for the graph that it is expanded to and, once it is
noted, for its inputs. -/
theorem returns_buildChild (acyclic : ∀ t, ¬ TransGen W.catalog.Leads t t) (hsub : Sound W sub)
    (answers : Answers W fuel sub) (sturdy : Sturdy W c) {n : Node} (hn : g.Has n)
    (composite : HasGraph c.assembly id g) (hs : s ≤ c.assembly.size)
    (expands : ∀ h, Recipe.of n = .ok .expand → (W.catalog.nodeDefOf? n).bind W.catalog.implementation? = some h →
      effort W.catalog c.assembly (.graph (.named h)) < fuel)
    (enough : ∀ c₁, Run W .giving id s c c₁ → (c₁.assembly.child? id n.name).isSome →
      effort W.catalog c₁.assembly (.graph g) ≤ fuel) :
    Returns (buildChild sub id n) (W.at p) c := by
  rw [buildChild, returns_total_bind total_assembly, after_assembly]
  split
  · exact rfl
  · next absent =>
    obtain ⟨k, hk, rfl⟩ := composite
    rw [hk] at absent
    have start : Barren W.renderer c (c.push (.remarked (W.at p).margin (.node n.name n.category))) :=
      .message c (.remark _ _)
    rw [returns_total_bind (total_remark _), after_remark, returns_within, returns_bind]
    refine ⟨returns_buildNode (c := c.push _) hsub answers (sturdy.message (.remark _ _)) expands, ?_⟩
    refine (after_buildNode (c := c.push _) hsub).mono fun res c₁ makes => ?_
    have noted {c₁ : Context σ} {x : PartId} (new : s ≤ x) (there : HasGraph c₁.assembly id k.graph)
        (run : Run W .giving id s c (c₁.edit (.child id n.name x))) :
        Returns (edit (.child id n.name x) >>= fun _ => resolveInputs sub id n x >>= fun waiting =>
          pure (some x, waiting)) ((W.at p).at ((W.at p).place.enter .node n.filePrefix)) c₁ := by
      have child : ((c₁.edit (.child id n.name x)).assembly.child? id n.name).isSome := by
        obtain ⟨k', hk', -⟩ := there
        rw [Context.edit_assembly, child?_child_self hk']
        rfl
      rw [returns_total_bind (total_edit _), after_edit, returns_bind]
      exact ⟨returns_resolveInputs acyclic hsub answers (sturdy.run run) hn (there.extends (.note _ (.child _ _ _)))
        child (given_note there new) (enough _ run child), fun _ _ _ => rfl⟩
    cases makes with
    | failed barren => exact (total_reportNode _ _).bind (fun _ => total_pure _) _ _
    | @leaf l c₁ makes =>
        refine noted ?_ (HasGraph.extends ⟨k, hk, rfl⟩ makes.extends)
          ((Run.barren start).trans (.leafChild (c := c.push _) hk hn absent makes))
        rw [makes.assembly]
        exact hs
    | @composite h c₁ recipe implementation inner =>
        have extended : Extends c.assembly c₁.assembly := (Extends.add _ _).trans inner.steps.extends
        exact noted hs (HasGraph.extends ⟨k, hk, rfl⟩ extended)
          ((Run.barren start).trans (.compositeChild (c := c.push _) hk hn absent recipe implementation inner))

/-! ## The stack -/

theorem returns_followLink (acyclic : ∀ t, ¬ TransGen W.catalog.Leads t t) (hsub : Sound W sub)
    (answers : Answers W fuel sub) (sturdy : Sturdy W c) {q : Pending} (part : Option PartId)
    (waits : Waits id s g c q) (composite : HasGraph c.assembly id g) (hs : s ≤ c.assembly.size)
    (enough : effort W.catalog c.assembly (.graph g) ≤ fuel) :
    Returns (followLink sub id q.consumer part q.link) (W.at p) c := by
  cases hlink : q.link with
  | none => exact rfl
  | some link =>
      obtain ⟨hproducer, -⟩ := waits.link link hlink
      rw [followLink, returns_bind]
      refine ⟨returns_buildChild acyclic hsub answers sturdy hproducer composite hs (fun h recipe implementation =>
        Nat.lt_of_lt_of_le (effort_lt_of_leads (.refl _) (acyclic _) (.instantiates hproducer.mem recipe implementation))
          enough) fun c₁ run _ => (effort_le run.ahead _).trans enough, ?_⟩
      refine (after_buildChild hsub hproducer composite hs).mono ?_
      rintro ⟨producing, waiting⟩ c₁ yields
      dsimp only
      split
      · rw [returns_bind, connectPending, returns_bind]
        refine ⟨⟨returns_connectChildren (sturdy.run yields.run).descends _ _ _ _ _ _, fun res c₂ _ => ?_⟩,
          fun _ _ _ => rfl⟩
        cases res with
        | ok => exact rfl
        | error e => exact rfl
      · exact rfl

theorem after_connectChildren_extends {e : Edge} {output : Option String} {i : Input} :
    After (connectChildren id e x output y i) (W.at p) c fun _ c' => Extends c.assembly c'.assembly := by
  have grown {res : Result Unit} {c₁ : Context σ} (call : connect x output y i (W.at p) c = .ok (res, c₁)) :
      Extends c.assembly c₁.assembly := .of_rebinds (after_connect.of_eq call).rebinds
  refine connects_connectChildren.mono fun res c' connects => ?_
  cases connects with
  | cycle => exact .refl _
  | failed _ call => exact grown call
  | made _ call => exact (grown call).trans (.note _ (.edge _ _))

theorem after_followLink_length (hsub : Sound W sub) {q : Pending} {part : Option PartId} (waits : Waits id s g c q)
    (composite : HasGraph c.assembly id g) (hs : s ≤ c.assembly.size) :
    After (followLink sub id q.consumer part q.link) (W.at p) c fun later c' =>
      later.length + unresolved W.catalog c'.assembly id g ≤ unresolved W.catalog c.assembly id g := by
  cases hlink : q.link with
  | none => exact after_pure.2 (Nat.le_of_eq (Nat.zero_add _))
  | some link =>
      obtain ⟨hproducer, -⟩ := waits.link link hlink
      rw [followLink, after_bind]
      refine ((after_buildChild hsub hproducer composite hs).and after_buildChild_length).mono ?_
      rintro ⟨producing, waiting⟩ c₁ ⟨yields, length⟩
      have shrinks := yields.unresolved_le hproducer.mem length
      dsimp only
      split
      · rw [after_bind, connectPending, after_bind]
        refine after_connectChildren_extends.mono fun res c₂ kept => ?_
        have last := Build.unresolved_le W.catalog kept id g
        cases res with
        | ok =>
            dsimp only
            rw [after_remark, after_pure]
            exact (Nat.add_le_add_left last _).trans shrinks
        | error e =>
            dsimp only
            rw [after_warn, after_pure]
            exact (Nat.add_le_add_left last _).trans shrinks
      · exact after_pure.2 shrinks

/-- The stack is worked off before its fuel is. -/
theorem returns_drain (acyclic : ∀ t, ¬ TransGen W.catalog.Leads t t) (hsub : Sound W sub)
    (answers : Answers W fuel sub) {root : String} {steps : Nat} {stack : List Pending} (found : Option PartId)
    (sturdy : Sturdy W c) (waits : ∀ q ∈ stack, Waits id s g c q) (composite : HasGraph c.assembly id g)
    (hs : s ≤ c.assembly.size)
    (enough : effort W.catalog c.assembly (.graph g) ≤ fuel)
    (lasts : stack.length + unresolved W.catalog c.assembly id g ≤ steps) :
    Returns (drain sub id root steps stack found) (W.at p) c := by
  induction steps generalizing c stack found with
  | zero =>
      have : stack = [] := List.length_eq_zero_iff.1 (by omega)
      rw [this, drain]
      exact rfl
  | succ steps ih =>
      cases stack with
      | nil =>
          rw [drain]
          exact rfl
      | cons q stack =>
          obtain ⟨hq, hstack⟩ := List.forall_mem_cons.1 waits
          rw [drain, returns_bind]
          refine ⟨returns_buildChild acyclic hsub answers sturdy hq.consumer composite hs
            (fun h recipe implementation => Nat.lt_of_lt_of_le
              (effort_lt_of_leads (.refl _) (acyclic _) (.instantiates hq.consumer.mem recipe implementation)) enough)
            fun c₁ run _ => (effort_le run.ahead _).trans enough, ?_⟩
          refine ((after_buildChild hsub hq.consumer composite hs).and after_buildChild_length).mono ?_
          rintro ⟨part, waiting⟩ c₁ ⟨yields, length⟩
          have shrinks := yields.unresolved_le hq.consumer.mem length
          have run₁ := yields.run
          have sturdy₁ := sturdy.run run₁
          have hs₁ := Nat.le_trans hs run₁.steps.extends.size
          have composite₁ := composite.extends run₁.steps.extends
          have hq₁ := hq.run run₁
          have enough₁ := (effort_le (c := W.catalog) run₁.ahead (.graph g)).trans enough
          dsimp only
          rw [returns_bind]
          refine ⟨returns_followLink acyclic hsub answers sturdy₁ part hq₁ composite₁ hs₁ enough₁, ?_⟩
          refine ((after_followLink hsub hq₁ yields.given composite₁ hs₁).and
            (after_followLink_length hsub hq₁ composite₁ hs₁)).mono ?_
          rintro later c₂ ⟨⟨run₂, laterWaits⟩, laterLength⟩
          refine ih _ (sturdy₁.run run₂) (yields.stack hstack run₂ laterWaits) (composite₁.extends run₂.steps.extends)
            (Nat.le_trans hs₁ run₂.steps.extends.size) ((effort_le run₂.ahead _).trans enough₁) ?_
          rw [List.length_append, List.length_append]
          rw [List.length_cons] at lasts
          change waiting.length + _ ≤ _ at shrinks
          omega

/-- The work that begins with the root of a stack comes to an end if there is fuel for the site of the root. -/
theorem returns_drain_root (acyclic : ∀ t, ¬ TransGen W.catalog.Leads t t) (hsub : Sound W sub)
    (answers : Answers W fuel sub) (sturdy : Sturdy W c) {root : Node} {steps : Nat} (hroot : g.Has root)
    (composite : HasGraph c.assembly id g) (hs : s ≤ c.assembly.size)
    (expands : ∀ h, Recipe.of root = .ok .expand →
      (W.catalog.nodeDefOf? root).bind W.catalog.implementation? = some h →
      effort W.catalog c.assembly (.graph (.named h)) < fuel)
    (enough : ∀ c₁, Run W .giving id s c c₁ → (c₁.assembly.child? id root.name).isSome →
      effort W.catalog c₁.assembly (.graph g) ≤ fuel)
    (lasts : unresolved W.catalog c.assembly id g < steps) :
    Returns (drain sub id root.name steps [⟨root, none⟩] none) (W.at p) c := by
  cases steps with
  | zero => exact absurd lasts (Nat.not_lt_zero _)
  | succ steps =>
      rw [drain, returns_bind]
      refine ⟨returns_buildChild acyclic hsub answers sturdy hroot composite hs expands enough, ?_⟩
      refine ((after_buildChild hsub hroot composite hs).and after_buildChild_length).mono ?_
      rintro ⟨part, waiting⟩ c₁ ⟨yields, length⟩
      have shrinks := yields.unresolved_le hroot.mem length
      dsimp only
      rw [followLink, returns_total_bind (total_pure _), after_pure, List.nil_append, List.append_nil]
      cases part with
      | none =>
          obtain ⟨-, rfl⟩ := yields.barren rfl
          unfold drain
          exact rfl
      | some x =>
          have there : (c₁.assembly.child? id root.name).isSome := yields.known.symm.trans rfl
          refine returns_drain acyclic hsub answers _ (sturdy.run yields.run) yields.waits
            (composite.extends yields.run.steps.extends) (Nat.le_trans hs yields.run.steps.extends.size)
            (enough c₁ yields.run there) ?_
          exact shrinks.trans (Nat.le_of_lt_succ lasts)

/-! ## Depth -/

/-- With one more unit of fuel, a composite answers as well. While the root is built, the site leads on to others; once
it is there, less is missing at the top level, or the site is the graph itself. -/
theorem answers_childPartWith (acyclic : ∀ t, ¬ TransGen W.catalog.Leads t t) (hsub : Sound W sub)
    (answers : Answers W fuel sub) : Answers W (fuel + 1) (childPartWith sub) := by
  intro p id name c t sturdy serves enough
  have enough := Nat.le_of_lt_succ enough
  rw [childPartWith, returns_asTask, returns_total_bind total_assembly, after_assembly]
  split
  · exact rfl
  · next k hk =>
    change c.assembly.composite? id = some k at hk
    split
    · exact rfl
    · next absent =>
      split
      · exact rfl
      · next root hroot =>
        obtain ⟨hmem, rfl⟩ := mem_of_node? hroot
        have serves := serves k hk
        have leads : ∀ h, Recipe.of root = .ok .expand →
            (W.catalog.nodeDefOf? root).bind W.catalog.implementation? = some h →
            W.catalog.Leads t (.graph (.named h)) := by
          intro h recipe implementation
          split at serves
          · rw [serves root hroot]
            exact .implements recipe implementation
          · rw [serves]
            exact .instantiates hmem.mem recipe implementation
        rw [returns_total_bind total_catalog, after_catalog]
        refine returns_drain_root (c := c.edit _) (s := c.assembly.size) acyclic hsub answers (sturdy.began _) hmem
          ⟨k, hk, rfl⟩ (Nat.le_refl _) (fun h recipe implementation => ?_) (fun c₁ run there => ?_)
          (unresolved_lt_stackBound _ _ _ _)
        · exact Nat.lt_of_lt_of_le (effort_lt_of_leads (.refl _) (acyclic _) (leads h recipe implementation)) enough
        · refine Nat.le_trans ?_ enough
          split at serves
          · next top =>
            -- the node is one of the top level, and it has been built since
            obtain ⟨k', hk', same⟩ := sturdy.top top
            rw [hk] at hk'
            cases hk'
            rw [same] at hmem
            refine Nat.le_of_lt (effort_lt_of_made run.ahead hmem.mem ?_ ?_ _ _)
            · change ¬ (c.assembly.top.bind fun t => c.assembly.child? t root.name).isSome
              rw [top, Option.bind_some, child?_of_composite? hk, absent]
              exact Bool.false_ne_true
            · rw [Made, run.steps.extends.top top, Option.bind_some]
              exact there
          · rw [serves]
            exact effort_le run.ahead _

theorem answers_childPart (acyclic : ∀ t, ¬ TransGen W.catalog.Leads t t) (fuel : Nat) :
    Answers W fuel (childPart fuel) := by
  induction fuel with
  | zero => exact fun _ _ _ _ _ _ _ enough => absurd enough (Nat.not_lt_zero _)
  | succ fuel ih => exact answers_childPartWith acyclic (sound_childPart fuel) ih

/-- The granted depth is enough for whatever is asked. -/
theorem answers_part (acyclic : ∀ t, ¬ TransGen W.catalog.Leads t t) :
    Answers W (depthBound W.catalog) (part (σ := σ)) := by
  intro p id name c t sturdy serves enough
  rw [part, returns_total_bind total_catalog, after_catalog]
  exact answers_childPart acyclic _ p id name c t sturdy serves enough

end MaterialGraph.Build
