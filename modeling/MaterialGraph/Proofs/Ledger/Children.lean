import MaterialGraph.Proofs.Ledger.Graphs

/-!
# Every connection is attempted once

To ask for a child keeps a ledger that balances (`attempts_settle_dues`): each connection that a child is due, for as
many declared inputs as ask for it, is attempted once or forgone once, and no other connection is attempted. Some are
attempted when the input is resolved. The others wait on the stack, and the stack is empty when the child is given.

* `Outstanding` : a connection is due, and the child for its consumer is there to stay.
* `Postpones` : what is left of the connections that are due waits on the stack.
* `postpones_resolveInputs`, `postpones_buildChild`, `postpones_followLink`, `balances_drain` : the inputs of a child, a
  child, a connection that has waited, and the stack.
* `accounts_part` : to ask for a child leaves nothing due.
-/

namespace MaterialGraph.Build

set_option autoImplicit false

open Assembly

variable {σ : Type} {W : Env σ} {c c₁ c' : Context σ} {p : Place} {sub : SubPart σ} {id x y : PartId} {s : Nat}
  {g : Graph} {n : Node} {i : Input} {d : Due} {ds before before' : List Due} {waiting waiting' : List Pending}

/-! ## What waits -/

/-- A connection is due in a composite: its nodes are of the graph, and the child for its consumer is there to stay. -/
structure Outstanding (id : PartId) (s : Nat) (g : Graph) (c : Context σ) (d : Due) : Prop where
  composite : d.composite = id
  consumer : g.Has d.consumer
  producer : g.Has d.producer
  given : Given id s c d.consumer.name d.part

theorem Outstanding.run {ph : Phase} {s' : Nat} (h : Outstanding id s g c d) (run : Run W ph id s' c c') :
    Outstanding id s g c' d :=
  ⟨h.composite, h.consumer, h.producer, h.given.run run⟩

/-- A connection that is due waits as an entry of the stack. -/
theorem Outstanding.waits (h : Outstanding id s g c d) : Waits id s g c d.pending := by
  refine ⟨h.consumer, ?_⟩
  rintro _ ⟨⟩
  exact ⟨h.producer, d.part, h.given⟩

/-- What is left of the connections that were due waits on the stack, entry by entry. -/
def Postpones (W : Env σ) (id : PartId) (s : Nat) (g : Graph) (before : List Due) (waiting : List Pending)
    (c c' : Context σ) : Prop :=
  ∃ ds, waiting = ds.map Due.pending ∧ (∀ d ∈ ds, Outstanding id s g c' d) ∧ Balances W before ds c c'

namespace Postpones

theorem nothing (h : Balances W before [] c c') : Postpones W id s g before [] c c' :=
  ⟨[], rfl, fun _ mem => absurd mem List.not_mem_nil, h⟩

theorem one (outstanding : Outstanding id s g c' d) (h : Balances W before [d] c c') :
    Postpones W id s g before [d.pending] c c' := by
  refine ⟨[d], rfl, fun e mem => ?_, h⟩
  cases List.mem_singleton.1 mem
  exact outstanding

theorem append (h₁ : Postpones W id s g before waiting c c₁) (run : Run W .giving id s c₁ c')
    (h₂ : Postpones W id s g before' waiting' c₁ c') :
    Postpones W id s g (before ++ before') (waiting ++ waiting') c c' := by
  obtain ⟨ds, rfl, stand, first⟩ := h₁
  obtain ⟨ds', rfl, stand', second⟩ := h₂
  refine ⟨ds ++ ds', List.map_append.symm, fun d mem => ?_, first.append second⟩
  rcases List.mem_append.1 mem with mem | mem
  · exact (stand d mem).run run
  · exact stand' d mem

theorem reverse (h : Postpones W id s g before waiting c c') : Postpones W id s g before waiting.reverse c c' := by
  obtain ⟨ds, rfl, stand, balances⟩ := h
  exact ⟨ds.reverse, List.map_reverse.symm, fun d mem => stand d (List.mem_reverse.1 mem),
    balances.perm ds.reverse_perm.symm⟩

/-- What is due may be put off after other things that leave nothing due. -/
theorem later (first : Balances W [] [] c c₁) (h : Postpones W id s g before waiting c₁ c') :
    Postpones W id s g before waiting c c' := by
  obtain ⟨ds, waits, stand, balances⟩ := h
  exact ⟨ds, waits, stand, first.append balances⟩

end Postpones

/-! ## Nodes of the same graph -/

theorem due?_of_not_isInput {C : Catalog} (other : ¬ (C.elementOf g n i).isInput) : C.due? id g n y i = none :=
  if_neg other

theorem due?_of_unnamed {C : Catalog} (unnamed : (C.elementOf g n i).nodeName? = none) : C.due? id g n y i = none := by
  rw [Catalog.due?, unnamed]
  exact ite_self none

theorem due?_of_named {C : Catalog} {name : String} (isInput : (C.elementOf g n i).isInput)
    (named : (C.elementOf g n i).nodeName? = some name) :
    C.due? id g n y i = (g.node? name).bind fun producer =>
      (chooseOutput producer.type (((C.nodeDefOf? producer).map NodeDef.outputs).getD []) (C.elementOf g n i).output?
        (C.elementOf g n i).name).toOption.map fun output => ⟨id, n, y, i, producer, output⟩ := by
  rw [Catalog.due?, if_pos isInput, named]
  rfl

theorem due?_of_chosen {C : Catalog} {name : String} {m : Node} {res : Result (Option String)}
    (isInput : (C.elementOf g n i).isInput) (named : (C.elementOf g n i).nodeName? = some name)
    (found : g.node? name = some m)
    (chosen : chooseOutput m.type (((C.nodeDefOf? m).map NodeDef.outputs).getD []) (C.elementOf g n i).output?
      (C.elementOf g n i).name = res) :
    C.due? id g n y i = res.toOption.map fun output => ⟨id, n, y, i, m, output⟩ := by
  rw [due?_of_named isInput named, found, ← chosen]
  rfl

/-- A reply says how the attempt has ended, and nothing waits. -/
theorem Replies.reports {res : Result Unit} {r : Resolution} {e : Event}
    (h : Replies (W.at p) ⟨d.producer.name, d.consumer.name⟩ d.input res r e) :
    Reports d res e ∧ Resolution.pending? r = none := by
  cases h with
  | connected => exact ⟨.connected _, rfl⟩
  | refused => exact ⟨.refused _ _, rfl⟩
  | failed e => exact ⟨.failed e, rfl⟩

/-- A connection to a node of the same graph is attempted at once if the node has a child. Otherwise it waits. -/
theorem postpones_connectInside {name : String} (isInput : (W.catalog.elementOf g n i).isInput)
    (named : (W.catalog.elementOf g n i).nodeName? = some name) (node : g.Has n) (given : Given id s c n.name y) :
    After (connectInside id g n y i (W.catalog.elementOf g n i) name) (W.at p) c fun res c' =>
      Postpones W id s g (W.catalog.due? id g n y i).toList (Resolution.pending? res).toList c c' := by
  have begun : Balances W [] [] c (c.push (.remarked (W.at p).margin (.reference name))) :=
    (Balances.refl [] c).push (.remark _ _) trivial
  refine connects_connectInside.mono fun res c' connects => ?_
  cases connects with
  | lost absent =>
      rw [due?_of_named isInput named, absent]
      exact .nothing (begun.push (.warning _) trivial)
  | wrong found chosen =>
      rw [due?_of_chosen isInput named found chosen]
      exact .nothing (begun.push (.warning _) trivial)
  | @waits m output found chosen =>
      obtain ⟨has, -⟩ := mem_of_node? found
      rw [due?_of_chosen isInput named found chosen]
      exact .later begun (.one (d := ⟨id, n, y, i, m, output⟩) ⟨rfl, node, has, given⟩ (.refl _ _))
  | @attempt x m output _ _ _ _ found chosen there call reply =>
      rw [due?_of_chosen isInput named found chosen]
      obtain ⟨-, rfl⟩ := mem_of_node? found
      obtain ⟨report, none⟩ := reply.reports (d := ⟨id, n, y, i, m, output⟩)
      rw [none]
      exact .later begun (.nothing (.attempt (.attempt there given.1 call report)))

/-! ## Inputs -/

section

variable (hsub : Sound W sub) (accounts : Accounts W sub)

include accounts

theorem postpones_bindElement (isInput : (W.catalog.elementOf g n i).isInput) (node : g.Has n)
    (given : Given id s c n.name y) :
    After (bindElement sub id g n y i (W.catalog.elementOf g n i)) (W.at p) c fun res c' =>
      Postpones W id s g (W.catalog.due? id g n y i).toList res.toList c c' := by
  refine binds_bindElement.mono fun res c' binds => ?_
  cases binds with
  | settled named call => exact (postpones_connectInside isInput named node given).of_eq call
  | deferred named call => exact (postpones_connectInside isInput named node given).of_eq call
  | unsettled named call outside =>
      obtain ⟨ds, none, -, first⟩ := (postpones_connectInside isInput named node given).of_eq call
      rw [List.map_eq_nil_iff.1 none.symm] at first
      exact .nothing (first.trans (outside.balances accounts))
  | unnamed unnamed outside =>
      rw [due?_of_unnamed unnamed]
      exact .nothing (outside.balances accounts)

/-- The connection that is due for an input is attempted, is forgone, or waits. -/
theorem postpones_resolveInput {nd : NodeDef} (node : g.Has n) (definition : W.catalog.nodeDefOf? n = some nd)
    (declared : i ∈ nd.inputs) (composite : HasGraph c.assembly id g) (there : (c.assembly.child? id n.name).isSome)
    (given : Given id s c n.name y) :
    After (resolveInput sub id n y i) (W.at p) c fun res c' =>
      Postpones W id s g (W.catalog.due? id g n y i).toList res.toList c c' := by
  obtain ⟨k, hk, rfl⟩ := composite
  rw [resolveInput, after_bind, after_assembly, hk]
  dsimp only
  rw [after_bind]
  refine ((after_effectiveInput s ⟨k, hk, rfl⟩ node there definition declared).and
    (after_effectiveInput_eq.and aside_effectiveInput)).mono ?_
  rintro _ c₁ ⟨run, rfl, aside⟩
  split
  · next isInput =>
    exact (postpones_bindElement accounts isInput node (given.run run)).mono
      fun _ _ => .later (.aside aside run.steps [])
  · next other =>
    rw [after_bind, due?_of_not_isInput other]
    refine (aside_bindLiteral.and (after_bindLiteral .asking (s := 0) ⟨rfl, Nat.zero_le y⟩)).mono ?_
    rintro _ c₂ ⟨bound, run₂⟩
    exact after_pure.2 (.nothing (.aside (aside.trans bound) (run.steps.trans run₂.steps) []))

include hsub

/-- Inputs are resolved one after the other. Each may make others wait behind those that wait already. -/
theorem postpones_mapM_resolveInput {nd : NodeDef} {is : List Input} (node : g.Has n)
    (definition : W.catalog.nodeDefOf? n = some nd) (declared : is ⊆ nd.inputs) (composite : HasGraph c.assembly id g)
    (there : (c.assembly.child? id n.name).isSome) (given : Given id s c n.name y) :
    After (is.mapM fun i => do
      remark (.input i.kind i.name)
      within .input i.filePrefix (resolveInput sub id n y i)) (W.at p) c fun waiting c' =>
      Run W .giving id s c c' ∧
        Postpones W id s g (is.filterMap (W.catalog.due? id g n y)) (waiting.filterMap fun q => q) c c' := by
  induction is generalizing c with
  | nil =>
      rw [List.mapM_nil, after_pure]
      exact ⟨.refl _ _ _ _, .nothing (.refl [] c)⟩
  | cons i is ih =>
      obtain ⟨first, rest⟩ := List.cons_subset.1 declared
      rw [List.mapM_cons, after_bind, after_bind, after_remark, after_within]
      have begun : Balances W [] [] c (c.push (.remarked (W.at p).margin (.input i.kind i.name))) :=
        (Balances.refl [] c).push (.remark _ _) trivial
      have start : Run W .giving id s c (c.push (.remarked (W.at p).margin (.input i.kind i.name))) :=
        .message c (.remark _ _)
      refine ((after_resolveInput (c := c.push _) hsub node definition first composite there given).and
        (postpones_resolveInput (c := c.push _) accounts node definition first composite there given)).mono ?_
      rintro res c₁ ⟨⟨run, -⟩, now⟩
      have run₁ := start.trans run
      rw [after_bind]
      refine (ih rest (composite.extends run₁.steps.extends) (run₁.steps.extends.child there) (given.run run₁)).mono ?_
      rintro waiting c₂ ⟨run₂, more⟩
      rw [after_pure]
      refine ⟨run₁.trans run₂, ?_⟩
      have both := (Postpones.later begun now).append run₂ more
      rw [List.filterMap_eq_flatMap_toList, List.filterMap_eq_flatMap_toList] at both ⊢
      exact both

/-- The connections that a child is due are attempted, are forgone, or wait. -/
theorem postpones_resolveInputs (node : g.Has n) (composite : HasGraph c.assembly id g)
    (there : (c.assembly.child? id n.name).isSome) (given : Given id s c n.name y) :
    After (resolveInputs sub id n y) (W.at p) c fun waiting c' =>
      Postpones W id s g (W.catalog.duesOf id g n y) waiting c c' := by
  rw [resolveInputs, after_bind, after_catalog, Catalog.duesOf, show (W.at p).catalog = W.catalog from rfl]
  cases definition : W.catalog.nodeDefOf? n with
  | none =>
      dsimp only
      rw [after_bind, after_warn, after_pure]
      exact .nothing ((Balances.refl [] c).push (.warning _) trivial)
  | some nd =>
      dsimp only
      rw [after_bind]
      refine (postpones_mapM_resolveInput hsub accounts node definition (List.Subset.refl _) composite there
        given).mono ?_
      rintro waiting c₁ ⟨-, postpones⟩
      exact after_pure.2 postpones.reverse

/-! ## A child -/

/-- When a child is noted, connections become due. -/
theorem Postpones.noted {waiting : List Pending} (first : Balances W [] [] c c₁) (node : g.Has n)
    (composite : HasGraph c₁.assembly id g) (hy : s ≤ y)
    (inputs : resolveInputs sub id n y (W.at p) (c₁.edit (.child id n.name y)) = .ok (waiting, c')) :
    Postpones W id s g [] waiting c c' := by
  have noted : Extends c₁.assembly (c₁.edit (.child id n.name y)).assembly := .note _ (.child _ _ _)
  have given : Given id s (c₁.edit (.child id n.name y)) n.name y := given_note composite hy
  have there : ((c₁.edit (.child id n.name y)).assembly.child? id n.name).isSome :=
    Option.isSome_iff_exists.2 ⟨y, given.1⟩
  obtain ⟨ds, waits, stand, balances⟩ :=
    (postpones_resolveInputs hsub accounts node (composite.extends noted) there given).of_eq inputs
  exact ⟨ds, waits, stand, (first.trans (.child composite node y)).trans balances⟩

theorem postpones_buildChild (node : g.Has n) (composite : HasGraph c.assembly id g) (hs : s ≤ c.assembly.size) :
    After (buildChild sub id n) (W.at p) c fun res c' => Postpones W id s g [] res.2 c c' := by
  have begun : Balances W [] [] c (c.push (.remarked (W.at p).margin (.node n.name n.category))) :=
    (Balances.refl [] c).push (.remark _ _) trivial
  refine builds_buildChild.mono fun res c' builds => ?_
  cases builds with
  | there => exact .nothing (.refl [] c)
  | failed _ call report =>
      have both := begun.trans ((balances_buildNode accounts).of_eq call)
      have barren : Barren W.renderer _ c' := barren_reportNode.of_eq report
      exact .nothing (both.trans (.aside (aside_reportNode.of_eq report) barren.steps []))
  | @built _ _ c₁ _ _ call inputs =>
      have both := begun.trans ((balances_buildNode accounts).of_eq call)
      cases (after_buildNode hsub).of_eq call with
      | @leaf l c₀ makes =>
          have size : s ≤ c₀.assembly.size := by
            rw [makes.assembly]
            exact hs
          exact .noted hsub accounts both node (composite.extends makes.extends) size inputs
      | composite recipe implementation inner =>
          have extended : Extends c.assembly c₁.assembly := (Extends.add _ _).trans inner.steps.extends
          exact .noted hsub accounts both node (composite.extends extended) hs inputs

/-! ## The stack -/

omit hsub accounts in
/-- A connection that has waited is attempted. -/
theorem balances_connectPending {link : Link} (outstanding : Outstanding id s g c d)
    (linked : d.pending.link = some link) (producer : c.assembly.child? id link.producer.name = some x) :
    After (connectPending id d.consumer link d.part x) (W.at p) c fun _ c' => Balances W [d] [] c c' := by
  cases linked
  obtain ⟨rfl, -, -, given⟩ := outstanding
  refine connects_connectPending.mono fun _ c' connects => ?_
  cases connects with
  | attempt tried reply => exact .attempt (.attempt producer given.1 tried reply.reports.1)

/-- A connection that has waited is attempted once its producer is there, and forgone if it cannot be built. -/
theorem postpones_followLink (way : IsWay sub) (outstanding : Outstanding id s g c d)
    (composite : HasGraph c.assembly id g) (hs : s ≤ c.assembly.size) :
    After (followLink sub id d.consumer (some d.part) d.pending.link) (W.at p) c fun later c' =>
      Postpones W id s g [d] later c c' := by
  rw [Due.pending, followLink, after_bind]
  rintro ⟨producing, waiting⟩ c₁ built
  have yields : Yields W id s g d.producer c (producing, waiting) c₁ :=
    (after_buildChild hsub outstanding.producer composite hs).of_eq built
  have postpones : Postpones W id s g [] waiting c c₁ :=
    (postpones_buildChild hsub accounts outstanding.producer composite hs).of_eq built
  have outstanding₁ := outstanding.run yields.run
  cases producing with
  | none =>
      obtain ⟨barren, rfl⟩ := yields.barren rfl
      have missing : c₁.assembly.child? id d.producer.name = none :=
        Option.isNone_iff_eq_none.1 (by rw [← Option.not_isSome, ← yields.known]; rfl)
      obtain ⟨ds, none, -, balances⟩ := postpones
      rw [List.map_eq_nil_iff.1 none.symm] at balances
      obtain ⟨rfl, -, -, given⟩ := outstanding₁
      exact after_pure.2 (.nothing (balances.append (.loss (.loss way built barren missing given.1))))
  | some x =>
      dsimp only
      rw [after_bind]
      have composite₁ := composite.extends yields.run.steps.extends
      refine ((balances_connectPending outstanding₁ rfl (yields.given x rfl).1).and
        (after_connectPending composite₁ (yields.given x rfl) outstanding₁.given)).mono ?_
      rintro _ c₂ ⟨attempted, run⟩
      have both := postpones.append run (.nothing attempted)
      rw [List.append_nil] at both
      exact after_pure.2 both

/-- The work on a stack goes on until nothing waits. -/
theorem balances_drain (way : IsWay sub) {root : String} {fuel : Nat} {found : Option PartId}
    (outstanding : ∀ d ∈ ds, Outstanding id s g c d) (composite : HasGraph c.assembly id g) (hs : s ≤ c.assembly.size) :
    After (drain sub id root fuel (ds.map Due.pending) found) (W.at p) c fun _ c' => Balances W ds [] c c' := by
  induction fuel generalizing c ds found with
  | zero =>
      cases ds with
      | nil =>
          rw [List.map_nil, drain, after_pure]
          exact .refl [] c
      | cons => exact after_outOfFuel
  | succ fuel ih =>
      cases ds with
      | nil =>
          rw [List.map_nil, drain, after_pure]
          exact .refl [] c
      | cons d ds =>
          obtain ⟨first, rest⟩ := List.forall_mem_cons.1 outstanding
          -- the consumer of a connection that waits is there already
          have there : (c.assembly.composite? id).bind (·.child? d.pending.consumer.name) = some d.part := first.given.1
          have given : ∀ x, some d.part = some x → Given id 0 c d.pending.consumer.name x := by
            rintro _ ⟨⟩
            exact first.given.mono (Nat.zero_le s)
          rw [List.map_cons, drain, after_bind, buildChild, after_bind, after_assembly, there]
          dsimp only
          rw [after_pure, after_bind]
          refine ((postpones_followLink hsub accounts way first composite hs).and
            (after_followLink hsub first.waits given composite hs)).mono ?_
          rintro later c₁ ⟨⟨ds', rfl, stand, followed⟩, run, -⟩
          rw [List.nil_append, ← List.map_append]
          refine (ih (fun e mem => ?_) (composite.extends run.steps.extends)
            (Nat.le_trans hs run.steps.extends.size)).mono fun _ c₂ drained => ?_
          · rcases List.mem_append.1 mem with mem | mem
            · exact stand e mem
            · exact (rest e mem).run run
          · exact (followed.append (.refl ds c₁)).trans drained

/-- The work on the stack begins with the node that is asked for. -/
theorem balances_drain_root (way : IsWay sub) {root : Node} {fuel : Nat} (node : g.Has root)
    (composite : HasGraph c.assembly id g) (hs : s ≤ c.assembly.size) :
    After (drain sub id root.name fuel [⟨root, none⟩] none) (W.at p) c fun _ c' => Balances W [] [] c c' := by
  cases fuel with
  | zero => exact after_outOfFuel
  | succ fuel =>
      rw [drain, after_bind]
      refine ((postpones_buildChild hsub accounts node composite hs).and
        (after_buildChild hsub node composite hs)).mono ?_
      rintro ⟨part, waiting⟩ c₁ ⟨⟨ds, rfl, stand, built⟩, yields⟩
      have run := yields.run
      dsimp only
      rw [after_bind, followLink, after_pure, List.nil_append, List.append_nil]
      exact (balances_drain hsub accounts way stand (composite.extends run.steps.extends)
        (Nat.le_trans hs run.steps.extends.size)).mono fun _ _ drained => built.trans drained

/-! ## Giving a child -/

theorem accounts_childPartWith (way : IsWay sub) : Accounts W (childPartWith sub) := by
  intro p id name c
  rw [childPartWith, after_asTask, after_bind, after_assembly]
  have begun : Balances W [] [] c (c.edit (.began (.child id name))) :=
    (Balances.refl [] c).edit (.mark (.began _)) trivial
  split
  · exact after_pure.2 (begun.edit (.mark (.ended _ _)) trivial)
  · next k composite =>
    split
    · exact after_pure.2 (begun.edit (.mark (.ended _ _)) trivial)
    · split
      · rw [after_bind, after_warn, after_pure]
        exact (begun.push (.warning (.noNode name k.graph.name)) trivial).edit (.mark (.ended _ _)) trivial
      · next root found =>
        rw [after_bind, after_catalog]
        obtain ⟨node, -⟩ := mem_of_node? found
        exact (balances_drain_root hsub accounts way node ⟨k, composite, rfl⟩ (Nat.zero_le _)).mono
          fun _ _ drained => (begun.trans drained).edit (.mark (.ended _ _)) trivial

end

theorem accounts_childPart (fuel : Nat) : Accounts W (childPart (σ := σ) fuel) := by
  induction fuel with
  | zero => exact fun _ _ _ _ => after_outOfFuel
  | succ fuel ih => exact accounts_childPartWith (sound_childPart fuel) ih (.childPart fuel)

/-- To ask for a child leaves nothing due. -/
theorem accounts_part : Accounts W (part (σ := σ)) := by
  intro p id name c
  rw [part, after_bind, after_catalog]
  exact accounts_childPart _ p id name c

/-- Whichever way a composite is asked for a child, nothing is left due. -/
theorem Requests.balances {name : String} (asks : Requests W id name c c') : Balances W [] [] c c' := by
  obtain ⟨sub, p, res, way, call⟩ := asks
  cases way with
  | childPart fuel => exact (accounts_childPart fuel p id name c).of_eq call
  | part => exact (accounts_part p id name c).of_eq call

/-! ## The ledger of a call -/

/-- Two sums take each other's values. The first takes the value of the second twice, and the second takes a value from
a node that cannot be built. -/
def entangled : Document where
  nodeDefs := [
    { name := "ND_add", node := "add", type := "float"
      inputs := [{ name := "in1", type := "float" }, { name := "in2", type := "float" }] }]
  nodes := [
    { name := "a", category := "add", type := "float"
      inputs := [
        { name := "in1", type := "float", nodeName := some "b" },
        { name := "in2", type := "float", nodeName := some "b" }] },
    { name := "b", category := "add", type := "float"
      inputs := [
        { name := "in1", type := "float", nodeName := some "lost" },
        { name := "in2", type := "float", nodeName := some "a" }] },
    { name := "lost", category := "riddle", type := "float" }]

end MaterialGraph.Build
