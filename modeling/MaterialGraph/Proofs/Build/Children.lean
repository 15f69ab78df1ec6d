import MaterialGraph.Proofs.Build.Inputs

/-!
# What building children does

`part` gives children and leaves runs (`sound_part`). The children that wait on the stack of `drain` are nodes of the
graph, and their consumers are children already; so every connection that is made belongs to two children.
-/

namespace MaterialGraph.Build

set_option autoImplicit false

open Assembly

variable {σ : Type} {W : Env σ} {c c' : Context σ} {p : Place} {sub : SubPart σ} {id : PartId} {s : Nat}
  {g : Graph}

/-! ## A child and its inputs -/

/-- How the construction of a child ends. -/
structure Yields (W : Env σ) (id : PartId) (s : Nat) (g : Graph) (n : Node) (c : Context σ)
    (res : Option PartId × List Pending) (c' : Context σ) : Prop where
  run : Run W .giving id s c c'
  given : ∀ x, res.1 = some x → Given id 0 c' n.name x
  known : res.1.isSome = (c'.assembly.child? id n.name).isSome
  barren : res.1 = none → Barren W.renderer c c' ∧ res.2 = []
  waits : ∀ q ∈ res.2, Waits id s g c' q

theorem barren_reportNode {n : Node} {e : LoadError} :
    After (reportNode n e) (W.at p) c fun _ c' => Barren W.renderer c c' := by
  refine comments_reportNode.mono fun _ c' comments => ?_
  cases comments with
  | remark => exact .message c (.remark _ _)
  | warning => exact .message c (.warning _)

/-- A part that is noted as a child is given. -/
theorem given_note {c₁ : Context σ} {name : String} {x : PartId} (composite : HasGraph c₁.assembly id g) (hx : s ≤ x) :
    Given id s (c₁.edit (.child id name x)) name x := by
  obtain ⟨k, hk, -⟩ := composite
  exact ⟨child?_child_self hk name x, hx⟩

/-- Once a child is noted, its inputs are resolved. -/
theorem Yields.noted (hsub : Sound W sub) {n : Node} (hn : g.Has n) {c₁ : Context σ} {x : PartId}
    {waiting : List Pending} (composite : HasGraph c₁.assembly id g) (hx : s ≤ x)
    (run : Run W .giving id s c (c₁.edit (.child id n.name x)))
    (inputs : resolveInputs sub id n x (W.at p) (c₁.edit (.child id n.name x)) = .ok (waiting, c')) :
    Yields W id s g n c (some x, waiting) c' := by
  have noted : Extends c₁.assembly (c₁.edit (.child id n.name x)).assembly := .note _ (.child _ _ _)
  have given : Given id s (c₁.edit (.child id n.name x)) n.name x := given_note composite hx
  have there : ((c₁.edit (.child id n.name x)).assembly.child? id n.name).isSome :=
    Option.isSome_iff_exists.2 ⟨x, given.1⟩
  obtain ⟨run₂, waits⟩ := (after_resolveInputs hsub hn (composite.extends noted) there given).of_eq inputs
  refine ⟨run.trans run₂, ?_, ?_, nofun, waits⟩
  · rintro _ ⟨⟩
    exact (given.run run₂).mono (Nat.zero_le _)
  · exact (run₂.steps.extends.child there).symm

/-- A child that is missing is built and noted, and its inputs are resolved. -/
theorem after_buildChild (hsub : Sound W sub) {n : Node} (hn : g.Has n) (composite : HasGraph c.assembly id g)
    (hs : s ≤ c.assembly.size) :
    After (buildChild sub id n) (W.at p) c (Yields W id s g n c) := by
  obtain ⟨k, hk, rfl⟩ := composite
  have start : Barren W.renderer c (c.push (.remarked (W.at p).margin (.node n.name n.category))) :=
    .message c (.remark _ _)
  refine builds_buildChild.mono fun res c' builds => ?_
  cases builds with
  | there there =>
      refine ⟨.refl _ _ _ _, ?_, ?_, by rintro ⟨⟩, fun q hq => absurd hq List.not_mem_nil⟩
      · rintro _ ⟨⟩
        exact ⟨there, Nat.zero_le _⟩
      · rw [there]
  | failed absent call report =>
      cases (after_buildNode hsub).of_eq call with
      | failed barren =>
          have fails := start.trans (barren.trans (barren_reportNode.of_eq report))
          refine ⟨.barren fails, by rintro _ ⟨⟩, ?_, fun _ => ⟨fails, rfl⟩, fun q hq => absurd hq List.not_mem_nil⟩
          rw [fails.child?, absent]
  | @built x waiting c₁ _ absent call inputs =>
      rw [child?_of_composite? hk] at absent
      cases (after_buildNode hsub).of_eq call with
      | @leaf l c₀ makes =>
          refine .noted hsub hn (HasGraph.extends ⟨k, hk, rfl⟩ makes.extends) ?_
            ((Run.barren start).trans (.leafChild (c := c.push _) hk hn absent makes)) inputs
          rw [makes.assembly]
          exact hs
      | composite recipe implementation inner =>
          have extended : Extends c.assembly c₁.assembly := (Extends.add _ _).trans inner.steps.extends
          exact .noted hsub hn (HasGraph.extends ⟨k, hk, rfl⟩ extended) hs
            ((Run.barren start).trans (.compositeChild (c := c.push _) hk hn absent recipe implementation inner)) inputs

/-! ## The stack -/

/-- The stack after a turn: what the connection that was made has left waiting, what the new child has, and the rest. -/
theorem Yields.stack {c₁ c₂ : Context σ} {n : Node} {part : Option PartId} {waiting later rest : List Pending}
    (yields : Yields W id s g n c (part, waiting) c₁) (old : ∀ q ∈ rest, Waits id s g c q)
    (run : Run W .giving id s c₁ c₂) (new : ∀ q ∈ later, Waits id s g c₂ q) :
    ∀ q ∈ later ++ (waiting ++ rest), Waits id s g c₂ q := by
  intro q hq
  rcases List.mem_append.1 hq with hq | hq
  · exact new q hq
  · rcases List.mem_append.1 hq with hq | hq
    · exact (yields.waits q hq).run run
    · exact ((old q hq).run yields.run).run run

theorem after_connectPending {consumer : Node} {link : Link} {x y : PartId} (composite : HasGraph c.assembly id g)
    (producer : Given id 0 c link.producer.name x) (consumed : Given id s c consumer.name y) :
    After (connectPending id consumer link y x) (W.at p) c fun _ c' => Run W .giving id s c c' := by
  obtain ⟨k, hk, -⟩ := composite
  refine connects_connectPending.mono fun _ c' connects => ?_
  cases connects with
  | attempt call reply => exact ((after_connectChildren hk producer consumed).of_eq call).trans reply.run.1

/-- A connection that waits is followed to its producer, which is built, and made. -/
theorem after_followLink (hsub : Sound W sub) {q : Pending} {part : Option PartId} (waits : Waits id s g c q)
    (given : ∀ x, part = some x → Given id 0 c q.consumer.name x) (composite : HasGraph c.assembly id g)
    (hs : s ≤ c.assembly.size) :
    After (followLink sub id q.consumer part q.link) (W.at p) c fun later c' =>
      Run W .giving id s c c' ∧ ∀ q ∈ later, Waits id s g c' q := by
  cases hlink : q.link with
  | none =>
      rw [followLink, after_pure]
      exact ⟨.refl _ _ _ _, fun q hq => absurd hq List.not_mem_nil⟩
  | some link =>
      obtain ⟨hproducer, x, hx⟩ := waits.link link hlink
      rw [followLink, after_bind]
      refine (after_buildChild hsub hproducer composite hs).mono ?_
      rintro ⟨producing, waiting⟩ c₁ yields
      have composite₁ := composite.extends yields.run.steps.extends
      dsimp only
      split
      · next y z =>
        have consumer : Given id s c₁ q.consumer.name y := by
          cases (given y rfl).1.symm.trans hx.1
          exact hx.run yields.run
        rw [after_bind]
        refine (after_connectPending composite₁ (yields.given z rfl) consumer).mono fun _ c₂ run₂ => ?_
        rw [after_pure]
        exact ⟨yields.run.trans run₂, fun q hq => (yields.waits q hq).run run₂⟩
      · exact after_pure.2 ⟨yields.run, yields.waits⟩

/-- How the work on a stack ends, once the child for `root` is there. -/
def Drains (W : Env σ) (id : PartId) (s : Nat) (root : String) (c : Context σ) (res : Option PartId)
    (c' : Context σ) : Prop :=
  Run W .giving id s c c' ∧ ∃ x, res = some x ∧ Given id 0 c' root x

theorem after_drain (hsub : Sound W sub) {root : String} {fuel : Nat} {stack : List Pending} {found : PartId}
    (waits : ∀ q ∈ stack, Waits id s g c q) (given : Given id 0 c root found)
    (known : (c.assembly.child? id root).isSome) (composite : HasGraph c.assembly id g) (hs : s ≤ c.assembly.size)
    :
    After (drain sub id root fuel stack (some found)) (W.at p) c (Drains W id s root c) := by
  induction fuel generalizing c stack found with
  | zero =>
      cases stack with
      | nil =>
          rw [drain, after_pure]
          exact ⟨.refl _ _ _ _, found, rfl, given⟩
      | cons => exact after_outOfFuel
  | succ fuel ih =>
      cases stack with
      | nil =>
          rw [drain, after_pure]
          exact ⟨.refl _ _ _ _, found, rfl, given⟩
      | cons q stack =>
          obtain ⟨hq, hstack⟩ := List.forall_mem_cons.1 waits
          rw [drain, after_bind]
          refine (after_buildChild hsub hq.consumer composite hs).mono ?_
          rintro ⟨part, waiting⟩ c₁ yields
          have run₁ := yields.run
          have hs₁ := Nat.le_trans hs run₁.steps.extends.size
          have composite₁ := composite.extends run₁.steps.extends
          dsimp only
          rw [after_bind]
          refine (after_followLink hsub (hq.run run₁) yields.given composite₁ hs₁).mono ?_
          rintro later c₂ ⟨run₂, laterWaits⟩
          have waits₂ := yields.stack hstack run₂ laterWaits
          have run := run₁.trans run₂
          have known₂ := run.steps.extends.child known
          have next : ∀ x, Given id 0 c₂ root x →
              After (drain sub id root fuel (later ++ (waiting ++ stack)) (some x)) (W.at p) c₂
                (Drains W id s root c) := by
            intro x hx
            refine (ih waits₂ hx known₂ (composite.extends run.steps.extends)
              (Nat.le_trans hs run.steps.extends.size)).mono ?_
            rintro res c₃ ⟨run₃, found₃⟩
            exact ⟨run.trans run₃, found₃⟩
          split
          · next hroot =>
            -- the child for the root is there, so it is found again
            have some₁ : part.isSome := by
              have := run₁.steps.extends.child known
              rw [← hroot] at this
              exact yields.known.trans this
            obtain ⟨x, rfl⟩ := Option.isSome_iff_exists.1 some₁
            have given₁ := yields.given x rfl
            rw [hroot] at given₁
            exact next x (given₁.run run₂)
          · exact next found (given.run run)

/-! ## Giving a child -/

/-- What the work on a stack leads to if it begins with the root: a child, or nothing. -/
theorem after_drain_root (hsub : Sound W sub) {root : Node} {fuel : Nat} (hroot : g.Has root)
    (composite : HasGraph c.assembly id g) (hs : s ≤ c.assembly.size) :
    After (drain sub id root.name fuel [⟨root, none⟩] none) (W.at p) c fun res c' =>
      (res = none → Barren W.renderer c c') ∧ ∀ x, res = some x → Run W .giving id s c c' ∧ Given id 0 c' root.name x := by
  cases fuel with
  | zero => exact after_outOfFuel
  | succ fuel =>
      rw [drain, after_bind]
      refine (after_buildChild hsub hroot composite hs).mono ?_
      rintro ⟨part, waiting⟩ c₁ yields
      have run₁ := yields.run
      dsimp only
      rw [after_bind, followLink, after_pure, if_pos rfl, List.nil_append, List.append_nil]
      cases part with
      | none =>
          obtain ⟨barren, rfl⟩ := yields.barren rfl
          unfold drain
          rw [after_pure]
          exact ⟨fun _ => barren, nofun⟩
      | some x =>
          refine (after_drain hsub yields.waits (yields.given x rfl) (yields.known.symm.trans rfl)
            (composite.extends run₁.steps.extends) (Nat.le_trans hs run₁.steps.extends.size)).mono ?_
          rintro res c₂ ⟨run₂, y, rfl, given⟩
          refine ⟨nofun, ?_⟩
          rintro _ ⟨⟩
          exact ⟨run₁.trans run₂, given⟩

theorem sound_childPartWith (hsub : Sound W sub) (way : IsWay (childPartWith sub)) : Sound W (childPartWith sub) := by
  intro p id name c
  suffices given : After (childPartWith sub id name) (W.at p) c fun res c' =>
      Requests W id name c c' → Gives W id name c res c' from
    fun res c' call => given res c' call ⟨_, p, res, way, call⟩
  rw [childPartWith, after_asTask, after_bind, after_assembly]
  split
  · exact after_pure.2 fun _ => .nothing (.task (.refl _))
  · next k hk =>
    split
    · next x hx =>
      refine after_pure.2 (.child (.refl _ _ _ _) ⟨?_, Nat.zero_le _⟩)
      rw [child?_of_composite? hk]
      exact hx
    · split
      · rw [after_bind, after_warn, after_pure]
        exact fun _ => .nothing (.task (.message _ (.warning _)))
      · next root hroot =>
        obtain ⟨hmem, rfl⟩ := mem_of_node? hroot
        rw [after_bind, after_catalog]
        refine (after_drain_root (s := c.assembly.size) hsub hmem ⟨k, hk, rfl⟩ (Nat.le_refl _)).mono ?_
        rintro res c₁ ⟨none, some⟩
        cases res with
        | none => exact fun _ => .nothing (.task (none rfl))
        | some x => exact .child (some x rfl).1 (some x rfl).2

theorem sound_childPart (fuel : Nat) : Sound W (childPart (σ := σ) fuel) := by
  induction fuel with
  | zero => exact fun _ _ _ _ => after_outOfFuel
  | succ fuel ih => exact sound_childPartWith ih (.childPart (fuel + 1))

/-- Whatever fuel it takes, a child is given by a run in its composite. -/
theorem sound_part : Sound W (part (σ := σ)) := by
  intro p id name c
  rw [part, after_bind, after_catalog]
  exact sound_childPart _ p id name c

theorem IsWay.sound (way : IsWay sub) : Sound W sub := by
  cases way with
  | childPart fuel => exact sound_childPart fuel
  | part => exact sound_part

end MaterialGraph.Build
