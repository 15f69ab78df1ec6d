import MaterialGraph.Proofs.Settling

/-!
# What is left when a child is given

A child that is noted lets its inputs wait, and each of them waits no more when the connection for it comes up on the
stack. The stack is empty when the child that was asked for is given, so then no input waits.

* `Stage.adopt` : a new child whose inputs wait.
* `after_buildChild_stage`, `after_followLink_stage`, `after_drain_stage` : a child, a connection, and the stack.
* `diligent_part` : to ask for a child leaves the inputs of all new children governed.
-/

namespace MaterialGraph

set_option autoImplicit false

open Build Assembly

variable {s : Recorder} {C : Catalog} {W : Env Recorder} {c c₁ c' : Context Recorder} {p : Place} {id x : PartId}
  {n : Nat} {g : Graph} {node : Node} {t : Port} {ts : List Port}

/-! ## New children -/

theorem Catalog.mem_portsOf :
    t ∈ C.portsOf x node ↔ t.part = x ∧ t.node = node ∧ ∃ nd, C.nodeDefOf? node = some nd ∧ t.input ∈ nd.inputs := by
  rw [Catalog.portsOf, List.mem_map]
  constructor
  · rintro ⟨i, mem, rfl⟩
    cases definition : C.nodeDefOf? node with
    | none =>
        rw [definition] at mem
        cases mem
    | some nd =>
        rw [definition] at mem
        exact ⟨rfl, rfl, nd, rfl, mem⟩
  · rintro ⟨rfl, rfl, nd, definition, declared⟩
    exact ⟨t.input, by rw [definition]; exact declared, rfl⟩

theorem Catalog.nodup_portsOf (clear : C.IsClear) (x : PartId) (node : Node) : (C.portsOf x node).Nodup := by
  rw [Catalog.portsOf]
  cases definition : C.nodeDefOf? node with
  | none => exact List.nodup_nil
  | some nd =>
      refine List.Nodup.map (fun i j same => ?_) (clear node nd definition).1.of_map
      exact congrArg Port.input same

namespace Stage

/-- A child is new that is noted where there was none, and all its inputs wait. -/
theorem adopt (stage : Stage W s id n g [] ts c) (clear : W.catalog.IsClear) (fosters : Fosters W.catalog c c₁)
    (orderly : Orderly c₁) (proper : Proper s W.catalog (c₁.edit (.child id node.name x))) (has : g.Has node) (hx : n ≤ x)
    (absent : c.assembly.child? id node.name = none) :
    Stage W s id n g (W.catalog.portsOf x node) ts (c₁.edit (.child id node.name x)) := by
  have more : Extends c₁.assembly (c₁.edit (.child id node.name x)).assembly := .note _ (.child _ _ _)
  have graph : HasGraph c₁.assembly id g := stage.graph.extends fosters.more
  have noted : Given id n (c₁.edit (.child id node.name x)) node.name x := given_note graph hx
  have new : x ∉ adopted c₁.journal := (Tidy.adopts proper.orderly.tidy rfl).2.1
  have only (u : Port) : Only (fun e => e.connected? ≠ some (u.part, u.input)) c₁ (c₁.edit (.child id node.name x)) :=
    .event rfl nofun
  have tended := stage.tended.fosters stage.size (fun _ mem => (stage.isOf mem).isIn) fosters
  -- a child that has waited has another name, since there was none of this name
  have waits {u : Port} (mem : u ∈ ts) : u.Waits W.catalog id n g (c₁.edit (.child id node.name x)) := by
    obtain ⟨⟨child, le⟩, has, declared⟩ := stage.waits u mem
    refine ⟨⟨?_, le⟩, has, declared⟩
    rw [Context.edit_assembly, child?_child_of_ne, fosters.kept child]
    refine .inr fun named => ?_
    rw [← named, absent] at child
    cases child
  have other {u : Port} (mem : u ∈ ts) : u.part ≠ x := by
    rintro rfl
    exact new (orderly.adopted_of_child? (fosters.kept (stage.waits u mem).given.1))
  -- the child is for the node alone, so all its inputs wait, and the inputs of others are there before
  have before {u : Port} {p : PartId} {g' : Graph}
      (hu : u.IsOf W.catalog (c₁.edit (.child id node.name x)).assembly p g') (unread : u ∉ W.catalog.portsOf x node) :
      u.IsOf W.catalog c₁.assembly p g' := by
    refine hu.reflect more fun child => ?_
    rcases child?_of_child?_note child with ⟨-, -, rfl⟩ | child
    · obtain ⟨rfl, named⟩ := proper.orderly.forest.once hu.child noted.1
      obtain ⟨nd, definition, declared⟩ := hu.declared
      obtain rfl := (graph.extends more).unique hu.graph
      have same : u.node = node := hu.node.unique has named
      exact (unread (Catalog.mem_portsOf.2 ⟨rfl, same, nd, same ▸ definition, declared⟩)).elim
    · exact child
  have left {u : Port} (hn : n ≤ u.part) : Undisturbed u.part c₁ (c₁.edit (.child id node.name x)) :=
    .note rfl (fun below => absurd stage.above (Nat.not_lt.2 (Nat.le_trans hn (below.le orderly.forest.descends)))) rfl
  have unread {u : Port} (mem : u ∉ W.catalog.portsOf x node ++ ts) : u ∉ W.catalog.portsOf x node :=
    mt (List.mem_append_left _) mem
  refine ⟨proper, graph.extends more, stage.above, Nat.le_trans stage.size (Nat.le_trans fosters.more.size more.size), ?_,
    ?_, ?_, ?_, ?_, ?_⟩
  · refine List.nodup_append.2 ⟨W.catalog.nodup_portsOf clear x node, stage.nodup, fun u hu v hv same => ?_⟩
    exact other hv (same ▸ (Catalog.mem_portsOf.1 hu).1)
  · intro u hu
    rcases List.mem_append.1 hu with hu | hu
    · obtain ⟨rfl, rfl, declared⟩ := Catalog.mem_portsOf.1 hu
      exact ⟨noted, has, declared⟩
    · exact waits hu
  · rintro u ⟨_, _, hu⟩ hn mem
    exact (left hn).governed
      (tended.governed (before hu (unread mem)).isIn hn (mt (List.mem_append_right _) mem))
  · intro u p g' hu hp hn mem
    exact (tended.given (before hu (unread mem)) hp hn (mt (List.mem_append_right _) mem)).keep fun _ =>
      (left hn).pervades
  · intro u p g' hu hn mem
    exact (left hn).unmarked.isOpened (tended.opened (before hu mem) hn List.not_mem_nil)
  · intro u hu h connected
    have before := connected.of_only (only u)
    rcases List.mem_append.1 hu with hu | hu
    · exact new ((Catalog.mem_portsOf.1 hu).1 ▸ before.adopted)
    · exact tended.waiting hu h before

end Stage

namespace Build

variable {sub : SubPart Recorder} {q : Pending} {us : List Port}

section

variable (recording : W.renderer = Recorder.renderer) (clear : W.catalog.IsClear) (hsub : Sound W sub)
  (diligent : Diligent W s sub)

/-- How it ends to build a child or to follow a connection: for the inputs that now wait too there are connections. -/
def Leads (W : Env Recorder) (s : Recorder) (id : PartId) (n : Nat) (g : Graph) (ts : List Port) (waiting : List Pending)
    (c : Context Recorder) : Prop :=
  ∃ us, List.Forall₂ (Defers W.catalog g) waiting us ∧ Stage W s id n g [] (us ++ ts) c

include recording clear hsub diligent

/-! ## A child and its inputs -/

omit recording clear hsub diligent in
theorem after_reportNode_stage {e : LoadError} (stage : Stage W s id n g [] ts c) :
    After (reportNode node e) (W.at p) c fun _ c' => Stage W s id n g [] ts c' := by
  refine comments_reportNode.mono fun _ c' comments => ?_
  cases comments with
  | remark => exact stage.message (.remark _ _)
  | warning => exact stage.message (.warning _)

theorem after_buildChild_stage (stage : Stage W s id n g [] ts c) (has : g.Has node) :
    After (buildChild sub id node) (W.at p) c fun res c' => Leads W s id n g ts res.2 c' := by
  obtain ⟨k, hk, rfl⟩ := stage.graph
  have begun := stage.message (.remark (W.at p).margin (.node node.name node.category))
  refine builds_buildChild.mono fun res c' builds => ?_
  cases builds with
  | there => exact ⟨[], .nil, stage⟩
  | @failed _ c₁ _ _ call report =>
      have fosters := (after_buildNode_fosters recording hsub diligent begun.proper).of_eq call
      cases (after_buildNode hsub).of_eq call with
      | failed barren =>
          have run : Run W .giving id n (c.push _) c₁ := .barren barren
          have failed := begun.fosters fosters (begun.proper.run recording run)
          exact ⟨[], .nil, (after_reportNode_stage failed).of_eq report⟩
  | built missing call inputs =>
      have fosters := (after_buildNode_fosters recording hsub diligent begun.proper).of_eq call
      have absent : k.child? node.name = none := (child?_of_composite? hk _).symm.trans missing
      cases (after_buildNode hsub).of_eq call with
      | @leaf l c₁ makes =>
          have proper := begun.proper.run (n := n) recording (.leafChild (c := c.push _) hk has absent makes)
          have orderly := (Grows.addLeaf (makes.grows begun.proper.orderly 0).orderly l 0).orderly
          have size : n ≤ c₁.assembly.size := by
            rw [makes.assembly]
            exact stage.size
          have adopted := begun.adopt clear fosters orderly proper has size missing
          exact (after_resolveInputs_stage recording clear hsub diligent adopted).of_eq inputs
      | composite recipe implementation inner =>
          have proper := begun.proper.run (n := n) recording
            (.compositeChild (c := c.push _) hk has absent recipe implementation inner)
          have orderly := (inner.grows (begun.proper.composite _).orderly).orderly
          have adopted := begun.adopt clear fosters orderly proper has stage.size missing
          exact (after_resolveInputs_stage recording clear hsub diligent adopted).of_eq inputs

/-! ## The stack -/

omit hsub diligent in
theorem after_connectPending_stage {link : Link} {consumer : Node} {y : PartId} (stage : Stage W s id n g [] (t :: ts) c)
    (input : link.input = t.input) (vain : t.IsVain W.catalog g) :
    After (connectPending id consumer link t.part y) (W.at p) c fun _ c' => Stage W s id n g [] ts c' := by
  refine connects_connectPending.mono fun _ c' connects => ?_
  cases connects with
  | @attempt res e c₁ call reply =>
      rw [input] at call
      have stage₁ := (after_connectChildren_stage recording clear stage vain).of_eq call
      cases reply with
      | connected =>
          have made : Stage W s id n g [] ts c₁ := stage₁
          exact made.message (.remark _ _)
      | failed =>
          have refused : Stage W s id n g [] (t :: ts) c₁ := stage₁
          exact (refused.message (.warning _)).giveUp vain

/-- A connection that has waited is followed to its producer, and then the input waits no more. -/
theorem after_followLink_stage (stage : Stage W s id n g [] (t :: ts) c) (defers : Defers W.catalog g q t) :
    After (followLink sub id q.consumer (some t.part) q.link) (W.at p) c fun later c' => Leads W s id n g ts later c' := by
  obtain ⟨link, linked, input, has⟩ := defers.link
  rw [linked, followLink, after_bind]
  refine (after_buildChild_stage recording clear hsub diligent stage has).mono ?_
  rintro ⟨producing, waiting⟩ c₁ ⟨us, defers', stage₁⟩
  have first : Stage W s id n g [] (t :: (us ++ ts)) c₁ := stage₁.perm List.perm_middle
  cases producing with
  | none => exact after_pure.2 ⟨us, defers', first.giveUp defers.vain⟩
  | some y =>
      dsimp only
      rw [after_bind]
      exact (after_connectPending_stage recording clear first input defers.vain).mono fun _ c₂ stage₂ =>
        after_pure.2 ⟨us, defers', stage₂⟩

/-- The stack holds a connection for each input that waits, so none waits when it is empty. -/
theorem after_drain_stage {root : String} {fuel : Nat} {stack : List Pending} {found : Option PartId}
    (stage : Stage W s id n g [] us c) (defers : List.Forall₂ (Defers W.catalog g) stack us) :
    After (drain sub id root fuel stack found) (W.at p) c fun _ c' => Stage W s id n g [] [] c' := by
  induction fuel generalizing c stack us found with
  | zero =>
      cases defers with
      | nil =>
          rw [drain, after_pure]
          exact stage
      | cons => exact after_outOfFuel
  | succ fuel ih =>
      cases defers with
      | nil =>
          rw [drain, after_pure]
          exact stage
      | @cons q t stack us first rest =>
          obtain ⟨child, -⟩ := (stage.waits t List.mem_cons_self).given
          have there : (c.assembly.composite? id).bind (·.child? q.consumer.name) = some t.part := first.consumer ▸ child
          rw [drain, after_bind, buildChild, after_bind, after_assembly, there]
          dsimp only
          rw [after_pure, after_bind]
          refine (after_followLink_stage recording clear hsub diligent stage first).mono ?_
          rintro later c₁ ⟨us', defers', stage₁⟩
          exact ih stage₁ (List.rel_append defers' rest)

/-- The work on the stack begins with the node that is asked for. -/
theorem after_drain_root_stage {root : Node} {fuel : Nat} (stage : Stage W s id n g [] [] c) (has : g.Has root) :
    After (drain sub id root.name fuel [⟨root, none⟩] none) (W.at p) c fun _ c' => Stage W s id n g [] [] c' := by
  cases fuel with
  | zero => exact after_outOfFuel
  | succ fuel =>
      rw [drain, after_bind]
      refine (after_buildChild_stage recording clear hsub diligent stage has).mono ?_
      rintro ⟨part, waiting⟩ c₁ ⟨us, defers, stage₁⟩
      dsimp only
      rw [after_bind, followLink, after_pure, List.nil_append, List.append_nil]
      rw [List.append_nil] at stage₁
      exact after_drain_stage recording clear hsub diligent stage₁ defers

/-! ## Giving a child -/

theorem diligent_childPartWith : Diligent W s (childPartWith sub) := by
  intro p id name c proper
  rw [childPartWith, after_asTask, after_bind, after_assembly]
  have none {n : Nat} {c : Context Recorder} : ∀ t ∈ ([] : List Port), n ≤ t.part ∧ t.IsIn W.catalog c.assembly :=
    fun _ mem => absurd mem List.not_mem_nil
  have begun := proper.mark (.began (.child id name))
  have same : (c.edit (.began (.child id name))).assembly = c.assembly := rfl
  have size : (c.edit (.began (.child id name))).assembly.size = c.assembly.size := congrArg Assembly.size same
  have nothing : Tended W.catalog c.assembly.size [] [] (c.edit (.began (.child id name))) :=
    .none begun.orderly (Nat.le_of_eq size)
  have ended {c₁ : Context Recorder} {n : Nat} {made : Bool} (tended : Tended W.catalog n [] [] c₁) :
      Tended W.catalog n [] [] (c₁.edit (.ended (.child id name) made)) :=
    tended.undisturbed none (fun ht _ => ht) fun _ _ => .aside rfl rfl
  split
  · exact after_pure.2 (ended nothing)
  · next k composite =>
    split
    · exact after_pure.2 (ended nothing)
    · split
      · rw [after_bind, after_warn, after_pure]
        exact ended (nothing.undisturbed none (fun ht _ => ht) fun _ _ => .message (.warning _))
      · next root found =>
        obtain ⟨has, -⟩ := mem_of_node? found
        have stage : Stage W s id c.assembly.size k.graph [] [] (c.edit (.began (.child id name))) :=
          ⟨begun, ⟨k, composite, rfl⟩, lt_size_of_composite? composite, Nat.le_of_eq size.symm, List.nodup_nil,
            fun _ mem => absurd mem List.not_mem_nil, nothing⟩
        rw [after_bind, after_catalog]
        exact (after_drain_root_stage recording clear hsub diligent stage has).mono fun _ _ stage₁ => ended stage₁.tended

end

variable (recording : W.renderer = Recorder.renderer) (clear : W.catalog.IsClear)

include recording clear

theorem diligent_childPart (fuel : Nat) : Diligent W s (childPart fuel) := by
  induction fuel with
  | zero => exact fun _ _ _ _ _ => after_outOfFuel
  | succ fuel ih => exact diligent_childPartWith recording clear (sound_childPart fuel) ih

/-- To ask for a child leaves the inputs of all new children governed. -/
theorem diligent_part : Diligent W s part := by
  intro p id name c proper
  rw [part, after_bind, after_catalog]
  exact diligent_childPart recording clear _ p id name c proper

end Build

end MaterialGraph
