import MaterialGraph.Proofs.Granting
import MaterialGraph.Proofs.Ledger.Children
import MaterialGraph.Proofs.Pervading

/-!
# Connections that are made

A child is connected to the child from which its input takes an output, in whatever order the two are built: the
connection is attempted once both are there, since a part that can be built is never tried in vain, and the attempt
succeeds if there is a node to connect by then.

* `Port.Takes` : an input takes an output of another child.
* `InTime` : the node behind the output does not come too late.
* `Enters.connected`, `Enters.not_lost` : an attempt succeeds, and a connection is not lost.
* `connected_of_load` : whenever a request has been answered, the node is bound to the input.
-/

namespace MaterialGraph

set_option autoImplicit false

open Build Assembly Relation

variable {σ : Type} {s : Recorder} {W : Env Recorder} {C : Catalog} {c c₁ c' : Context Recorder} {id x y z : PartId}
  {g : Graph} {i : Input} {d : Due} {h : Handle} {t : Port} {output : Option String} {j : List Event}

/-! ## What was so earlier -/

theorem Always.earlier {r : Renderer σ} {s : σ} {c c' : Context σ} {P : Assembly → σ → Prop} (always : Always r s P c')
    (now : IsMoment r s c) (suffix : c.journal <:+ c'.journal) : Always r s P c :=
  ⟨now.assembly, now.system, fun j hj => always.moment j (hj.trans suffix)⟩

theorem Orderly.earlier {c c' : Context σ} (orderly : Orderly c') (faithful : Faithful c)
    (suffix : c.journal <:+ c'.journal) : Orderly c :=
  ⟨faithful, orderly.tidy.of_suffix suffix⟩

theorem Grounded.earlier {a a' : Assembly} (grounded : Grounded C a') (more : Extends a a') : Grounded C a := by
  intro id k composite
  obtain ⟨k', composite', graph⟩ := more.composite composite
  obtain ⟨known, wired⟩ := grounded id k' composite'
  rw [graph] at known
  refine ⟨known, fun consumer producer mem => ?_⟩
  obtain ⟨k'', same, noted⟩ := more.edge ⟨k, composite, mem⟩
  cases composite'.symm.trans same
  have := wired consumer producer noted
  rwa [graph] at this

theorem Nested.earlier {c c' : Context σ} (nested : Nested C c') (orderly : Orderly c) (orderly' : Orderly c')
    (later : Later c c') : Nested C c := by
  intro id name x noted
  rcases leaf_or_composite (orderly.lt_of_adopted (mem_adopted_of_noted noted)) with ⟨l, leaf⟩ | ⟨k, composite⟩
  · exact .inl (Option.isSome_of_eq_some leaf)
  · obtain ⟨k', composite', -⟩ := later.ext.composite composite
    rcases nested id name x (later.suffix.subset noted) with leaf | ⟨h, id', g, n, graph, node, noted', recipe, rest⟩
    · rw [leaf?_eq_none_of_composite? composite'] at leaf
      cases leaf
    · -- the child is that of the same composite and of the same name
      obtain ⟨rfl, rfl⟩ := orderly'.tidy.noted_once (later.suffix.subset noted) noted'
      have small := lt_size_of_composite? composite
      have graph := later.ext.hasGraph_of_lt (Nat.lt_trans (orderly.tidy.between noted).1 small) graph
      obtain ⟨implementation, inner⟩ := rest
      exact .inr ⟨h, id, g, n, graph, node, noted, recipe, implementation, later.ext.hasGraph_of_lt small inner⟩

/-- On the way to a context that is proper, children own what their nodes call for and leaves have their nodes. -/
theorem Proper.between (proper : Proper s C c) (steps : Steps Recorder.renderer c c₁) (proper' : Proper s C c')
    (suffix : c₁.journal <:+ c'.journal) : Keeps s c₁ ∧ Orderly c₁ ∧ Equipped c₁.assembly :=
  ⟨proper'.keeps.earlier (steps.moves.isMoment ⟨proper.keeps.assembly, proper.keeps.system⟩) suffix,
    proper'.orderly.earlier (steps.moves.faithful proper.orderly.faithful) suffix, steps.equipped proper.equipped⟩

/-! ## Connections that succeed -/

theorem Connected.later {j' : List Event} (connected : Connected j x i h) (suffix : j <:+ j') : Connected j' x i h := by
  obtain ⟨new, rfl⟩ := suffix
  obtain ⟨later, during, before, producer, output, rfl, rest⟩ := connected
  exact ⟨new ++ later, during, before, producer, output, (List.append_assoc _ _ _).symm, rest⟩

/-- An input is one that its part takes: it belongs to a mapped leaf with a live node. -/
inductive Accepts (c : Context Recorder) (y : PartId) (i : Input) : Prop
  | mapped {l : Leaf} {m : Mapping} {key : InputKey} {g : Handle} (leaf : c.assembly.leaf? y = some l)
      (role : l.role = .mapped m) (known : m.key? i.name = some key) (own : l.hold = .owned g)
      (live : (c.system.node? g).isSome) : Accepts c y i

/-- A live node is bound to an input that its part takes. -/
theorem bindInput_ok {E : Env Recorder} (recording : E.renderer = Recorder.renderer) (accepts : Accepts c y i)
    (live : (c.system.node? h).isSome) : After (bindInput y i (.node h)) E c fun res _ => res = .ok () := by
  obtain @⟨l, m, key, g, leaf, role, known, own, there⟩ := accepts
  rw [After, bindInput_of_leaf leaf, bindLeaf_of_mapped role, bindMapped, known, leafHandle, own]
  dsimp only [Hold.handle?]
  change After (bindNative g key (.node h)) E c _
  rw [bindNative, after_bind, after_act, recording]
  have reply : (Recorder.renderer.act (.bind g key (.node h)) c.system).1 = .ok () := by
    obtain ⟨n, there⟩ := Option.isSome_iff_exists.1 there
    have accepts : c.system.accepts (.node h) = true := live
    change (Recorder.act (.bind g key (.node h)) c.system).1 = .ok ()
    rw [Recorder.act_bind, if_pos accepts, Recorder.modify, there]
  rw [reply]
  exact after_pure.2 rfl

/-- A live node that stands behind an output is connected to an input that its part takes. -/
theorem connect_ok {E : Env Recorder} (recording : E.renderer = Recorder.renderer) (keeps : Keeps s c)
    (there : y ∈ adopted c.journal) (accepts : Accepts c y i)
    (handle : c.assembly.outputHandle? (c.assembly.size + 1) x output = some (.ok h))
    (live : (c.system.node? h).isSome) :
    After (connect x output y i) E c fun res c' => res = .ok () ∧ Connected c'.journal y i h := by
  have found (begun : Context Recorder) (same : begun.assembly = c.assembly) :
      After (outputHandle x output) E begun fun res c₁ => res = .ok h ∧ c₁ = begun := by
    rw [outputHandle, after_bind, after_assembly, after_bind]
    rintro fuel c₁ ⟨⟩
    rw [after_ofOption]
    intro res given
    rw [same, handle] at given
    exact ⟨(Option.some.inj given).symm, rfl⟩
  rw [connect, after_asTask, after_andThen]
  refine (found (c.edit _) rfl).mono ?_
  rintro _ _ ⟨rfl, rfl⟩
  refine ⟨fun g same => ?_, fun e failed => by cases failed⟩
  cases same
  have accepts : Accepts (c.edit (.began (.connection x output y i))) y i := by
    obtain ⟨leaf, role, known, own, live⟩ := accepts
    exact .mapped leaf role known own live
  refine ((bindInput_ok recording accepts live).and after_bindInput).mono ?_
  rintro _ c₁ ⟨rfl, binds⟩
  obtain ⟨during, journal, silent⟩ := binds.silent
  refine ⟨rfl, [], during, c.journal, x, output, ?_, silent, there, ?_⟩
  · rw [Context.edit_journal, journal]
    rfl
  · rw [keeps.assembly]
    exact handle

/-! ## Attempts and losses -/

theorem Catalog.due?_eq_some {n : Node} (due : C.due? id g n y i = some d) : ∃ m output,
    d = ⟨id, n, y, i, m, output⟩ ∧ g.Has m ∧ ∀ nd, C.nodeDefOf? n = some nd → i ∈ nd.inputs → C.Needs g n m := by
  unfold Catalog.due? at due
  dsimp only at due
  split at due
  · next isInput =>
    obtain ⟨m, found, chosen⟩ := Option.bind_eq_some_iff.1 due
    obtain ⟨output, -, rfl⟩ := Option.map_eq_some_iff.1 chosen
    obtain ⟨name, named, there⟩ := Option.bind_eq_some_iff.1 found
    obtain ⟨has, rfl⟩ := mem_of_node? there
    exact ⟨m, output, rfl, has, fun nd definition declared => ⟨nd, i, definition, declared, isInput, named, there⟩⟩
  · cases due

/-- A connection is not lost whose producer can be built. -/
theorem Build.Enters.not_lost (enters : Enters W (.loss d) c c₁) (recording : W.renderer = Recorder.renderer)
    (willing : Willing c) : ¬ W.catalog.Builds d.producer := by
  intro builds
  cases enters with
  | loss way vain barren =>
      rw [recording] at barren
      have before : Willing _ := barren.steps.moves.failing_eq.symm.trans willing
      cases ((builds.delivers recording).buildChild way before).of_eq vain

theorem connect_begun {E : Env σ} {c : Context σ} : After (connect x output y i) E c fun _ c' =>
    .edited (.began (.connection x output y i)) :: c.journal <:+ c'.journal := by
  refine passes_connect.mono ?_
  rintro res _ ⟨c₁, rfl, passes⟩
  refine List.IsSuffix.trans ?_ (List.suffix_cons _ _)
  cases passes with
  | nothing => exact List.suffix_rfl
  | handle _ _ binds =>
      obtain ⟨during, journal, -⟩ := binds.silent
      exact ⟨during, journal.symm⟩

/-- An attempt succeeds if no cycle would arise, the input takes what is bound to it, and there is a node when the
connection begins. -/
theorem Build.Enters.connected (enters : Enters W (.attempt d) c c₁) (recording : W.renderer = Recorder.renderer)
    (keeps : Keeps s c) (there : d.part ∈ adopted c.journal)
    (free : ∀ k, c.assembly.composite? d.composite = some k → ¬ k.dependsOn d.producer.name d.consumer.name)
    (accepts : Accepts c d.part d.input) (producer : c.assembly.child? d.composite d.producer.name = some x)
    (found : .edited (.began (.connection x d.output d.part d.input)) :: c.journal <:+ c₁.journal →
      c.assembly.outputHandle? (c.assembly.size + 1) x d.output = some (.ok h) ∧ (c.system.node? h).isSome) :
    Connected c₁.journal d.part d.input h := by
  cases enters with
  | @attempt _ c₂ _ _ p _ e producer' _ tried =>
      cases producer.symm.trans producer'
      have connects {res : Result Unit} {c₃ : Context Recorder}
          (call : connect x d.output d.part d.input (W.at p) c = .ok (res, c₃)) (since : c₃.journal <:+ e :: c₂.journal) :
          res = .ok () ∧ Connected (e :: c₂.journal) d.part d.input h := by
        obtain ⟨handle, live⟩ := found ((connect_begun.of_eq call).trans since)
        obtain ⟨ok, connected⟩ := (connect_ok (E := W.at p) recording keeps there accepts handle live).of_eq call
        exact ⟨ok, connected.later since⟩
      cases connects_connectChildren.of_eq tried with
      | cycle composite depends => exact (free _ composite depends).elim
      | failed _ call => cases (connects call (List.suffix_cons _ _)).1
      | made _ call => exact (connects call ((List.suffix_cons _ _).trans (List.suffix_cons _ _))).2

/-! ## Inputs that take an output of another child -/

/-- An input takes an output of another child of its composite. The child has been built once, and there is a node behind
the output. -/
structure Port.Takes (C : Catalog) (c : Context Recorder) (id : PartId) (g : Graph) (t : Port) (d : Due) (x : PartId)
    (h : Handle) : Prop where
  here : t.IsOf C c.assembly id g
  own : t.IsOwn
  due : C.due? id g t.node t.part t.input = some d
  producer : c.assembly.child? id d.producer.name = some x
  once : ∀ y, .edited (.child id d.producer.name y) ∈ c.journal → y = x
  handle : c.assembly.outputHandle? (c.assembly.size + 1) x d.output = some (.ok h)

/-- The node behind an output does not come too late for a connection: the leaf to which the output leads has a node of
its own, or the output has led to the node, a live one, whenever the connection has begun. -/
inductive InTime (s : Recorder) (c : Context Recorder) (x : PartId) (output : Option String) (y : PartId) (i : Input)
    (h : Handle) : Prop
  | native {z : PartId} {l : Leaf} (ends : c.assembly.Ends z x output) (leaf : c.assembly.leaf? z = some l)
      (native : Forwards l.role = false) : InTime s c x output y i h
  | arrived (begun : ∀ later before, c.journal = later ++ .edited (.began (.connection x output y i)) :: before →
      (s.told before).assembly.outputHandle? ((s.told before).assembly.size + 1) x output = some (.ok h) ∧
        ((s.told before).system.node? h).isSome) : InTime s c x output y i h

/-- What a list shows of its elements, it shows once if the list shows nothing twice. -/
theorem eq_of_nodup_filterMap {α β : Type} {f : α → Option β} {l : List α} {a b : α} {v : β}
    (nodup : (l.filterMap f).Nodup) (ha : a ∈ l) (hb : b ∈ l) (fa : f a = some v) (fb : f b = some v) : a = b := by
  induction l with
  | nil => cases ha
  | cons e l ih =>
      have shown {x : α} (hx : x ∈ l) (fx : f x = some v) : v ∈ l.filterMap f := List.mem_filterMap.2 ⟨x, hx, fx⟩
      rcases List.mem_cons.1 ha with rfl | olda <;> rcases List.mem_cons.1 hb with rfl | oldb
      · rfl
      · rw [List.filterMap_cons_some fa] at nodup
        exact absurd (shown oldb fb) (List.nodup_cons.1 nodup).1
      · rw [List.filterMap_cons_some fb] at nodup
        exact absurd (shown olda fa) (List.nodup_cons.1 nodup).1
      · exact ih (nodup.sublist ((List.sublist_cons_self e l).filterMap f)) olda oldb

/-- Where no child is noted twice, a child has been built once. -/
theorem Orderly.once (orderly : Orderly c) (nodup : (noted c.journal).Nodup) {name : String}
    (child : c.assembly.child? id name = some x) : ∀ y, .edited (.child id name y) ∈ c.journal → y = x := by
  intro y mem
  have same := eq_of_nodup_filterMap nodup mem (orderly.node_of_child? child).1 rfl rfl
  cases same
  rfl

/-- When a connection begins, the node is there that does not come too late. -/
theorem InTime.found {name : String} {c₀ : Context Recorder} (inTime : InTime s c' x output y i h)
    (answers : Answers W s id c c') (proper : Proper s W.catalog c') (steps : Steps Recorder.renderer c c₀)
    (since : Steps Recorder.renderer c₀ c') (child : c₀.assembly.child? id name = some x)
    (handle : c'.assembly.outputHandle? (c'.assembly.size + 1) x output = some (.ok h))
    (begun : .edited (.began (.connection x output y i)) :: c₀.journal <:+ c'.journal) :
    c₀.assembly.outputHandle? (c₀.assembly.size + 1) x output = some (.ok h) ∧ (c₀.system.node? h).isSome := by
  obtain ⟨keeps, orderly, equipped⟩ := answers.proper.between steps proper since.moves.suffix
  cases inTime with
  | @native z l ends leaf native =>
      -- the output has led to the leaf since the child was noted, and the leaf has kept its node
      have old := orderly.adopted_of_child? child
      have above := (orderly.forest.descends child).1
      have before : c₀.assembly.Ends z x output := (answers.run.grafts answers.proper.orderly).ends proper.orderly orderly
        steps.moves.suffix since ends old above
      obtain ⟨l₀, leaf₀⟩ := before.leaf?
      obtain ⟨form, hold⟩ := since.endures z l₀ l leaf₀ leaf native
      have native₀ : Forwards l₀.role = false := by rw [← forwards_form, form, forwards_form, native]
      have holds : l₀.hold.handle? = some h := by
        have same := ends.outputHandle? leaf handle
        rw [leafHandle, ← hold] at same
        split at same
        · next g holds =>
          cases same
          exact holds
        · cases same
      obtain ⟨_, _, there⟩ := before.isChild ⟨_, _, child⟩
      obtain ⟨g, n, own, live⟩ := live_of_native keeps equipped there leaf₀ native₀
      rw [own] at holds
      cases holds
      exact ⟨before.found orderly.forest.descends leaf₀ (by rw [own]; rfl), Option.isSome_of_eq_some live⟩
  | arrived arrived =>
      obtain ⟨later, journal⟩ := begun
      have there := arrived later c₀.journal journal.symm
      rwa [Recorder.told_journal keeps] at there

/-- A child that is a mapped leaf has been so since it was noted. -/
theorem accepts_of_mapped {name : String} {l : Leaf} {m : Mapping} {key : InputKey} (keeps : Keeps s c)
    (orderly : Orderly c) (equipped : Equipped c.assembly) (since : Steps Recorder.renderer c c')
    (child : c.assembly.child? id name = some y) (leaf : c'.assembly.leaf? y = some l) (role : l.role = .mapped m)
    (known : m.key? i.name = some key) : Accepts c y i := by
  rcases leaf_or_composite (orderly.lt_of_adopted (orderly.adopted_of_child? child)) with ⟨l₀, there⟩ | ⟨k, there⟩
  · obtain rfl := since.endures.mapped there leaf role
    obtain ⟨g, n, own, live⟩ := live_of_native keeps equipped child there (by rw [role]; rfl)
    exact .mapped there role known own (Option.isSome_of_eq_some live)
  · obtain ⟨k', composite, -⟩ := since.extends.composite there
    rw [leaf?_eq_none_of_composite? composite] at leaf
    cases leaf

/-- When a request has been answered, a connection that a new child is due has been attempted, or lost. -/
theorem Answers.settled (answers : Answers W s id c c') (proper : Proper s W.catalog c')
    (here : t.IsOf W.catalog c'.assembly id g) (new : c.assembly.size ≤ t.part)
    (due : W.catalog.due? id g t.node t.part t.input = some d) : ∃ e c₀ c₁, (e = .attempt d ∨ e = .loss d) ∧
      Steps W.renderer c c₀ ∧ Enters W e c₀ c₁ ∧ Steps W.renderer c₁ c' := by
  obtain ⟨name, asks⟩ := answers.requests here.child new
  obtain ⟨es, ledger, law⟩ := asks.balances
  rw [List.append_nil, List.append_nil] at law
  -- the child is an entry of the ledger, and with it the connection is due
  obtain ⟨noted, -⟩ := proper.orderly.node_of_child? here.child
  have fresh : .edited (.child id t.node.name t.part) ∉ c.journal := fun old =>
    Nat.not_lt.2 new (answers.proper.orderly.lt_of_adopted (mem_adopted_of_noted old))
  obtain ⟨g', n, entry, graph, node, same⟩ := ledger.child_of_noted noted fresh
  obtain rfl := graph.unique here.graph
  obtain rfl := node.unique here.node same
  obtain ⟨nd, definition, declared⟩ := here.declared
  have due : d ∈ duesIn W.catalog es := by
    refine List.mem_flatMap.2 ⟨_, entry, List.mem_filterMap.2 ⟨t.input, ?_, due⟩⟩
    rw [definition]
    exact declared
  have settled : ∃ e ∈ es, e = .attempt d ∨ e = .loss d := by
    rcases List.mem_append.1 (law.mem_iff.2 due) with attempted | lost
    · obtain ⟨e, mem, same⟩ := List.mem_filterMap.1 attempted
      cases e <;> cases same
      exact ⟨_, mem, .inl rfl⟩
    · obtain ⟨e, mem, same⟩ := List.mem_filterMap.1 lost
      cases e <;> cases same
      exact ⟨_, mem, .inr rfl⟩
  obtain ⟨e, mem, same⟩ := settled
  obtain ⟨c₀, c₁, steps, enters, after⟩ := ledger.moment mem
  exact ⟨e, c₀, c₁, same, steps, enters, after⟩

/-- When a request has been answered, a new child has been connected to the child from which its input takes an output. -/
theorem Answers.connected {l : Leaf} {m : Mapping} {key : InputKey} (answers : Answers W s id c c')
    (recording : W.renderer = Recorder.renderer) (willing : Willing c) (grounded : Grounded W.catalog c'.assembly)
    (nested : Nested W.catalog c') (unlooped : ∀ n, ¬ TransGen (W.catalog.Needs g) n n)
    (takes : t.Takes W.catalog c' id g d x h) (new : c.assembly.size ≤ t.part)
    (inTime : InTime s c' x d.output t.part t.input h) (leaf : c'.assembly.leaf? t.part = some l)
    (role : l.role = .mapped m) (known : m.key? t.input.name = some key) :
    Connected c'.journal t.part t.input h := by
  have proper := answers.proper.run recording answers.run
  obtain ⟨e, c₀, c₁, same, steps, enters, after⟩ := answers.settled proper takes.here new takes.due
  have since : Steps W.renderer c₀ c' := enters.steps.trans after
  rw [recording] at steps since
  obtain ⟨producer, output, rfl, has, needs⟩ := Catalog.due?_eq_some takes.due
  rcases same with rfl | rfl
  · obtain ⟨keeps, orderly, equipped⟩ := answers.proper.between steps proper since.moves.suffix
    obtain ⟨x₀, child, consumer⟩ : ∃ x₀, c₀.assembly.child? id producer.name = some x₀ ∧
        c₀.assembly.child? id t.node.name = some t.part := by
      cases enters with
      | attempt child consumer => exact ⟨_, child, consumer⟩
    obtain rfl := takes.once x₀ (since.moves.suffix.subset (orderly.node_of_child? child).1)
    have accepts := accepts_of_mapped keeps orderly equipped since consumer leaf role known
    have connected := enters.connected recording keeps (orderly.adopted_of_child? consumer) ?free accepts child
      fun begun => inTime.found answers proper steps since child takes.handle (begun.trans after.moves.suffix)
    · exact connected.later after.moves.suffix
    case free =>
      -- nothing is noted of the composite but what nodes need, and so no cycle would arise
      intro k composite depends
      obtain ⟨-, wired⟩ := grounded.earlier since.extends id k composite
      have graph : HasGraph c₀.assembly id k.graph := ⟨k, composite, rfl⟩
      obtain rfl := (graph.extends since.extends).unique takes.here.graph
      obtain ⟨nd, definition, declared⟩ := takes.here.declared
      have back := Composite.dependsOn_sound wired takes.here.node has depends
      exact unlooped t.node (.head' (needs nd definition declared) back)
  · obtain ⟨z, l, ends, -⟩ := exists_ends takes.handle
    have builds := builds_of_ends nested proper.orderly proper.keeps.now takes.producer takes.here.graph has ends
    exact (enters.not_lost recording (steps.moves.willing willing) builds).elim

/-- The node behind the output has then come to the input. -/
theorem Answers.shown (answers : Answers W s id c c') (recording : W.renderer = Recorder.renderer)
    (willing : Willing c) (clear : W.catalog.IsClear) (grounded : Grounded W.catalog c'.assembly)
    (nested : Nested W.catalog c') (unlooped : ∀ n, ¬ TransGen (W.catalog.Needs g) n n)
    (takes : t.Takes W.catalog c' id g d x h) (new : c.assembly.size ≤ t.part)
    (inTime : InTime s c' x d.output t.part t.input h) : Shown c' t.part t.input (.node h) := by
  intro l m key leaf role known
  have connected := answers.connected recording willing grounded nested unlooped takes new inTime leaf role known
  have governed := answers.governed recording clear takes.here.isIn new
  exact governed.connection takes.own connected t.part t.input .refl l m key leaf role known

/-! ## Loads -/

theorem Recorder.failing_follow (s : Recorder) (j : List Event) : (renderer.follow s j).failing = s.failing := by
  induction j generalizing s with
  | nil => rfl
  | cons e j ih =>
      refine (ih (e.answerOn renderer s)).trans ?_
      cases e with
      | created type => exact failing_create type
      | acted a => exact failing_act a
      | _ => rfl

/-- What is so when a request has been answered in a load that returns: the recorder was willing when the request was
made, composites note nothing but what nodes need, and children that are no leaves have been expanded. -/
theorem reached_of_load {l : Loader} {document : Document} {options : LoadOptions} {fileExists : String → Bool}
    {o : Outcome Recorder} {upto later before during : List Event} {first : Event} {name : String} {made : Bool}
    (loaded : l.load document options fileExists Recorder.renderer s = some o) (willing : s.failing = [])
    (split : o.journal = upto ++ later)
    (answered : upto = before ++ first :: (during ++ [.edited (.ended (.child id name) made)])) (asks : first.isRequest)
    (closes : unanswered? 0 during = some 0) :
    ∃ c, Answers (l.env document options fileExists Recorder.renderer) s id c (s.told upto.reverse) ∧
      c.assembly.size ≤ (replay before).size ∧ Willing c ∧
      Grounded (l.catalog document) (s.told upto.reverse).assembly ∧ Nested (l.catalog document) (s.told upto.reverse) := by
  obtain ⟨c, answers, size⟩ := answers_of_trace ((trace_of_load loaded).trans split) answered asks closes
  obtain ⟨e, e', -, charted, closing, -, journal⟩ := charted_of_load loaded
  have proper := answers.proper.run rfl answers.run
  have later : Later (s.told upto.reverse) e := by
    have here : upto.reverse <:+ e'.journal := by
      rw [← List.reverse_reverse e'.journal, ← journal, split, List.reverse_append]
      exact List.suffix_append _ _
    have latest : upto.reverse = .edited (.ended (.child id name) made) :: (during.reverse ++ first :: before.reverse) := by
      rw [answered]
      simp
    rw [latest] at here
    have suffix : (s.told upto.reverse).journal <:+ e.journal := by
      change upto.reverse <:+ e.journal
      rw [latest]
      exact closing.leafwork.suffix_of_cons here not_false
    exact ⟨proper.orderly.faithful.extends charted.orderly.faithful suffix, suffix⟩
  have ready : Willing c := by
    rw [Willing, ← answers.proper.keeps.system, Recorder.failing_follow, willing]
  exact ⟨c, answers, size, ready, charted.grounded.earlier later.ext,
    charted.nested.earlier proper.orderly charted.orderly later⟩

/-- Whenever a request for a child has been answered in a load that returns, whatever the order in which nodes are
built: if an input of a mapped leaf that has been built for it takes an output of another node of the graph, and there is
a node behind that output which has not come too late, the leaf has the node for the input. No types are refused, and
no nodes of the graph need each other in a circle. -/
theorem connected_of_load {l : Loader} {document : Document} {options : LoadOptions} {fileExists : String → Bool}
    {o : Outcome Recorder} {upto later before during : List Event} {first : Event} {name : String} {made : Bool}
    (loaded : l.load document options fileExists Recorder.renderer s = some o) (willing : s.failing = [])
    (clear : (l.catalog document).IsClear) (unlooped : ∀ n, ¬ TransGen ((l.catalog document).Needs g) n n)
    (split : o.journal = upto ++ later)
    (answered : upto = before ++ first :: (during ++ [.edited (.ended (.child id name) made)])) (asks : first.isRequest)
    (closes : unanswered? 0 during = some 0)
    (takes : t.Takes (l.catalog document) (s.told upto.reverse) id g d x h) (new : (replay before).size ≤ t.part)
    (inTime : InTime s (s.told upto.reverse) x d.output t.part t.input h) :
    Shown (s.told upto.reverse) t.part t.input (.node h) := by
  obtain ⟨c, answers, size, ready, grounded, nested⟩ := reached_of_load loaded willing split answered asks closes
  exact answers.shown rfl ready clear grounded nested unlooped takes (Nat.le_trans size new) inTime

/-- An `add` that takes the value of a node that follows. -/
def awaiting.last : Node where
  name := "last"
  category := "add"
  type := "float"
  inputs := [{ name := "in1", type := "float", nodeName := some "twice" }]

/-- The node that follows. It is expanded, and takes the value of one that follows in turn. -/
def awaiting.twice : Node where
  name := "twice"
  category := "double"
  type := "float"
  inputs := [{ name := "of", type := "float", nodeName := some "base" }]

def awaiting : Document where
  nodeDefs := [
    { name := "ND_add", node := "add", type := "float"
      inputs := [{ name := "in1", type := "float" }, { name := "in2", type := "float" }] },
    { name := "ND_double", node := "double", type := "float", nodeGraph := some "NG_double"
      inputs := [{ name := "of", type := "float" }] }]
  nodeGraphs := [
    { name := "NG_double", nodeDef := some "ND_double"
      nodes := [
        { name := "sum", category := "add", type := "float"
          inputs := [
            { name := "in1", type := "float", interfaceName := some "of" },
            { name := "in2", type := "float", interfaceName := some "of" }] }]
      outputs := [{ name := "out", type := "float", nodeName := some "sum" }] }]
  nodes := [awaiting.last, awaiting.twice, { name := "base", category := "add", type := "float" }]
  outputs := [{ name := "o", type := "float", nodeName := some "last" }]

/-- What is to be seen of a load of it when the first node has been given. -/
structure awaiting.View where
  asks : Option Bool
  answers : Option (PartId × String × Bool)
  unanswered : Option Nat
  size : Nat
  graph : Option Graph
  children : Option PartId × Option PartId
  nodup : Bool
  handle : Option (Except LoadError Handle)
  behind : Option (Except LoadError (PartId × Option String))
  native : Option Bool
  bound : Option (Option Bound)
deriving DecidableEq

def awaiting.view (j : List Event) : awaiting.View :=
  let a := replay (j.take 55)
  { asks := j[4]?.map Event.isRequest
    answers := j[54]?.bind Event.answer?
    unanswered := unanswered? 0 ((j.take 54).drop 5)
    size := (replay (j.take 4)).size
    graph := (a.composite? 0).map (·.graph)
    children := (a.child? 0 "last", a.child? 0 "twice")
    nodup := decide (noted (j.take 55).reverse).Nodup
    handle := a.outputHandle? (a.size + 1) 2 none
    behind := (a.composite? 2).map fun k => Assembly.behind k none
    native := (a.leaf? 3).map fun l => Forwards l.role
    bound := ((Recorder.told {} (j.take 55).reverse).system.node? ⟨0⟩).map fun n => n.bound .color0 }

/-- The first node takes the node to which the second leads, though it was built when the second was not there. -/
theorem connected_of_load_awaiting :
    ∃ o, Loader.load {} awaiting {} (fun _ => false) Recorder.renderer {} = some o ∧
      Shown (Recorder.told {} (o.journal.take 55).reverse) 1 { name := "in1", type := "float" } (.node ⟨1⟩) ∧
      (awaiting.view o.journal).bound = some (some (.node ⟨1⟩)) := by
  have evaluated : (Loader.load {} awaiting {} (fun _ => false) Recorder.renderer {}).map
      (fun o => awaiting.view o.journal) = some {
        asks := some true
        answers := some (0, "last", true)
        unanswered := some 0
        size := 1
        graph := some (.document awaiting)
        children := (some 1, some 2)
        nodup := true
        handle := some (.ok ⟨1⟩)
        behind := some (.ok (3, none))
        native := some false
        bound := some (some (.node ⟨1⟩)) } := by
    decide +kernel
  obtain ⟨o, loaded, view⟩ := Option.map_eq_some_iff.1 evaluated
  have see {α : Type} (f : awaiting.View → α) := congrArg f view
  obtain ⟨first, fourth, asks⟩ := Option.map_eq_some_iff.1 (see (·.asks))
  obtain ⟨last, latest, answers⟩ := Option.bind_eq_some_iff.1 (see (·.answers))
  obtain rfl := Event.answer?_eq_some answers
  have answered := take_eq_of_getElem? fourth latest (by decide)
  have split := (List.take_append_drop 55 o.journal).symm
  have clear : (Loader.catalog {} awaiting).IsClear := Catalog.isClear_of_nodeDefs (by decide +kernel)
  have acyclic : (Loader.catalog {} awaiting).IsAcyclic :=
    Catalog.isAcyclic_of_lt (fun s => if s.node.name = "last" then 2 else if s.node.name = "twice" then 1 else 0)
      (by decide +kernel)
  obtain ⟨fits, tidy⟩ := tidy_of_trace ((trace_of_load loaded).trans split)
  let c : Context Recorder := Recorder.told {} (o.journal.take 55).reverse
  have orderly : Orderly c := ⟨⟨rfl, fits⟩, tidy⟩
  have assembly : c.assembly = replay (o.journal.take 55) := congrArg replay (List.reverse_reverse _)
  obtain ⟨k, composite, graph⟩ := Option.map_eq_some_iff.1 (see (·.graph))
  obtain ⟨child, producer⟩ := Prod.mk.inj (see (·.children))
  have handle := see (·.handle)
  obtain ⟨inner, composite', found⟩ := Option.map_eq_some_iff.1 (see (·.behind))
  obtain ⟨l, leaf, native⟩ := Option.map_eq_some_iff.1 (see (·.native))
  change (replay (o.journal.take 55)).outputHandle? ((replay (o.journal.take 55)).size + 1) 2 none = _ at handle
  rw [← assembly] at composite child producer handle composite' leaf
  let i : Input := { name := "in1", type := "float" }
  have definition : (Loader.catalog {} awaiting).nodeDefOf? awaiting.last =
      some { name := "ND_add", node := "add", type := "float", inputs := [i, { name := "in2", type := "float" }] } := by
    decide +kernel
  have has : (Graph.document awaiting).node? awaiting.last.name = some awaiting.last := by decide
  have takes : Port.Takes (Loader.catalog {} awaiting) c 0 (.document awaiting) ⟨1, awaiting.last, i⟩
      ⟨0, awaiting.last, 1, i, awaiting.twice, none⟩ 2 ⟨1⟩ := {
    here := ⟨⟨k, composite, graph⟩, has, child, _, definition, .head _⟩
    own := fun e named => by cases named; rfl
    due := by decide +kernel
    producer := producer
    once := orderly.once (of_decide_eq_true (see (·.nodup))) producer
    handle := handle }
  have inTime : InTime {} c 2 none 1 i ⟨1⟩ := .native (.child composite' found (.leaf leaf)) leaf native
  exact ⟨o, loaded, connected_of_load loaded rfl clear (acyclic.not_loops (.head _)) split answered asks
    (see (·.unanswered)) takes (Nat.le_of_eq (see (·.size))) inTime, see (·.bound)⟩

/-- An `add` that takes the value of a displacement. -/
def tardy.last : Node where
  name := "last"
  category := "add"
  type := "float"
  inputs := [{ name := "in1", type := "float", nodeName := some "bump" }]

/-- A document with such a node. The displacement takes the value of another `add`. -/
def tardy : Document where
  nodeDefs := [
    { name := "ND_add", node := "add", type := "float"
      inputs := [{ name := "in1", type := "float" }, { name := "in2", type := "float" }] },
    { name := "ND_displacement", node := "displacement", type := "displacementshader"
      inputs := [{ name := "displacement", type := "float" }] }]
  nodes := [
    tardy.last,
    { name := "bump", category := "displacement", type := "displacementshader"
      inputs := [{ name := "displacement", type := "float", nodeName := some "base" }] },
    { name := "base", category := "add", type := "float" }]
  outputs := [{ name := "o", type := "float", nodeName := some "last" }]

/-- A node that comes too late is not connected. When the first node has been given, there is a node behind the
displacement, but when the connection to it was attempted, the displacement had none. -/
theorem late_node_is_lost :
    ∃ o, Loader.load {} tardy {} (fun _ => false) Recorder.renderer {} = some o ∧
      ((Loader.catalog {} tardy).due? 0 (.document tardy) tardy.last 1 { name := "in1", type := "float" }).isSome ∧
      (replay (o.journal.take 37)).child? 0 "bump" = some 2 ∧
      (replay (o.journal.take 37)).outputHandle? 4 2 none = some (.ok ⟨1⟩) ∧
      ¬ Shown (Recorder.told {} (o.journal.take 37).reverse) 1 { name := "in1", type := "float" } (.node ⟨1⟩) := by
  have evaluated : (Loader.load {} tardy {} (fun _ => false) Recorder.renderer {}).map (fun o =>
      let c : Context Recorder := Recorder.told {} (o.journal.take 37).reverse
      (((replay (o.journal.take 37)).child? 0 "bump", (replay (o.journal.take 37)).outputHandle? 4 2 none),
        c.assembly.leaf? 1, (c.system.node? ⟨0⟩).map fun n => n.bound .color0)) =
      some ((some 2, some (.ok ⟨1⟩)), some ⟨.owned ⟨0⟩, .mapped (.binary .add)⟩, some none) := by decide +kernel
  obtain ⟨o, loaded, view⟩ := Option.map_eq_some_iff.1 evaluated
  obtain ⟨producer, consumer⟩ := Prod.mk.inj view
  obtain ⟨child, handle⟩ := Prod.mk.inj producer
  obtain ⟨leaf, bound⟩ := Prod.mk.inj consumer
  refine ⟨o, loaded, by decide +kernel, child, handle, fun shown => ?_⟩
  obtain ⟨h, n, own, live, given⟩ := shown _ _ .color0 leaf rfl rfl
  cases own
  rw [live] at bound
  cases given.symm.trans (Option.some.inj bound)

end MaterialGraph
