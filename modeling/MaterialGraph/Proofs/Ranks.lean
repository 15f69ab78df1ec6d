import Mathlib.Data.List.Lex
import MaterialGraph.Proofs.Changes
import MaterialGraph.Proofs.Connections
import MaterialGraph.Proofs.Traces

/-!
# Ranks of parts

The way down to a part is told by the nodes of the children on it. Such ways are ordered: one comes before another if,
where they part, its node depends on that of the other, but not the other way round, or takes its value, as far as the
composite has noted. Parts are ranked by what they stand below, first what no graph shares, then shared composites, then
what looks up a geometric property, and then by their ways.

* `Route` : the way down to a part. There is one (`Route.unique`, `exists_route`).
* `Nested` : the composite of a child is that of a node that is expanded. Changes keep it (`Change.nested`).
* `Precedes` : one child comes before another. `Outranks` : so does one part. The orders are strict (`Precedes.trans`,
  `not_precedes_self`, `Outranks.trans`, `not_outranks_self`).
* `Charted` : what it takes to tell the ways. What a load builds is charted (`charted_of_load`).
-/

namespace MaterialGraph

set_option autoImplicit false

open Build Assembly Relation

variable {σ : Type} {W : Env σ} {c c' e : Context σ} {C : Catalog} {selected : List (OutputKind × Candidate)}
  {id top x y z : PartId} {g : Graph} {n : Node} {t : PartId × Spot} {path path' : List (PartId × Spot)}

/-! ## Ways down -/

/-- The way from a part down to another: the nodes of the children on it, which have been noted of composites. -/
inductive Route (c : Context σ) (top : PartId) : PartId → List (PartId × Spot) → Prop
  | here : Route c top top []
  | child {id x : PartId} {g : Graph} {n : Node} {path : List (PartId × Spot)} (above : Route c top id path)
      (noted : .edited (.child id n.name x) ∈ c.journal) (graph : HasGraph c.assembly id g) (node : g.Has n) :
      Route c top x (path ++ [(id, ⟨g, n⟩)])

namespace Route

theorem later (h : Route c top x path) (later : Later c c') : Route c' top x path := by
  induction h with
  | here => exact .here
  | child _ noted graph node ih => exact ih.child (later.suffix.subset noted) (graph.extends later.ext) node

theorem trans (h₁ : Route c x y path) (h₂ : Route c y z path') : Route c x z (path ++ path') := by
  induction h₂ with
  | here => rwa [List.append_nil]
  | child _ noted graph node ih =>
      rw [← List.append_assoc]
      exact ih.child noted graph node

theorem eq_of_nil (h : Route c top x []) : x = top := by
  generalize empty : [] = way at h
  cases h with
  | here => rfl
  | child => exact absurd empty.symm (List.append_ne_nil_of_right_ne_nil _ (List.cons_ne_nil _ _))

/-- A part is a composite if there are others below it. -/
theorem composite (h : Route c top x (t :: path)) : ∃ g, HasGraph c.assembly top g := by
  generalize whole : t :: path = way at h
  induction h generalizing t path with
  | here => cases whole
  | @child id x g n before above _ graph _ ih =>
      cases before with
      | nil => exact ⟨g, above.eq_of_nil ▸ graph⟩
      | cons => exact ih rfl

/-- There is one way down to a part. -/
theorem unique {top' : PartId} (orderly : Orderly c) (h : Route c top x path) (h' : Route c top' x path')
    (first : top ∉ adopted c.journal) (first' : top' ∉ adopted c.journal) : top = top' ∧ path = path' := by
  induction h generalizing path' with
  | here =>
      cases h' with
      | here => exact ⟨rfl, rfl⟩
      | child _ noted => exact absurd (mem_adopted_of_noted noted) first
  | child _ noted graph node ih =>
      cases h' with
      | here => exact absurd (mem_adopted_of_noted noted) first'
      | child above' noted' graph' node' =>
          obtain ⟨rfl, same⟩ := orderly.tidy.noted_once noted noted'
          obtain ⟨rfl, rfl⟩ := ih above'
          obtain rfl := graph.unique graph'
          obtain rfl := node.unique node' same
          exact ⟨rfl, rfl⟩

end Route

/-- A child that has been noted is that of a node of the graph. -/
theorem Orderly.node_of_noted (orderly : Orderly c) {name : String} (noted : .edited (.child id name x) ∈ c.journal) :
    ∃ g n, HasGraph c.assembly id g ∧ g.Has n ∧ n.name = name := by
  obtain ⟨k, composite, m, mem, named⟩ := orderly.tidy.names_of_noted orderly.faithful.fits noted
  rw [orderly.faithful.assembly] at composite
  have there : (k.graph.node? name).isSome :=
    List.find?_isSome.2 ⟨m, mem, decide_eq_true named⟩
  obtain ⟨n, found⟩ := Option.isSome_iff_exists.1 there
  obtain ⟨node, same⟩ := mem_of_node? found
  exact ⟨k.graph, n, ⟨k, composite, rfl⟩, node, same⟩

theorem route_of_below (orderly : Orderly c) (below : Below c.assembly x y) : ∃ path, Route c x y path := by
  induction below with
  | refl => exact ⟨[], .here⟩
  | child _ child ih =>
      obtain ⟨path, above⟩ := ih
      rw [← orderly.faithful.assembly] at child
      have noted := noted_of_child? orderly.faithful.fits child
      obtain ⟨g, n, graph, node, rfl⟩ := orderly.node_of_noted noted
      exact ⟨_, above.child noted graph node⟩

theorem noted_of_mem_adopted {j : List Event} (h : x ∈ adopted j) : ∃ id name, .edited (.child id name x) ∈ j := by
  obtain ⟨event, mem, adopts⟩ := List.mem_filterMap.1 h
  unfold Event.adopted? at adopts
  split at adopts
  · cases adopts
    exact ⟨_, _, mem⟩
  · cases adopts

/-- Every part stands below one that is no child. -/
theorem exists_route (orderly : Orderly c) (x : PartId) :
    ∃ top ≤ x, top ∉ adopted c.journal ∧ ∃ path, Route c top x path := by
  induction x using Nat.strong_induction_on with
  | _ x ih =>
    by_cases child : x ∈ adopted c.journal
    · obtain ⟨id, name, noted⟩ := noted_of_mem_adopted child
      have before := (orderly.tidy.between noted).1
      obtain ⟨g, n, graph, node, rfl⟩ := orderly.node_of_noted noted
      obtain ⟨top, le, first, path, above⟩ := ih id before
      exact ⟨top, Nat.le_trans le (Nat.le_of_lt before), first, _, above.child noted graph node⟩
    · exact ⟨x, Nat.le_refl _, child, [], .here⟩

/-! ## Expansions -/

/-- What has been noted as a child is a leaf, or the composite of a node that is expanded. -/
def Nested (C : Catalog) (c : Context σ) : Prop :=
  ∀ id name x, .edited (.child id name x) ∈ c.journal → IsNested C c x

namespace Nested

theorem start (system : σ) : Nested C ({ system } : Context σ) := by
  rintro _ _ _ ⟨⟩

theorem quiet (nested : Nested C c) (later : Later c c') (quiet : Only (fun e => e.adopted? = none) c c') :
    Nested C c' := fun id name x noted => (nested id name x (quiet.noted noted rfl)).later later

theorem note (nested : Nested C c) {name : String} (new : IsNested C (c.edit (.child id name x)) x) :
    Nested C (c.edit (.child id name x)) := by
  intro id' name' x' noted
  rcases List.mem_cons.1 noted with same | noted
  · cases same
    exact new
  · exact (nested id' name' x' noted).later (.note _ (.child _ _ _))

end Nested

/-- The children that a change notes are leaves, or composites of nodes that are expanded. -/
theorem Change.nested (change : Change W selected e c c') (nested : Nested W.catalog c) : Nested W.catalog c' := by
  have later : Later c c' := .of_steps change.steps
  cases change with
  | message message => exact nested.quiet later (Leafwork.message message).unadopting
  | mark mark => exact nested.quiet later (by cases mark <;> exact .event rfl rfl)
  | refused _ creation => exact nested.quiet later creation.leafwork.unadopting
  | wrap _ creation => exact nested.quiet later (creation.leafwork.unadopting.trans (.event rfl rfl))
  | composite | socket | edge | top | freeStanding => exact nested.quiet later (.event rfl rfl)
  | @leafChild p id g n l c₁ _ makes =>
      have made : Later c (c₁.edit (.add (.leaf l))) := .of_steps (.single makes.steps)
      have added := nested.quiet made (makes.leafwork.unadopting.trans (.event rfl rfl))
      refine added.note (.inl ?_)
      rw [Context.edit_assembly, leaf?_child, Context.edit_assembly, leaf?_add_leaf, if_pos rfl]
      rfl
  | @compositeChild p id x g n h situated recipe implementation graph =>
      refine nested.note (.inr ⟨h, id, g, n, ?_, situated.sits.2, List.mem_cons_self, recipe, implementation, ?_⟩)
      · exact situated.lies.1.extends later.ext
      · exact graph.extends later.ext
  | sibling _ _ _ _ _ _ connected | connection _ _ _ _ connected =>
      exact nested.quiet later (Connects.of_eq connected).leafwork.unadopting
  | literal _ _ _ bound =>
      have binds := Binds.of_eq bound
      exact nested.quiet later binds.leafwork.unadopting
  | geometry _ creation =>
      exact nested.quiet later ((creation.leafwork.unadopting.trans (.event rfl rfl)).trans (.event rfl rfl))

theorem Changes.nested (changes : Changes W selected e c c') (nested : Nested W.catalog c) : Nested W.catalog c' := by
  induction changes with
  | refl => exact nested
  | tail _ change ih => exact change.nested ih

/-- The child for a node is a leaf, or the node is expanded to the graph of the child. -/
theorem Nested.expands (nested : Nested C c) (orderly : Orderly c) (noted : .edited (.child id n.name x) ∈ c.journal)
    (graph : HasGraph c.assembly id g) (node : g.Has n) : (c.assembly.leaf? x).isSome ∨ Recipe.of n = .ok .expand ∧
      ∃ h, (C.nodeDefOf? n).bind C.implementation? = some h ∧ HasGraph c.assembly x (.named h) := by
  rcases nested id n.name x noted with leaf | ⟨h, id', g', n', graph', node', noted', recipe, implementation, inner⟩
  · exact .inl leaf
  · obtain ⟨rfl, name⟩ := orderly.tidy.noted_once noted noted'
    obtain rfl := graph.unique graph'
    obtain rfl := node.unique node' name
    exact .inr ⟨recipe, h, implementation, inner⟩

/-- The node of a child depends on all nodes of the graph of the child. -/
theorem Nested.depends (nested : Nested C c) (orderly : Orderly c) (grounded : Grounded C c.assembly) {g' : Graph}
    {m : Node} (noted : .edited (.child id n.name x) ∈ c.journal) (graph : HasGraph c.assembly id g) (node : g.Has n)
    (inner : HasGraph c.assembly x g') (node' : g'.Has m) : C.Depends ⟨g, n⟩ ⟨g', m⟩ := by
  rcases nested.expands orderly noted graph node with leaf | ⟨recipe, h, implementation, inner'⟩
  · obtain ⟨k, composite, -⟩ := inner
    rw [leaf?_eq_none_of_composite? composite] at leaf
    cases leaf
  · obtain rfl := inner.unique inner'
    obtain ⟨k, composite, rfl⟩ := graph
    exact Catalog.depends_expanded (Catalog.mem_spots (grounded id k composite).1 node.mem) recipe implementation node'.mem

/-- The first node on a way leads to all others on it, and to all nodes of the graph where it ends. -/
theorem Route.depends (h : Route c top x (t :: path)) (nested : Nested C c) (orderly : Orderly c)
    (grounded : Grounded C c.assembly) :
    (∀ t' ∈ path, TransGen C.Depends t.2 t'.2) ∧
      ∀ g m, HasGraph c.assembly x g → g.Has m → TransGen C.Depends t.2 ⟨g, m⟩ := by
  generalize whole : t :: path = way at h
  induction h generalizing t path with
  | here => cases whole
  | @child id x g n before above noted graph node ih =>
      cases before with
      | nil =>
          cases whole
          exact ⟨fun _ mem => absurd mem List.not_mem_nil, fun g' m inner node' =>
            .single (nested.depends orderly grounded noted graph node inner node')⟩
      | cons t' before =>
          obtain ⟨rfl, rfl⟩ := List.cons.inj whole
          obtain ⟨all, last⟩ := ih rfl
          have reaches : TransGen C.Depends t.2 ⟨g, n⟩ := last g n graph node
          refine ⟨fun t' mem => ?_, fun g' m inner node' => ?_⟩
          · rcases List.mem_append.1 mem with mem | mem
            · exact all t' mem
            · exact List.mem_singleton.1 mem ▸ reaches
          · exact reaches.tail (nested.depends orderly grounded noted graph node inner node')

/-! ## Children -/

/-- The child for one node takes a value from the child for another, as far as the composite has noted. -/
inductive Linked (a : Assembly) (id : PartId) : Spot → Spot → Prop
  | edge {g : Graph} {n m : Node} (graph : HasGraph a id g) (consumer : g.Has n) (producer : g.Has m)
      (noted : a.HasEdge id n.name m.name) : Linked a id ⟨g, n⟩ ⟨g, m⟩

theorem Linked.composite {a : Assembly} {s t : Spot} (h : Linked a x s t) :
    ∃ k, a.composite? x = some k ∧ k.TakesFrom s.node.name t.node.name := by
  obtain ⟨-, -, -, noted⟩ := h
  exact noted

/-- A node depends on whatever its child takes a value from. -/
theorem Linked.depends {a : Assembly} {s t : Spot} (h : Linked a x s t) (grounded : Grounded C a) : C.Depends s t := by
  obtain @⟨g, n, m, ⟨k, there, rfl⟩, hn, hm, ⟨k', there', noted⟩⟩ := h
  cases there.symm.trans there'
  obtain ⟨graph, wired⟩ := grounded x k there
  obtain ⟨n', m', hn', needs, same, same'⟩ := wired _ _ noted
  obtain rfl := hn'.unique hn same
  obtain rfl := needs.has.unique hm same'
  exact needs.depends graph hn.mem

/-- One child comes before another: it takes a value from it, directly or through others of its composite, or its node
depends on that of the other, but not the other way round. -/
def Precedes (C : Catalog) (a : Assembly) (s t : PartId × Spot) : Prop :=
  s.1 = t.1 ∧ TransGen (Linked a s.1) s.2 t.2 ∨ TransGen C.Depends s.2 t.2 ∧ ¬ TransGen C.Depends t.2 s.2

namespace Precedes

variable {a : Assembly} {s t u : PartId × Spot}

theorem depends (h : Precedes C a s t) (grounded : Grounded C a) : TransGen C.Depends s.2 t.2 := by
  rcases h with ⟨-, linked⟩ | ⟨depends, -⟩
  · exact TransGen.mono (fun _ _ link => link.depends grounded) _ _ linked
  · exact depends

theorem trans (grounded : Grounded C a) (h₁ : Precedes C a s t) (h₂ : Precedes C a t u) : Precedes C a s u := by
  have first := h₁.depends grounded
  have second := h₂.depends grounded
  rcases h₁ with ⟨same, linked⟩ | ⟨-, alone⟩
  · rcases h₂ with ⟨same', linked'⟩ | ⟨-, alone'⟩
    · exact .inl ⟨same.trans same', linked.trans (same ▸ linked')⟩
    · exact .inr ⟨first.trans second, fun back => alone' (back.trans first)⟩
  · exact .inr ⟨first.trans second, fun back => alone (second.trans back)⟩

/-- What escapes leads to what comes later. -/
theorem of_escapes (guarded : C.IsGuarded) (leads : ReflTransGen C.Depends s.2 u.2) (escapes : C.Escapes u.2 t.2) :
    Precedes C a s t :=
  .inr ⟨.tail' leads escapes.1, fun back => guarded _ _ escapes (back.to_reflTransGen.trans leads)⟩

end Precedes

/-- Where no composite has noted a cycle, no child comes before itself. -/
theorem not_precedes_self {a : Assembly} (acyclic : Each Composite.IsAcyclic a) (s : PartId × Spot) :
    ¬ Precedes C a s s := by
  rintro (⟨-, linked⟩ | ⟨depends, alone⟩)
  · obtain ⟨_, -, link⟩ := TransGen.tail'_iff.1 linked
    obtain ⟨k, there, -⟩ := link.composite
    refine acyclic _ k there s.2.node.name (TransGen.lift (fun t : Spot => t.node.name) (fun _ _ link => ?_) _ _ linked)
    obtain ⟨k', there', takes⟩ := link.composite
    cases there.symm.trans there'
    exact takes
  · exact alone depends

/-! ## Ranks -/

/-- The rank of a part that is no child: it is high unless graphs share the part, and a leaf comes last. -/
def rank (c : Context σ) (top : PartId) : Nat :=
  if top ∈ sharing c.journal then (if (c.assembly.leaf? top).isSome then 0 else 1) else top + 2

/-- A part stands below one of a rank, and this is the way to it. -/
def Ranked (c : Context σ) (x : PartId) (r : Nat) (path : List (PartId × Spot)) : Prop :=
  ∃ top, top ∉ adopted c.journal ∧ rank c top = r ∧ Route c top x path

/-- One part comes before another: it stands below one of a higher rank, or where their ways part the child on its way
comes before that on the other. -/
def Outranks (C : Catalog) (c : Context σ) (x y : PartId) : Prop :=
  ∃ r path r' path', Ranked c x r path ∧ Ranked c y r' path' ∧
    (r' < r ∨ r = r' ∧ List.Lex (Precedes C c.assembly) path path')

theorem Ranked.unique {r r' : Nat} (h : Ranked c x r path) (orderly : Orderly c) (h' : Ranked c x r' path') :
    r = r' ∧ path = path' := by
  obtain ⟨top, first, rfl, way⟩ := h
  obtain ⟨top', first', rfl, way'⟩ := h'
  obtain ⟨rfl, rfl⟩ := way.unique orderly way' first first'
  exact ⟨rfl, rfl⟩

/-- All that is needed to tell the ways down to parts. -/
structure Charted (C : Catalog) (c : Context σ) : Prop where
  orderly : Orderly c
  grounded : Grounded C c.assembly
  nested : Nested C c
  acyclic : Each Composite.IsAcyclic c.assembly

theorem Outranks.trans (charted : Charted C c) (h₁ : Outranks C c x y) (h₂ : Outranks C c y z) : Outranks C c x z := by
  obtain ⟨r₁, p₁, r₂, p₂, ranked₁, ranked₂, before⟩ := h₁
  obtain ⟨r₂', p₂', r₃, p₃, ranked₂', ranked₃, before'⟩ := h₂
  obtain ⟨rfl, rfl⟩ := ranked₂.unique charted.orderly ranked₂'
  refine ⟨r₁, p₁, r₃, p₃, ranked₁, ranked₃, ?_⟩
  rcases before with lt | ⟨rfl, lex⟩ <;> rcases before' with lt' | ⟨rfl, lex'⟩
  · exact .inl (Nat.lt_trans lt' lt)
  · exact .inl lt
  · exact .inl lt'
  · exact .inr ⟨rfl, List.lex_trans (Precedes.trans charted.grounded) lex lex'⟩

/-- No part comes before itself. -/
theorem not_outranks_self (charted : Charted C c) : ¬ Outranks C c x x := by
  rintro ⟨r, path, r', path', ranked, ranked', before⟩
  obtain ⟨rfl, rfl⟩ := ranked.unique charted.orderly ranked'
  rcases before with lt | ⟨-, lex⟩
  · exact Nat.lt_irrefl _ lt
  · exact List.lex_irrefl (not_precedes_self charted.acyclic) _ lex

/-- What a load builds is charted, until it closes. -/
theorem charted_of_load {l : Loader} {d : Document} {options : LoadOptions} {fileExists : String → Bool}
    {r : Renderer σ} {s : σ} {o : Outcome σ} (loaded : l.load d options fileExists r s = some o) :
    ∃ c c', Changes (l.env d options fileExists r) (Selection.choose (l.catalog d) options.targets).selected c
        { system := s } c ∧ Charted (l.catalog d) c ∧ Closes r c c' ∧ o.system = c'.system ∧
      o.journal = c'.journal.reverse := by
  obtain ⟨c, c', course, closes, system, journal⟩ := course_of_load loaded
  obtain ⟨-, tidy⟩ := tidy_of_trace (trace_eq_append_nil loaded)
  rw [journal, List.reverse_reverse] at tidy
  have tidy := tidy.of_suffix closes.moves.suffix
  have situated : Situated (l.env d options fileExists r)
    (Selection.choose (l.catalog d) options.targets).selected _ { system := s } (.load _) := .start s
  have later : Later c c := ⟨.refl _, List.suffix_refl _⟩
  have changes := course.changes Selection.isOf_of_chosen situated (.refl c) later tidy
  have ended := situated.course Selection.isOf_of_chosen course
  have charted : Charted (l.catalog d) c :=
    ⟨⟨ended.founded.faithful, tidy⟩, ended.founded.grounded, changes.nested (.start s), course.isAcyclic nofun⟩
  exact ⟨c, c', changes, charted, closes, system, journal⟩

/-! ## What outranks what -/

theorem rank_of_leaf {l : Leaf} (shared : top ∈ sharing c.journal) (leaf : c.assembly.leaf? top = some l) :
    rank c top = 0 := by
  rw [rank, if_pos shared, leaf]
  exact if_pos rfl

theorem rank_of_composite (shared : top ∈ sharing c.journal) (graph : HasGraph c.assembly top g) : rank c top = 1 := by
  obtain ⟨k, composite, -⟩ := graph
  rw [rank, if_pos shared, leaf?_eq_none_of_composite? composite]
  exact if_neg Bool.false_ne_true

theorem rank_of_not_sharing (own : top ∉ sharing c.journal) : rank c top = top + 2 := if_neg own

namespace Charted

variable {s : PartId × Spot} {u : PartId} {l : Leaf}

/-- A part below what is apart has a high rank. -/
theorem ranked_of_apart (apart : IsApart c id) (way : Route c id x path) : Ranked c x (id + 2) path :=
  ⟨id, apart.1, rank_of_not_sharing apart.2, way⟩

theorem ranked_of_shared (charted : Charted C c) (shared : u ∈ sharing c.journal) (way : Route c u x (t :: path)) :
    Ranked c x 1 (t :: path) :=
  have ⟨_, graph⟩ := way.composite
  ⟨u, charted.orderly.tidy.bounds.2.2 u shared, rank_of_composite shared graph, way⟩

theorem ranked_of_leaf (charted : Charted C c) (shared : u ∈ sharing c.journal) (leaf : c.assembly.leaf? u = some l) :
    Ranked c u 0 [] :=
  ⟨u, charted.orderly.tidy.bounds.2.2 u shared, rank_of_leaf shared leaf, .here⟩

/-- A part below a child of a composite has a rank above that of leaves that are shared. Where it has that of shared
composites, the first node on its way is that of the child or leads to it. -/
theorem exists_ranked (charted : Charted C c) (way : Route c id x (s :: path)) : ∃ r way, Ranked c x r way ∧
    (1 < r ∨ r = 1 ∧ ∃ s' rest, way = s' :: rest ∧ ReflTransGen C.Depends s'.2 s.2) := by
  obtain ⟨top, -, first, before, above⟩ := exists_route charted.orderly id
  refine ⟨rank c top, before ++ s :: path, ⟨top, first, rfl, above.trans way⟩, ?_⟩
  by_cases shared : top ∈ sharing c.journal
  · refine .inr ?_
    cases before with
    | nil =>
        obtain ⟨g, graph⟩ := (above.trans way).composite
        exact ⟨rank_of_composite shared graph, s, path, rfl, .refl⟩
    | cons s' before =>
        obtain ⟨g, graph⟩ := (above.trans way).composite
        have leads := ((above.trans way).depends charted.nested charted.orderly charted.grounded).1 s
          (List.mem_append_right _ List.mem_cons_self)
        exact ⟨rank_of_composite shared graph, s', before ++ s :: path, rfl, leads.to_reflTransGen⟩
  · rw [rank_of_not_sharing shared]
    exact .inl (Nat.succ_lt_succ (Nat.succ_pos _))

/-- Below one composite, what is on the way through a child comes before what is on the way through a later one. -/
theorem outranks_sibling (charted : Charted C c) (way : Route c id x (s :: path)) (way' : Route c id y (t :: path'))
    (precedes : Precedes C c.assembly s t) : Outranks C c x y := by
  obtain ⟨top, -, first, before, above⟩ := exists_route charted.orderly id
  refine ⟨_, _, _, _, ⟨top, first, rfl, above.trans way⟩, ⟨top, first, rfl, above.trans way'⟩, .inr ⟨rfl, ?_⟩⟩
  exact List.Lex.append_left _ (.rel precedes) before

/-- What is on the way through a child comes before what a shared composite has for a node to which that of the child
escapes. -/
theorem outranks_shared (charted : Charted C c) (guarded : C.IsGuarded) (way : Route c id x (s :: path))
    (shared : u ∈ sharing c.journal) (way' : Route c u y (t :: path')) (escapes : C.Escapes s.2 t.2) :
    Outranks C c x y := by
  obtain ⟨r, way, ranked, high | ⟨rfl, s', rest, rfl, leads⟩⟩ := charted.exists_ranked way
  · exact ⟨_, _, _, _, ranked, charted.ranked_of_shared shared way', .inl high⟩
  · exact ⟨_, _, _, _, ranked, charted.ranked_of_shared shared way', .inr ⟨rfl, .rel (.of_escapes guarded leads escapes)⟩⟩

/-- What is below a child comes before leaves that are shared. -/
theorem outranks_leaf (charted : Charted C c) (way : Route c id x (s :: path)) (shared : u ∈ sharing c.journal)
    (leaf : c.assembly.leaf? u = some l) : Outranks C c x u := by
  obtain ⟨r, way, ranked, rank⟩ := charted.exists_ranked way
  refine ⟨_, _, _, _, ranked, charted.ranked_of_leaf shared leaf, .inl ?_⟩
  rcases rank with high | ⟨rfl, -⟩
  · exact Nat.lt_of_succ_lt high
  · exact Nat.one_pos

/-- What is below something apart comes before whatever has a lower rank. -/
theorem outranks_of_apart {r : Nat} (apart : IsApart c id) (way : Route c id x path) (ranked : Ranked c y r path')
    (lower : r < id + 2) : Outranks C c x y :=
  ⟨_, _, _, _, ranked_of_apart apart way, ranked, .inl lower⟩

/-- What is apart comes before all that is older. -/
theorem outranks_older (charted : Charted C c) (apart : IsApart c x) (older : y < x) : Outranks C c x y := by
  obtain ⟨top, le, first, path, way⟩ := exists_route charted.orderly y
  refine outranks_of_apart apart .here ⟨top, first, rfl, way⟩ ?_
  unfold rank
  split
  · split <;> omega
  · exact Nat.add_lt_add_right (Nat.lt_of_le_of_lt le older) 2

end Charted

end MaterialGraph
