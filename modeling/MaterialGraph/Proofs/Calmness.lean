import MaterialGraph.Proofs.Once
import MaterialGraph.Proofs.Prefixes
import MaterialGraph.Proofs.Traces

/-!
# Documents that load calmly

Only the composite of the top level can be asked for a child while it is giving one: any other is asked before it is
known elsewhere, or it is guarded as a free-standing graph that is being built. It is asked again if a node of the top
level leads to a node that takes an output of the top level.

* `Catalog.IsLayered` : no node of the top level does.
* `Rests` : what happens between two contexts leaves the same composites giving a child, and calls nothing finished that
  is not.
* `calm_of_load` : if the documents are layered, a load stays calm.
-/

namespace MaterialGraph

set_option autoImplicit false

open Build Assembly Relation

variable {σ : Type} {W : Env σ} {c c₁ c' : Context σ} {C : Catalog} {s : Scene} {p : Place} {x : PartId}
  {selected : List (OutputKind × Candidate)}

/-! ## Layers -/

namespace Catalog

/-- Nothing to which a node leads takes an output of the top level. -/
def StaysBelow (C : Catalog) (s : Spot) : Prop :=
  ∀ t, ReflTransGen C.Summons s t → ∀ e ∈ C.elements t, C.acrossTop e = []

/-- No node of the top level leads to one that takes an output of the top level. -/
def IsLayered (C : Catalog) : Prop := ∀ n ∈ C.document.nodes, C.StaysBelow ⟨.document C.document, n⟩

theorem spreads_staysBelow : C.Spreads C.StaysBelow := fun _ _ below summons t path => below t (.head summons path)

/-- Documents are layered if some nodes include those of the top level and all to which they lead, and none of them
takes an output of the top level. -/
theorem isLayered_of_closed {C : Catalog} (nodes : List Spot)
    (top : ∀ n ∈ C.document.nodes, ⟨.document C.document, n⟩ ∈ nodes)
    (closed : ∀ s ∈ nodes, (∀ t ∈ C.uses s, t ∈ nodes) ∧ ∀ e ∈ C.elements s, C.acrossTop e = [] ∧
      ∀ x ∈ C.graphOutput? e, ∀ h ∈ C.document.nodeGraphs, h.name = x.1.name →
        ∀ m ∈ (Graph.named h).behind? x.2, ⟨.named h, m⟩ ∈ nodes) : C.IsLayered := by
  intro n hn t path
  suffices there : t ∈ nodes from fun e he => ((closed t there).2 e he).1
  induction path with
  | refl => exact top n hn
  | tail _ summons ih =>
      cases summons with
      | depends depends => exact (closed _ ih).1 _ depends.2
      | namesake mem takes known same behind =>
          exact ((closed _ ih).2 _ mem).2 _ takes _ known same _ behind

end Catalog

/-! ## Contexts that rest -/

/-- A part is there, and it is not the composite of a free-standing graph that may be started again. -/
def Reserved (c : Context σ) (x : PartId) : Prop :=
  x < c.assembly.size ∧ ∀ name : String, c.assembly.freeStanding[name]? ≠ some (.built x)

/-- Between two contexts, all that has been begun has been ended, calmly, and only a new composite is noted as that of
the top level. -/
structure Rests (c c' : Context σ) : Prop where
  calm : Calm c.journal → Calm c'.journal
  underway : underway c'.journal = underway c.journal
  reserved : ∀ x, Reserved c x → Reserved c' x
  top : ∀ t, c'.assembly.top = some t → c.assembly.top = some t ∨ c.assembly.size ≤ t

theorem Build.Routine.calm (h : Routine c c') (calm : Calm c.journal) : Calm c'.journal := by
  obtain ⟨new, journal, routine⟩ := h
  rw [journal]
  clear journal
  induction new with
  | nil => exact calm
  | cons e new ih =>
      obtain ⟨he, hnew⟩ := List.forall_mem_cons.1 routine
      refine ⟨fun id asked => ?_, ih hnew⟩
      unfold Event.asked? at asked
      split at asked
      · exact he.elim
      · cases asked

namespace Rests

theorem trans (h₁ : Rests c c₁) (h₂ : Rests c₁ c') (ext : Extends c.assembly c₁.assembly) : Rests c c' where
  calm calm := h₂.calm (h₁.calm calm)
  underway := h₂.underway.trans h₁.underway
  reserved x reserved := h₂.reserved x (h₁.reserved x reserved)
  top t top := (h₂.top t top).elim (h₁.top t) fun new => .inr (Nat.le_trans ext.size new)

theorem routine (h : Routine c c') (size : c.assembly.size ≤ c'.assembly.size)
    (freeStanding : c'.assembly.freeStanding = c.assembly.freeStanding) (top : c'.assembly.top = c.assembly.top) :
    Rests c c' where
  calm := h.calm
  underway := h.underway_eq
  reserved _ reserved := ⟨Nat.lt_of_lt_of_le reserved.1 size, fun name => freeStanding ▸ reserved.2 name⟩
  top _ ht := .inl (top ▸ ht)

theorem refl (c : Context σ) : Rests c c := .routine (.refl c) (Nat.le_refl _) rfl rfl

theorem leafwork (h : Leafwork c c') {S : PartId → Prop} (same : Rebinds S c.assembly c'.assembly) : Rests c c' :=
  .routine h.routine (Nat.le_of_eq same.size.symm) same.freeStanding same.top

theorem same (h : Leafwork c c') (assembly : c'.assembly = c.assembly) : Rests c c' :=
  .routine h.routine (Nat.le_of_eq (by rw [assembly])) (by rw [assembly]) (by rw [assembly])

theorem addLeaf (h : Leafwork c c₁) (assembly : c₁.assembly = c.assembly) (l : Leaf) :
    Rests c (c₁.edit (.add (.leaf l))) :=
  (Rests.same h assembly).trans
    (.routine (.event rfl trivial) (Extends.add _ _).size rfl rfl) (assembly ▸ .refl _)

theorem add (c : Context σ) (q : Part) : Rests c (c.edit (.add q)) :=
  .routine (.event rfl trivial) (Extends.add _ q).size rfl rfl

theorem edit (h : Rests c c₁) (ext : Extends c.assembly c₁.assembly) {e : Edit} (note : IsNote e) :
    Rests c (c₁.edit e) := by
  have size := (Extends.note c₁.assembly note).size
  refine h.trans ?_ ext
  cases note with
  | child =>
      exact ⟨fun calm => ⟨nofun, calm⟩, rfl, fun _ reserved => ⟨Nat.lt_of_lt_of_le reserved.1 size, reserved.2⟩,
        fun _ top => .inl top⟩
  | socket | edge => exact .routine (.event rfl trivial) size rfl rfl

/-- A composite that is giving no child may give one. -/
theorem task {id : PartId} {name : String} {success : Bool} (inner : Rests (c.edit (.began (.child id name))) c₁)
    (idle : id ∉ MaterialGraph.underway c.journal) : Rests c (c₁.edit (.ended (.child id name) success)) where
  calm calm := ⟨nofun, inner.calm ⟨fun x hx => by cases hx; exact idle, calm⟩⟩
  underway := congrArg List.tail inner.underway
  reserved := inner.reserved
  top := inner.top

end Rests

/-! ## Parts that are reserved -/

theorem freeStanding_self (a : Assembly) (name : String) (state : Construction) :
    (a.apply (.freeStanding name state)).freeStanding[name]? = some state := Std.TreeMap.getElem?_insert_self

theorem freeStanding_of_ne (a : Assembly) {name n : String} (other : name ≠ n) (state : Construction) :
    (a.apply (.freeStanding name state)).freeStanding[n]? = a.freeStanding[n]? := getElem?_insert_of_ne other

theorem Build.StandsFor.unique {a : Assembly} {name name' : String} (h : StandsFor W a x name)
    (h' : StandsFor W a x name') : name = name' := by
  obtain ⟨g, -, rfl, k, there, same⟩ := h
  obtain ⟨g', -, rfl, k', there', same'⟩ := h'
  cases there.symm.trans there'
  cases same.symm.trans same'
  rfl

/-- The composite of the top level stands for no free-standing graph. -/
theorem reserved_top (houses : Houses W c) (top : c.assembly.top = some x) : Reserved c x := by
  obtain ⟨k, there, same⟩ := houses.top x top
  refine ⟨lt_size_of_composite? there, fun name built => ?_⟩
  obtain ⟨h, -, -, k', there', same'⟩ := houses.graph name _ built
  cases there.symm.trans there'
  cases same.symm.trans same'

/-- A new composite stands for no free-standing graph yet. -/
theorem reserved_added (houses : Houses W c) (q : Part) : Reserved (c.edit (.add q)) c.assembly.size := by
  refine ⟨?_, fun name built => ?_⟩
  · rw [Context.edit_assembly, size_add]
    exact Nat.lt_succ_self _
  · obtain ⟨h, -, -, graph⟩ := houses.graph name _ built
    exact Nat.lt_irrefl _ graph.lt_size

/-- A child stands for no free-standing graph. -/
theorem reserved_child (orderly : Orderly c) {id : PartId} {name : String} (child : c.assembly.child? id name = some x)
    (there : x < c.assembly.size) : Reserved c x :=
  ⟨there, fun name' built =>
    orderly.forest.shared (mem_shared.2 (.inr (.inr ⟨name', _, built, rfl⟩))) ⟨id, name, child⟩⟩

namespace Build.Starts

variable {h : NodeGraph}

/-- What is started was not reserved. -/
theorem not_reserved (starts : Starts h c x c') : ¬ Reserved c x := by
  intro reserved
  cases starts with
  | first => exact Nat.lt_irrefl _ reserved.1
  | again built => exact reserved.2 _ built

/-- While a graph is being built, its composite is reserved. -/
theorem reserved (starts : Starts h c x c') (houses : Houses W c) (mem : h ∈ W.catalog.document.nodeGraphs) :
    Reserved c' x := by
  obtain ⟨houses', there⟩ := starts.houses houses mem
  obtain ⟨g, -, -, graph⟩ := id there
  refine ⟨graph.lt_size, fun name built => ?_⟩
  cases (houses'.graph name _ built).unique there
  cases starts with
  | first | again =>
      rw [Context.edit_assembly, freeStanding_self] at built
      cases built

theorem rests (starts : Starts h c x c') : Rests c c' where
  calm := starts.routine.calm
  underway := starts.routine.underway_eq
  reserved y reserved := by
    have size : c.assembly.size ≤ c'.assembly.size := by
      cases starts with
      | first => exact (Extends.add _ _).size
      | again => exact Nat.le_refl _
    refine ⟨Nat.lt_of_lt_of_le reserved.1 size, fun name built => ?_⟩
    by_cases same : h.name = name
    · subst same
      cases starts with
      | first | again =>
          rw [Context.edit_assembly, freeStanding_self] at built
          cases built
    · rw [starts.freeStanding same] at built
      exact reserved.2 name built
  top t top := by cases starts <;> exact .inl top

end Build.Starts

/-- What has been started is noted as built. -/
theorem Rests.built (h : Rests c c₁) {graph : NodeGraph} (fresh : ¬ Reserved c x) :
    Rests c (c₁.edit (.freeStanding graph.name (.built x))) where
  calm calm := ⟨nofun, h.calm calm⟩
  underway := h.underway
  reserved y reserved := by
    refine ⟨(h.reserved y reserved).1, fun name built => ?_⟩
    by_cases same : graph.name = name
    · subst same
      rw [Context.edit_assembly, freeStanding_self] at built
      cases built
      exact fresh reserved
    · rw [Context.edit_assembly, freeStanding_of_ne _ same] at built
      exact (h.reserved y reserved).2 name built
  top := h.top

/-! ## Scenes -/

/-- The composite of the top level is giving a child. -/
def TopBusy (c : Context σ) : Prop := ∃ t ∈ underway c.journal, c.assembly.top = some t

/-- The composite that a scene asks for children is giving none. Where the scene does not tell which composite that is,
none is giving any. -/
def Free (c : Context σ) : Scene → Prop
  | .load _ | .settle _ _ => underway c.journal = []
  | .graph id _ _ | .ask id _ _ => id ∉ underway c.journal ∧ Reserved c id
  | _ => True

/-- Where nothing can go on that is not calm: the composites that are giving a child cannot be come to again, and while
that of the top level is, nothing leads to its outputs. -/
structure Poised (W : Env σ) (selected : List (OutputKind × Candidate)) (p : Place) (c : Context σ) (s : Scene) :
    Prop where
  situated : Situated W selected p c s
  busy : ∀ x ∈ underway c.journal, Reserved c x
  free : Free c s
  below : TopBusy c → s.Within W.catalog.StaysBelow

namespace Poised

theorem orderly (poised : Poised W selected p c s) (tidy : Tidy c.journal) : Orderly c :=
  ⟨poised.situated.founded.faithful, tidy⟩

theorem houses (poised : Poised W selected p c s) : Houses W c := poised.situated.founded.houses

/-- What is calm leaves a scene poised. -/
theorem rests (poised : Poised W selected p c s) (own : ∀ x ∈ selected, x.2.IsOf W.catalog)
    (course : Course W s p c c') (rests : Rests c c') : Poised W selected p c' s where
  situated := poised.situated.course own course
  busy x hx := rests.reserved x (poised.busy x (rests.underway ▸ hx))
  free := by
    have free := poised.free
    unfold Free at free ⊢
    split at free
    · exact rests.underway.trans free
    · exact rests.underway.trans free
    · exact ⟨rests.underway ▸ free.1, rests.reserved _ free.2⟩
    · exact ⟨rests.underway ▸ free.1, rests.reserved _ free.2⟩
    · trivial
  below := by
    rintro ⟨t, giving, top⟩
    rw [rests.underway] at giving
    refine poised.below ⟨t, giving, (rests.top t top).resolve_right fun new => ?_⟩
    exact Nat.not_lt.2 new (poised.busy t giving).1

/-- While the composite of the top level is giving a child, nothing asks for another. -/
theorem not_topBusy {n : Node} (poised : Poised W selected p c s) (wants : WantsTop W.catalog s n) : ¬ TopBusy c := by
  intro busy
  obtain ⟨speaks, unnamed, takes, producer⟩ := wants
  obtain ⟨t, below, -, mem⟩ := (poised.below busy).element poised.situated.sits speaks
  have none := below t .refl _ mem
  rw [Catalog.acrossTop, if_pos unnamed, takes, Option.bind_some, producer] at none
  cases none

/-- A graph is built in a composite that has just been added. -/
theorem added {q : Place} {g : Graph} {required : List Output} (poised : Poised W selected p c s)
    (situated : Situated W selected q (c.edit (.add (.composite { graph := g }))) (.graph c.assembly.size g required))
    (below : s.Within W.catalog.StaysBelow → (Scene.graph c.assembly.size g required).Within W.catalog.StaysBelow) :
    Poised W selected q (c.edit (.add (.composite { graph := g }))) (.graph c.assembly.size g required) where
  situated := situated
  busy x hx := (Rests.add c _).reserved x (poised.busy x hx)
  free := ⟨fun hx => Nat.lt_irrefl _ (poised.busy _ hx).1, reserved_added poised.houses _⟩
  below busy := below (poised.below busy)

theorem expanded {id : PartId} {g : Graph} {n : Node} {h : NodeGraph} (poised : Poised W selected p c (.node id g n))
    (recipe : Recipe.of n = .ok .expand)
    (implementation : (W.catalog.nodeDefOf? n).bind W.catalog.implementation? = some h) :
    Poised W selected (p.enter .node n.filePrefix) (c.edit (.add (.composite { graph := .named h })))
      (.graph c.assembly.size (.named h) h.outputs) :=
  poised.added (poised.situated.expanded implementation) fun below =>
    below.expanded Catalog.spreads_staysBelow poised.situated.sits recipe implementation _ _

/-- The composite of the top level may be asked for a child if it is giving none. -/
theorem free_top {t : PartId} (poised : Poised W selected p c s) (top : c.assembly.top = some t) (idle : ¬ TopBusy c) :
    t ∉ underway c.journal ∧ Reserved c t :=
  ⟨fun giving => idle ⟨t, giving, top⟩, reserved_top poised.houses top⟩

/-- A composite that has been asked for a child gives it. Nothing to which a node of the top level leads asks that
composite again. -/
theorem task {id : PartId} {g : Graph} {name : String} (poised : Poised W selected p c (.ask id g name))
    (layered : W.catalog.IsLayered) : Poised W selected p (c.edit (.began (.child id name))) (.give id g name) where
  situated := poised.situated.task
  busy x hx := by
    rcases List.mem_cons.1 hx with rfl | hx
    · exact poised.free.2
    · exact poised.busy x hx
  free := trivial
  below := by
    rintro ⟨t, giving, top⟩
    rcases List.mem_cons.1 giving with rfl | giving
    · obtain ⟨k, there, same⟩ := poised.houses.top t top
      obtain ⟨k', there', rfl⟩ := poised.situated.lies.1
      cases there.symm.trans there'
      rw [same]
      exact fun n found => layered n (mem_of_node? found).1.mem
    · exact poised.below ⟨t, giving, top⟩

/-- A free-standing graph is built in a composite that nothing else comes to. -/
theorem starts {h : NodeGraph} {g : Graph} {required : List Output} (poised : Poised W selected p c s)
    (wants : Wants W.catalog s h required) (starts : Starts h c x c₁) (graph : HasGraph c₁.assembly x g) :
    Poised W selected p c₁ (.graph x g required) where
  situated := poised.situated.graph wants starts graph
  busy y hy := starts.rests.reserved y (poised.busy y (starts.rests.underway ▸ hy))
  free := ⟨fun hx => starts.not_reserved (poised.busy x (starts.rests.underway ▸ hx)),
    starts.reserved poised.houses wants.mem⟩
  below := by
    rintro ⟨t, giving, top⟩
    rw [starts.rests.underway] at giving
    have below := poised.below ⟨t, giving, by cases starts <;> exact top⟩
    obtain ⟨-, h', known, same, k', there', same'⟩ := starts.houses poised.houses wants.mem
    obtain ⟨k, there, rfl⟩ := graph
    cases there.symm.trans there'
    rw [same']
    exact below.graph Catalog.spreads_staysBelow poised.situated.sits wants known same x

end Poised

/-- A course is calm where nothing can go on that is not. -/
theorem Build.Course.rests (own : ∀ x ∈ selected, x.2.IsOf W.catalog) (layered : W.catalog.IsLayered)
    (h : Course W s p c c') (poised : Poised W selected p c s) (tidy : Tidy c'.journal) : Rests c c' := by
  induction h with
  | refl => exact .refl _
  | trans first second ih₁ ih₂ =>
      have rests := ih₁ poised (tidy.of_suffix second.suffix)
      exact rests.trans (ih₂ (poised.rests own first rests) tidy) first.extends
  | message c message => exact .same (.message message) rfl
  | mark c mark routine => cases mark <;> exact .routine (.event rfl routine) (Nat.le_refl _) rfl rfl
  | refused _ creation => exact .same creation.leafwork creation.assembly
  | wrap _ creation => exact .addLeaf creation.leafwork creation.assembly _
  | @own _ p c c₁ gr mem _ _ ih =>
      cases poised.situated.sits
      have graph := graph_of_group own mem
      have situated : Situated W selected p (c.edit (.add (.composite { graph := gr.graph })))
          (.graph c.assembly.size gr.graph (gr.outputs.map (·.2))) :=
        ⟨poised.situated.founded.composite graph, graph, poised.situated.known, hasGraph_added _⟩
      exact (Rests.add _ _).trans (ih (poised.added situated False.elim) tidy) (.add _ _)
  | shared _ top _ ih =>
      refine ih ⟨⟨poised.situated.founded, .head _, poised.situated.known, poised.houses.top _ top⟩, poised.busy,
        ?_, ?_⟩ tidy
      · exact poised.free_top top fun busy => poised.below busy
      · exact fun busy => (poised.below busy).elim
  | settle _ _ ih =>
      exact ih ⟨⟨poised.situated.founded, trivial, poised.situated.known, trivial⟩, poised.busy, poised.free,
        poised.below⟩ tidy
  | overriding _ _ graph apart _ ih =>
      exact ih ⟨⟨poised.situated.founded, trivial, poised.situated.known, ⟨_, graph⟩, apart⟩, poised.busy, trivial,
        poised.below⟩ tidy
  | search child composite _ _ inner ih =>
      have idle := poised.free
      have orderly := poised.orderly (tidy.of_suffix inner.suffix)
      have founded := poised.situated.founded
      have noted := noted_of_child? founded.faithful.fits (founded.faithful.assembly.symm ▸ child)
      have adopted := mem_adopted_of_noted noted
      refine ih ⟨⟨founded, founded.graph composite, poised.situated.known, composite, .inl adopted⟩, poised.busy,
        ⟨fun giving => ?_, reserved_child orderly child composite.lt_size⟩, ?_⟩ tidy
      · rw [idle] at giving
        cases giving
      · rintro ⟨t, giving, -⟩
        rw [idle] at giving
        cases giving
  | output mem _ ih =>
      exact ih ⟨poised.situated.output _, poised.busy, poised.free, fun busy => poised.below busy _ mem⟩ tidy
  | task _ ih => exact (ih (poised.task layered) (tidy.of_suffix (List.suffix_cons _ _))).task poised.free.1
  | give found _ ih =>
      exact ih ⟨poised.situated.give found, poised.busy, trivial, fun busy => poised.below busy _ found⟩ tidy
  | leafChild _ _ _ _ makes =>
      refine (Rests.addLeaf makes.leafwork makes.assembly _).edit ?_ (.child _ _ _)
      exact makes.assembly ▸ .add _ _
  | expansion recipe implementation _ _ ih =>
      exact (Rests.add _ _).trans (ih (poised.expanded recipe implementation) tidy) (.add _ _)
  | compositeChild recipe implementation inner ih =>
      have built := ih (poised.expanded recipe implementation) (tidy.of_suffix (List.suffix_cons _ _))
      exact ((Rests.add _ _).trans built (.add _ _)).edit ((Extends.add _ _).trans inner.extends) (.child _ _ _)
  | input _ noted _ definition declared _ ih =>
      exact ih ⟨poised.situated.input definition declared noted, poised.busy, trivial, poised.below⟩ tidy
  | follow draws _ ih =>
      obtain ⟨founded, sits, known, lies⟩ := poised.situated
      exact ih ⟨⟨founded, sits.needed draws.2, known, lies⟩, poised.busy, trivial,
        fun busy => (poised.below busy).needed Catalog.spreads_staysBelow sits draws.2⟩ tidy
  | socket => exact (Rests.refl _).edit (.refl _) (.socket _ _ _)
  | link _ _ _ _ _ _ connected =>
      have connects := after_connect _ _ connected
      exact (Rests.leafwork connects.leafwork connects.rebinds).edit (.of_rebinds connects.rebinds) (.edge _ _)
  | unlinked _ _ _ _ _ connected | connection _ _ connected =>
      have connects := after_connect _ _ connected
      exact .leafwork connects.leafwork connects.rebinds
  | cycle | busy => exact .routine (.event rfl trivial) (Nat.le_refl _) rfl rfl
  | literal _ _ bound =>
      have binds := after_bindInput _ _ bound
      exact .leafwork binds.leafwork binds.rebinds
  | geometry _ creation =>
      refine (Rests.addLeaf creation.leafwork creation.assembly _).trans
        (.routine (.event rfl trivial) (Nat.le_refl _) rfl rfl) ?_
      exact creation.assembly ▸ .add _ _
  | top =>
      exact ⟨fun calm => ⟨nofun, nofun, calm⟩, rfl, (Rests.add _ _).reserved,
        fun t new => .inr (Nat.le_of_eq (Option.some.inj new))⟩
  | viaTop wants top _ ih =>
      have idle := poised.not_topBusy wants
      exact ih ⟨poised.situated.top top _, poised.busy, poised.free_top top idle, fun busy => (idle busy).elim⟩ tidy
  | viaGraph wants starts graph _ _ inner ih =>
      have rests := ih (poised.starts wants starts graph) (tidy.of_suffix (List.suffix_cons _ _))
      exact (starts.rests.trans rests (starts.steps (r := W.renderer)).extends).built starts.not_reserved

/-! ## Loads -/

/-- If no node of the top level leads to one that takes an output of the top level, a load asks no composite for a child
while it is giving one. -/
theorem calm_of_load (l : Loader) (d : Document) (options : LoadOptions) (fileExists : String → Bool)
    (r : Renderer σ) (s : σ) (o : Outcome σ) (loaded : l.load d options fileExists r s = some o)
    (layered : (l.catalog d).IsLayered) : Calm o.journal.reverse := by
  obtain ⟨c, c', course, closes, -, journal⟩ := course_of_load loaded
  generalize chosen : (Selection.choose (l.catalog d) options.targets).selected = selected at course
  have own : ∀ x ∈ selected, x.2.IsOf (l.catalog d) := chosen ▸ Selection.isOf_of_chosen
  obtain ⟨-, tidy⟩ := tidy_of_trace (trace_eq_append_nil loaded)
  rw [journal, List.reverse_reverse] at tidy ⊢
  have start : Poised (l.env d options fileExists r) selected _ { system := s } (.load selected) :=
    ⟨.start s, nofun, rfl, fun ⟨_, giving, _⟩ => nomatch giving⟩
  have rests := course.rests own layered start (tidy.of_suffix closes.moves.suffix)
  exact closes.leafwork.routine.calm (rests.calm trivial)

/-- `x` is expanded, and its graph takes an output of `below`. `above` takes the output of the top level behind which
`x` is. -/
def tiered : Document where
  nodeDefs := [
    { name := "ND_add", node := "add", type := "float"
      inputs := [{ name := "in1", type := "float" }, { name := "in2", type := "float" }] },
    { name := "ND_thing", node := "thing", type := "float", nodeGraph := some "NG_thing" }]
  nodeGraphs := [
    { name := "NG_thing", nodeDef := some "ND_thing"
      nodes := [
        { name := "a", category := "add", type := "float"
          inputs := [{ name := "in1", type := "float", nodeGraph := some "below", output := some "o" }] }]
      outputs := [{ name := "out", type := "float", nodeName := some "a" }] },
    { name := "below"
      nodes := [{ name := "b", category := "add", type := "float" }]
      outputs := [{ name := "o", type := "integer", nodeName := some "b" }] },
    { name := "above"
      nodes := [
        { name := "c", category := "add", type := "float"
          inputs := [{ name := "in1", type := "float", output := some "o" }] }]
      outputs := [{ name := "o", type := "float", nodeName := some "c" }] }]
  nodes := [{ name := "x", category := "thing", type := "float" }]
  outputs := [{ name := "o", type := "float", nodeName := some "x" }]

theorem isLayered_tiered : (({} : Loader).catalog tiered).IsLayered :=
  Catalog.isLayered_of_closed
    (tiered.nodes.map (⟨.document tiered, ·⟩) ++
      (tiered.nodeGraphs.filter (·.name ≠ "above")).flatMap fun h => h.nodes.map (⟨.named h, ·⟩))
    (by decide +kernel) (by decide +kernel)

theorem calm_of_load_tiered :
    ∃ o, Loader.load {} tiered {} (fun _ => false) Recorder.renderer {} = some o ∧ Calm o.journal.reverse ∧
      noted o.journal = [(0, "c"), (3, "a"), (5, "b"), (2, "x")] := by
  have evaluated : (Loader.load {} tiered {} (fun _ => false) Recorder.renderer {}).map (fun o => noted o.journal) =
      some [(0, "c"), (3, "a"), (5, "b"), (2, "x")] := by decide +kernel
  obtain ⟨o, loaded, same⟩ := Option.map_eq_some_iff.1 evaluated
  exact ⟨o, loaded, calm_of_load {} tiered {} (fun _ => false) Recorder.renderer {} o loaded isLayered_tiered, same⟩

end MaterialGraph
