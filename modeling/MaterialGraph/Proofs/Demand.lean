import MaterialGraph.Proofs.Cycles

/-!
# Construction on demand

A load builds no node that nobody asks for (`built_on_demand`). Composites are asked for the nodes behind outputs: those
that are selected, those that elements take, and all outputs of a graph to which a node is expanded. From there on,
nodes that have been built ask for the nodes that they need, and only their connections are noted.

* `IsAsked` : a composite is asked for a node, and why.
* `Demanded` : how far this is so in the middle of a load, when some requests have not been accounted for.
* `Course.demanded` : a course keeps it, if its scene is `Justified`.
-/

namespace MaterialGraph

set_option autoImplicit false

open Build Assembly Relation

variable {σ : Type} {W : Env σ} {c c' : Context σ} {C : Catalog} {a a' : Assembly} {j j' : List Event} {s : Scene}
  {p : Place} {selected : List (OutputKind × Candidate)} {G G' : PartId → String → Prop} {id x : PartId} {g : Graph}
  {n m : Node} {gr : Group} {name : String}

/-! ## Requests -/

/-- The name of the node behind an output. It is empty if the output names none. -/
def Output.producer (o : Output) : String := o.nodeName?.getD ""

/-- An element is read: it says what an input of a child is bound to, or a selected output brings it along. -/
inductive IsRead (C : Catalog) (selected : List (OutputKind × Candidate)) (a : Assembly) : Input → Prop
  | input {id : PartId} {g : Graph} {n : Node} {nd : NodeDef} {i : Input} (graph : HasGraph a id g) (node : g.Has n)
      (built : (a.child? id n.name).isSome) (definition : C.nodeDefOf? n = some nd) (declared : i ∈ nd.inputs)
      (isInput : (C.elementOf g n i).isInput) : IsRead C selected a (C.elementOf g n i)
  | bind {x : OutputKind × Candidate} {r : ShaderRef} {e : Input} (mem : x ∈ selected)
      (reference : x.2.shaderRef = some r) (bind : e ∈ r.bindInputs) : IsRead C selected a e

/-- A part is the child for a node that is expanded to a graph. -/
def Expands (C : Catalog) (j : List Event) (a : Assembly) (x : PartId) (h : NodeGraph) : Prop :=
  ∃ id g n, HasGraph a id g ∧ g.Has n ∧ .edited (.child id n.name x) ∈ j ∧ Recipe.of n = .ok .expand ∧
    (C.nodeDefOf? n).bind C.implementation? = some h ∧ HasGraph a x (.named h)

/-- A composite is asked for the node of a name. -/
inductive IsAsked (C : Catalog) (selected : List (OutputKind × Candidate)) (j : List Event) (a : Assembly)
    (id : PartId) : String → Prop
  | selected {kind : OutputKind} {cand : Candidate} (mem : (kind, cand) ∈ selected)
      (root : .edited (.began (.root id kind)) ∈ j) : IsAsked C selected j a id cand.output.producer
  | graphOutput {e : Input} {h : NodeGraph} {o : Output} {state : Construction} (read : IsRead C selected a e)
      (takes : C.graphOutput? e = some (h, o)) (kept : .edited (.freeStanding h.name state) ∈ j)
      (same : state.id = id) : IsAsked C selected j a id o.producer
  | topOutput {e : Input} {output : String} {o : Output} {n : Node} {nd : NodeDef} (read : IsRead C selected a e)
      (unnamed : nonEmpty e.nodeGraph = none) (takes : e.output? = some output)
      (producer : topProducer? C output = some (o, n, nd)) (top : a.top = some id) : IsAsked C selected j a id n.name
  | expansion {h : NodeGraph} {o : Output} (expands : Expands C j a id h) (mem : o ∈ h.outputs) :
      IsAsked C selected j a id o.producer

/-- A node is sought in a composite: it is asked for, or a node that is asked for draws on it. -/
def Sought (C : Catalog) (a : Assembly) (id : PartId) (g : Graph) (P : String → Prop) (n : Node) : Prop :=
  ∃ m, P m.name ∧ g.Has m ∧ ReflTransGen (Draws C a id g) m n

/-! ## Later contexts -/

/-- What is there in one context stays in another. -/
structure Later (c c' : Context σ) : Prop where
  ext : Extends c.assembly c'.assembly
  suffix : c.journal <:+ c'.journal

theorem Later.of_steps {r : Renderer σ} (h : Steps r c c') : Later c c' := ⟨h.extends, h.moves.suffix⟩

theorem Later.trans {c₁ : Context σ} (h₁ : Later c c₁) (h₂ : Later c₁ c') : Later c c' :=
  ⟨h₁.ext.trans h₂.ext, h₁.suffix.trans h₂.suffix⟩

theorem Later.message (c : Context σ) {e : Event} (_ : IsMessage e) : Later c (c.push e) :=
  ⟨.refl _, List.suffix_cons _ _⟩

theorem Later.mark (c : Context σ) {e : Edit} (mark : IsMark e) : Later c (c.edit e) := by
  cases mark <;> exact ⟨.refl _, List.suffix_cons _ _⟩

theorem Later.add (c : Context σ) (q : Part) : Later c (c.edit (.add q)) := ⟨.add _ q, List.suffix_cons _ _⟩

theorem Later.note (c : Context σ) {e : Edit} (note : IsNote e) : Later c (c.edit e) :=
  ⟨.note _ note, List.suffix_cons _ _⟩

theorem Later.share (c : Context σ) {e : Edit} (share : Shares c.assembly e) : Later c (c.edit e) :=
  ⟨.share share, List.suffix_cons _ _⟩

theorem Build.Course.later (h : Course W s p c c') : Later c c' := .of_steps h.steps

theorem IsRead.extends {e : Input} (h : IsRead C selected a e) (ext : Extends a a') : IsRead C selected a' e := by
  cases h with
  | input graph node built definition declared isInput =>
      exact .input (graph.extends ext) node (ext.child built) definition declared isInput
  | bind mem reference bind => exact .bind mem reference bind

theorem Expands.mono {h : NodeGraph} (expands : Expands C j a x h) (events : j ⊆ j') (ext : Extends a a') :
    Expands C j' a' x h :=
  let ⟨id, g, n, graph, node, noted, recipe, implementation, nested⟩ := expands
  ⟨id, g, n, graph.extends ext, node, events noted, recipe, implementation, nested.extends ext⟩

theorem IsAsked.mono (h : IsAsked C selected j a id name) (events : j ⊆ j') (ext : Extends a a') :
    IsAsked C selected j' a' id name := by
  cases h with
  | selected mem root => exact .selected mem (events root)
  | graphOutput read takes kept same => exact .graphOutput (read.extends ext) takes (events kept) same
  | topOutput read unnamed takes producer top =>
      exact .topOutput (read.extends ext) unnamed takes producer (ext.top top)
  | expansion expands mem => exact .expansion (expands.mono events ext) mem

theorem Sought.extends {P P' : String → Prop} (h : Sought C a id g P n) (ext : Extends a a')
    (more : ∀ name, P name → P' name) : Sought C a' id g P' n :=
  let ⟨m, asked, node, path⟩ := h
  ⟨m, more _ asked, node, draws_path path ext⟩

theorem Sought.tail {P : String → Prop} (h : Sought C a id g P n) (draws : Draws C a id g n m) : Sought C a id g P m :=
  let ⟨first, asked, node, path⟩ := h
  ⟨first, asked, node, path.tail draws⟩

theorem hasGraph_of_child (ext : Extends a a') (graph : HasGraph a' id g) (there : (a.child? id name).isSome) :
    HasGraph a id g := by
  obtain ⟨x, child⟩ := Option.isSome_iff_exists.1 there
  obtain ⟨k, composite, -⟩ := Option.bind_eq_some_iff.1 child
  exact ext.hasGraph_of_lt (lt_size_of_composite? composite) graph

/-! ## What is demanded -/

/-- A composite is asked for the node of a name, or it is about to be. -/
def Wanted (C : Catalog) (selected : List (OutputKind × Candidate)) (G : PartId → String → Prop) (c : Context σ)
    (id : PartId) (name : String) : Prop :=
  G id name ∨ IsAsked C selected c.journal c.assembly id name

/-- A part is a leaf, or the composite of a node that is expanded. -/
def IsNested (C : Catalog) (c : Context σ) (x : PartId) : Prop :=
  (c.assembly.leaf? x).isSome ∨ ∃ h, Expands C c.journal c.assembly x h

theorem Wanted.later (h : Wanted C selected G c id name) (later : Later c c') : Wanted C selected G c' id name :=
  h.imp_right fun asked => asked.mono later.suffix.subset later.ext

theorem Sought.later (h : Sought C c.assembly id g (Wanted C selected G c id) n) (later : Later c c') :
    Sought C c'.assembly id g (Wanted C selected G c' id) n :=
  h.extends later.ext fun _ wanted => wanted.later later

theorem IsNested.later (h : IsNested C c x) (later : Later c c') : IsNested C c' x := by
  rcases h with leaf | ⟨h, expands⟩
  · obtain ⟨l, leaf⟩ := Option.isSome_iff_exists.1 leaf
    obtain ⟨l', leaf'⟩ := later.ext.leaf leaf
    exact .inl (Option.isSome_of_eq_some leaf')
  · exact .inr ⟨h, expands.mono later.suffix.subset later.ext⟩

/-- Children are sought, and connections are noted of children only. -/
structure Demanded (C : Catalog) (selected : List (OutputKind × Candidate)) (G : PartId → String → Prop)
    (c : Context σ) : Prop where
  child : ∀ id g name, HasGraph c.assembly id g → (c.assembly.child? id name).isSome →
    ∃ n, n.name = name ∧ Sought C c.assembly id g (Wanted C selected G c id) n
  nested : ∀ id name x, c.assembly.child? id name = some x → IsNested C c x
  edge : ∀ id k consumer producer, c.assembly.composite? id = some k → producer ∈ k.producersOf consumer →
    (c.assembly.child? id consumer).isSome

/-- Nothing is noted of children and of connections between two contexts. -/
structure Still (c c' : Context σ) : Prop where
  child : ∀ id name x, c'.assembly.child? id name = some x → c.assembly.child? id name = some x
  edge : ∀ id k' consumer producer, c'.assembly.composite? id = some k' → producer ∈ k'.producersOf consumer →
    ∃ k, c.assembly.composite? id = some k ∧ producer ∈ k.producersOf consumer

namespace Still

theorem refl (c : Context σ) : Still c c := ⟨fun _ _ _ h => h, fun _ k _ _ there mem => ⟨k, there, mem⟩⟩

theorem trans {c₁ : Context σ} (first : Still c c₁) (second : Still c₁ c') : Still c c' where
  child id name x h := first.child id name x (second.child id name x h)
  edge id k' consumer producer there mem :=
    let ⟨k₁, there₁, mem₁⟩ := second.edge id k' consumer producer there mem
    first.edge id k₁ consumer producer there₁ mem₁

theorem congr (same : ∀ id, c'.assembly.composite? id = c.assembly.composite? id) : Still c c' where
  child id name x h := by rwa [child?_congr (same id)] at h
  edge id k' _ _ there mem := ⟨k', (same id).symm.trans there, mem⟩

theorem rebinds {S : PartId → Prop} (h : Rebinds S c.assembly c'.assembly) : Still c c' := congr h.composite

theorem leaf {c₁ : Context σ} (assembly : c₁.assembly = c.assembly) (l : Leaf) : Still c (c₁.edit (.add (.leaf l))) :=
  congr fun _ => by rw [Context.edit_assembly, composite?_add_leaf, assembly]

theorem composite (c : Context σ) (g : Graph) : Still c (c.edit (.add (.composite { graph := g }))) where
  child id name x h := by rwa [Context.edit_assembly, child?_add_composite] at h
  edge id k' consumer producer there mem := by
    rw [Context.edit_assembly, composite?_add_composite] at there
    split at there
    · cases there
      rw [Composite.producersOf_new] at mem
      cases mem
    · exact ⟨k', there, mem⟩

theorem socket (c : Context σ) (id : PartId) (interface : String) (so : Socket) :
    Still c (c.edit (.socket id interface so)) where
  child id' name x h := by rwa [Context.edit_assembly, child?_socket] at h
  edge id' k' consumer producer there mem := by
    rw [Context.edit_assembly, composite?_socket] at there
    split at there
    · obtain ⟨k, old, rfl⟩ := Option.map_eq_some_iff.1 there
      exact ⟨k, old, mem⟩
    · exact ⟨k', there, mem⟩

end Still

theorem Build.Barren.still {r : Renderer σ} (h : Barren r c c') : Still c c' := by
  induction h with
  | refl => exact .refl _
  | trans _ _ ih₁ ih₂ => exact ih₁.trans ih₂
  | message => exact .congr fun _ => rfl
  | @task c c₁ id name _ ih =>
      have begun : Still c (c.edit (.began (.child id name))) := .congr fun _ => rfl
      exact (begun.trans ih).trans (.congr fun _ => rfl)
  | failed _ creation => exact .congr fun _ => by rw [creation.assembly]
  | composite c g => exact .composite c g

theorem Build.Starts.still {h : NodeGraph} (starts : Starts h c x c') : Still c c' := by
  cases starts with
  | first => exact (Still.composite c _).trans (.congr fun _ => rfl)
  | again => exact .congr fun _ => rfl

namespace Demanded

theorem start (system : σ) : Demanded C selected G { system } where
  child _ _ _ _ there := by cases there
  nested _ _ _ there := by cases there
  edge _ _ _ _ there := by cases there

/-- Requests that are accounted for take the place of those that are about to come. -/
theorem mono (h : Demanded C selected G c) (accounts : ∀ id name, G id name → Wanted C selected G' c id name) :
    Demanded C selected G' c where
  child id g name graph there :=
    let ⟨n, named, sought⟩ := h.child id g name graph there
    ⟨n, named, sought.extends (.refl _) fun name wanted => wanted.elim (accounts id name) .inr⟩
  nested := h.nested
  edge := h.edge

/-- What a step has to see to: a child that it notes is sought, and a connection that it notes is one of a child. -/
theorem step (h : Demanded C selected G c) (later : Later c c')
    (child : ∀ id name x, c'.assembly.child? id name = some x → c.assembly.child? id name = some x ∨
      IsNested C c' x ∧ ∃ g n, n.name = name ∧ HasGraph c.assembly id g ∧
        Sought C c.assembly id g (Wanted C selected G c id) n)
    (edge : ∀ id k' consumer producer, c'.assembly.composite? id = some k' → producer ∈ k'.producersOf consumer →
      (c.assembly.child? id consumer).isSome ∨
        ∃ k, c.assembly.composite? id = some k ∧ producer ∈ k.producersOf consumer) : Demanded C selected G c' where
  child id g name graph there := by
    obtain ⟨x, there⟩ := Option.isSome_iff_exists.1 there
    rcases child id name x there with old | ⟨-, g', n, named, graph', sought⟩
    · have old := Option.isSome_of_eq_some old
      obtain ⟨n, named, sought⟩ := h.child id g name (hasGraph_of_child later.ext graph old) old
      exact ⟨n, named, sought.later later⟩
    · obtain ⟨k, hk, rfl⟩ := graph
      obtain ⟨k', hk', rfl⟩ := graph'.extends later.ext
      cases hk.symm.trans hk'
      exact ⟨n, named, sought.later later⟩
  nested id name x there := (child id name x there).elim (fun old => (h.nested id name x old).later later) And.left
  edge id k' consumer producer there mem := by
    rcases edge id k' consumer producer there mem with built | ⟨k, old, mem⟩
    · exact later.ext.child built
    · exact later.ext.child (h.edge id k consumer producer old mem)

theorem still (h : Demanded C selected G c) (later : Later c c') (still : Still c c') : Demanded C selected G c' :=
  h.step later (fun id name x child => .inl (still.child id name x child))
    fun id k' consumer producer there mem => .inr (still.edge id k' consumer producer there mem)

/-- A child is noted that is sought. -/
theorem note_child (h : Demanded C selected G c) (graph : HasGraph c.assembly id g)
    (sought : Sought C c.assembly id g (Wanted C selected G c id) n)
    (nested : IsNested C (c.edit (.child id n.name x)) x) : Demanded C selected G (c.edit (.child id n.name x)) := by
  refine h.step (.note c (.child _ _ _)) (fun id' name y child => ?_) fun id' k' consumer producer there mem => ?_
  · by_cases same : id = id' ∧ n.name = name
    · obtain ⟨rfl, rfl⟩ := same
      obtain ⟨k, hk, rfl⟩ := graph
      rw [Context.edit_assembly, child?_child_self hk] at child
      cases child
      exact .inr ⟨nested, k.graph, n, rfl, ⟨k, hk, rfl⟩, sought⟩
    · rw [Context.edit_assembly, child?_child_of_ne (not_and_or.1 same)] at child
      exact .inl child
  · rw [Context.edit_assembly, composite?_child] at there
    split at there
    · obtain ⟨k, old, rfl⟩ := Option.map_eq_some_iff.1 there
      exact .inr ⟨k, old, mem⟩
    · exact .inr ⟨k', there, mem⟩

/-- A connection is noted of a child. -/
theorem note_edge (h : Demanded C selected G c) {e : Edge} (built : (c.assembly.child? id e.consumer).isSome) :
    Demanded C selected G (c.edit (.edge id e)) := by
  refine h.step (.note c (.edge _ _)) (fun id' name y child => ?_) fun id' k' consumer producer there mem => ?_
  · rw [Context.edit_assembly, child?_edge] at child
    exact .inl child
  · rw [Context.edit_assembly, composite?_edge] at there
    split at there
    · next same =>
      subst same
      obtain ⟨k, old, rfl⟩ := Option.map_eq_some_iff.1 there
      rcases Composite.mem_producersOf_note.1 mem with ⟨rfl, -⟩ | mem
      · exact .inl built
      · exact .inr ⟨k, old, mem⟩
    · exact .inr ⟨k', there, mem⟩

end Demanded

/-! ## Scenes -/

/-- What a scene asks for is asked for, or it is about to be. -/
def Justified (C : Catalog) (selected : List (OutputKind × Candidate)) (G : PartId → String → Prop) (c : Context σ) :
    Scene → Prop
  | .load _ => False
  | .settle gr _ => gr ∈ Group.ofSelected selected
  | .override _ e => IsRead C selected c.assembly e
  | .graph id g required => HasGraph c.assembly id g ∧ ∀ o ∈ required, Wanted C selected G c id o.producer
  | .ask id g name | .give id g name => HasGraph c.assembly id g ∧ Wanted C selected G c id name
  | .node id g n => HasGraph c.assembly id g ∧ Sought C c.assembly id g (Wanted C selected G c id) n
  | .input id g n _ i => HasGraph c.assembly id g ∧ g.Has n ∧ (c.assembly.child? id n.name).isSome ∧
      ∃ nd, C.nodeDefOf? n = some nd ∧ i ∈ nd.inputs

theorem Justified.later (h : Justified C selected G c s) (later : Later c c') : Justified C selected G c' s := by
  cases s with
  | load => exact h
  | settle => exact h
  | override => exact IsRead.extends h later.ext
  | graph => exact ⟨h.1.extends later.ext, fun o mem => (h.2 o mem).later later⟩
  | ask | give => exact ⟨h.1.extends later.ext, h.2.later later⟩
  | node => exact ⟨h.1.extends later.ext, h.2.later later⟩
  | input => exact ⟨h.1.extends later.ext, h.2.1, later.ext.child h.2.2.1, h.2.2.2⟩

theorem Sought.has {P : String → Prop} (h : Sought C a id g P n) : g.Has n := by
  obtain ⟨m, -, node, path⟩ := h
  cases path with
  | refl => exact node
  | tail _ draws =>
      obtain ⟨-, _, _, -, -, -, -, there⟩ := draws
      exact (mem_of_node? there).1

/-- What is bound at a scene is an element that is read. -/
theorem Justified.read {e i : Input} {y : PartId} (h : Justified C selected G c s) (speaks : Speaks C s e y i) :
    IsRead C selected c.assembly e := by
  cases speaks with
  | override => exact h
  | input _ _ isInput =>
      obtain ⟨graph, node, built, nd, definition, declared⟩ := h
      exact .input graph node built definition declared isInput

/-- A node of the top level that is asked for from a scene is wanted there. -/
theorem Justified.top {t : PartId} (h : Justified C selected G c s) (wants : WantsTop C s n)
    (top : c.assembly.top = some t) (graph : HasGraph c.assembly t (.document C.document)) :
    Justified C selected G c (.ask t (.document C.document) n.name) := by
  obtain ⟨speaks, unnamed, takes, producer⟩ := wants
  have asked : IsAsked C selected c.journal c.assembly t n.name := .topOutput (h.read speaks) unnamed takes producer top
  exact ⟨graph, .inr asked⟩

theorem Build.Starts.noted {h : NodeGraph} (starts : Starts h c x c') :
    ∃ state, .edited (.freeStanding h.name state) ∈ c'.journal ∧ state.id = x := by
  cases starts with
  | first => exact ⟨_, List.mem_cons_self, rfl⟩
  | again => exact ⟨_, List.mem_cons_self, rfl⟩

/-- Outputs of a free-standing graph that are asked for from a scene are asked for of its composite. -/
theorem Justified.graph {h : NodeGraph} {required : List Output} (justified : Justified C selected G c s)
    (wants : Wants C s h required) (starts : Starts h c x c') (later : Later c c') (graph : HasGraph c'.assembly x g) :
    Justified C selected G c' (.graph x g required) := by
  cases wants with
  | element speaks named found takes there =>
      obtain ⟨state, kept, same⟩ := starts.noted
      have output := Catalog.graphOutput?_eq named found takes there
      refine ⟨graph, fun o mem => .inr ?_⟩
      obtain rfl := List.mem_singleton.1 mem
      exact .graphOutput ((justified.read speaks).extends later.ext) output kept same
  | group => exact justified.elim

/-- The requests for all outputs of a graph are about to come to a composite. -/
def Grants (x : PartId) (outputs : List Output) (G : PartId → String → Prop) (id : PartId) (name : String) : Prop :=
  G id name ∨ id = x ∧ ∃ o ∈ outputs, o.producer = name

theorem Demanded.grant (h : Demanded C selected G c) (x : PartId) (outputs : List Output) :
    Demanded C selected (Grants x outputs G) c :=
  h.mono fun _ _ asked => .inl (.inl asked)

/-- Once the composite of a node is noted, the requests for the outputs of its graph are accounted for. -/
theorem Demanded.note_composite {h : NodeGraph} (built : Demanded C selected (Grants x h.outputs G) c)
    (graph : HasGraph c.assembly id g) (sought : Sought C c.assembly id g (Wanted C selected G c id) n)
    (recipe : Recipe.of n = .ok .expand) (implementation : (C.nodeDefOf? n).bind C.implementation? = some h)
    (nested : HasGraph c.assembly x (.named h)) : Demanded C selected G (c.edit (.child id n.name x)) := by
  have later : Later c (c.edit (.child id n.name x)) := .note c (.child _ _ _)
  have expands : Expands C (c.edit (.child id n.name x)).journal (c.edit (.child id n.name x)).assembly x h :=
    ⟨id, g, n, graph.extends later.ext, sought.has, List.mem_cons_self, recipe, implementation,
      nested.extends later.ext⟩
  have sought' : Sought C c.assembly id g (Wanted C selected (Grants x h.outputs G) c id) n :=
    sought.extends (.refl _) fun _ => Or.imp_left .inl
  refine (built.note_child graph sought' (.inr ⟨h, expands⟩)).mono ?_
  rintro id' name (asked | ⟨rfl, o, mem, rfl⟩)
  · exact .inl asked
  · exact .inr (.expansion expands mem)

/-- A course keeps what is demanded, if its scene is justified. -/
theorem Build.Course.demanded (h : Course W s p c c') (houses : Houses W c)
    (justified : Justified W.catalog selected G c s) (demanded : Demanded W.catalog selected G c) :
    Demanded W.catalog selected G c' := by
  have later := h.later
  -- The requests to come differ inside: those to a nested composite are accounted for when its child is noted.
  induction h generalizing G with
  | refl => exact demanded
  | trans first second ih₁ ih₂ =>
      exact ih₂ (first.houses houses) (justified.later first.later) (ih₁ houses justified demanded first.later)
        second.later
  | message | cycle | busy => exact demanded.still later (.congr fun _ => rfl)
  | mark _ mark => exact demanded.still later (.congr fun _ => by cases mark <;> rfl)
  | @task id g name p c c₁ success inner ih =>
      have begun := Later.mark c (.began (.child id name))
      exact (ih (houses.mark (.began _)) (justified.later begun) (demanded.still begun (.congr fun _ => rfl))
        inner.later).still (.mark c₁ (.ended _ _)) (.congr fun _ => rfl)
  | give found inner ih =>
      obtain ⟨node, rfl⟩ := mem_of_node? found
      exact ih houses ⟨justified.1, _, justified.2, node, .refl⟩ demanded inner.later
  | refused _ creation => exact demanded.still later (.congr fun _ => by rw [creation.assembly])
  | wrap _ creation => exact demanded.still later (.leaf creation.assembly _)
  | own | shared | settle => exact justified.elim
  | overriding reference bind _ _ inner ih =>
      obtain ⟨y, selected, -, same⟩ := (Group.collects_ofSelected _ _ justified).leader
      exact ih houses (.bind selected (same.trans reference) bind) demanded inner.later
  | search child composite mem named inner ih =>
      obtain ⟨k, there, rfl⟩ := composite
      rcases demanded.nested _ _ _ child with leaf | ⟨h, expands⟩
      · rw [leaf?_eq_none_of_composite? there] at leaf
        cases leaf
      -- the composite is there for a node that is expanded, so it is asked for all outputs of its graph
      · obtain ⟨_, _, _, -, -, -, -, -, k', there', same⟩ := id expands
        cases there.symm.trans there'
        rw [same] at mem
        have asked : Wanted W.catalog selected G _ _ _ := .inr (.expansion expands mem)
        rw [Output.producer, named] at asked
        exact ih houses ⟨⟨k, there, rfl⟩, asked⟩ demanded inner.later
  | output mem inner ih => exact ih houses ⟨justified.1, justified.2 _ mem⟩ demanded inner.later
  | @leafChild id g n p c c₁ k l composite graph node absent makes =>
      have made : Later c (c₁.edit (.add (.leaf l))) := .of_steps (.single makes.steps)
      have leaf : ((c₁.edit (.add (.leaf l))).assembly.leaf? c₁.assembly.size).isSome := by
        rw [Context.edit_assembly, leaf?_add_leaf, if_pos rfl]
        rfl
      exact (demanded.still made (.leaf makes.assembly l)).note_child (justified.1.extends made.ext)
        (justified.2.later made) (.later (.inl leaf) (.note _ (.child _ _ _)))
  | expansion _ _ _ barren => exact demanded.still later barren.still
  | @compositeChild id g n p c c₁ h recipe implementation inner ih =>
      have added : Later c (c.edit (.add (.composite { graph := .named h }))) := .add c _
      have built : Later c c₁ := ⟨added.ext.trans inner.extends, added.suffix.trans inner.suffix⟩
      have granted := demanded.grant c.assembly.size h.outputs
      have children := ih (houses.add _) ⟨hasGraph_added _, fun o mem => .inl (.inr ⟨rfl, o, mem, rfl⟩)⟩
        (granted.still added (.composite c _)) inner.later
      exact children.note_composite (justified.1.extends built.ext) (justified.2.later built) recipe implementation
        ((hasGraph_added _).extends inner.extends)
  | input composite _ there definition declared inner ih =>
      exact ih houses ⟨composite, justified.2.has, there, _, definition, declared⟩ demanded inner.later
  | follow draws inner ih => exact ih houses ⟨justified.1, justified.2.tail draws⟩ demanded inner.later
  | socket => exact demanded.still later (.socket _ _ _ _)
  | link _ _ draws _ _ _ connected =>
      have connects := after_connect _ _ connected
      have after := Later.of_steps connects.steps
      exact (demanded.still after (.rebinds connects.rebinds)).note_edge (after.ext.child draws.1)
  | unlinked _ _ _ _ _ connected | connection _ _ connected =>
      exact demanded.still later (.rebinds (after_connect _ _ connected).rebinds)
  | literal _ _ bound => exact demanded.still later (.rebinds (after_bindInput _ _ bound).rebinds)
  | geometry _ creation => exact demanded.still later ((Still.leaf creation.assembly _).trans (.congr fun _ => rfl))
  | top => exact demanded.still later ((Still.composite _ _).trans (.congr fun _ => rfl))
  | viaTop wants top inner ih =>
      exact ih houses (justified.top wants top (houses.top _ top)) demanded inner.later
  | viaGraph wants starts graph _ _ inner ih =>
      have begun := Later.of_steps (starts.steps (r := W.renderer))
      have built := ih (starts.houses houses wants.mem).1 (justified.graph wants starts begun graph)
        (demanded.still begun starts.still) inner.later
      exact built.still (.share _ (.freeStanding _ _)) (.congr fun _ => rfl)

/-! ## Groups -/

/-- What is demanded once the nodes behind outputs have been built in a composite, or none of them has. -/
def Fulfils (C : Catalog) (selected : List (OutputKind × Candidate)) (G : PartId → String → Prop)
    (outputs : List Output) (c' : Context σ) : Result PartId → Prop
  | .ok x => Demanded C selected (Grants x outputs G) c'
  | .error _ => Demanded C selected G c'

theorem Fulfils.still {outputs : List Output} {c₁ : Context σ} {res : Result PartId}
    (h : Fulfils C selected G outputs c₁ res) (later : Later c₁ c') (still : Still c₁ c') :
    Fulfils C selected G outputs c' res := by
  cases res with
  | ok => exact Demanded.still h later still
  | error => exact Demanded.still h later still

theorem demanded_buildOutputs {outputs : List Output} (houses : Houses W c) (graph : HasGraph c.assembly x g)
    (demanded : Demanded W.catalog selected G c) :
    After (buildOutputs part x outputs) (W.at p) c fun outcome c' =>
      Fulfils W.catalog selected G outputs c' (outcome.map fun () => x) := by
  refine ((course_buildOutputs leaves_part houses).and (after_buildOutputs (s := 0) sound_part)).mono ?_
  rintro outcome c₁ ⟨⟨-, course⟩, -, barren⟩
  cases outcome with
  | error => exact demanded.still (.of_steps (barren rfl).steps) (barren rfl).still
  | ok =>
      exact (course g graph).demanded houses ⟨graph, fun o mem => .inl (.inr ⟨rfl, o, mem, rfl⟩)⟩ (demanded.grant x outputs)

theorem demanded_groupComposite (own : ∀ x ∈ selected, x.2.IsOf W.catalog) (mem : gr ∈ Group.ofSelected selected)
    (houses : Houses W c) (demanded : Demanded W.catalog selected G c) :
    After (groupComposite gr) (W.at p) c fun res c' =>
      Fulfils W.catalog selected G (gr.outputs.map (·.2)) c' res := by
  rw [groupComposite]
  cases through : gr.shaderRef with
  | some r =>
      dsimp only
      rw [buildComposite, after_bind, after_addComposite, after_andThen]
      refine (demanded_buildOutputs (houses.add _) (hasGraph_added _)
        (demanded.still (.add c _) (.composite c _))).mono fun outcome c₁ fulfils => ⟨fun _ ok => ?_, fun e error => ?_⟩
      · subst ok
        exact after_pure.2 fulfils
      · subst error
        exact fulfils
  | none =>
      cases graph : gr.graph with
      | document d =>
          dsimp only
          rw [after_bind]
          refine (course_topComposite (.settle gr 0) p).mono ?_
          rintro t c₁ ⟨top, first⟩
          have houses₁ := first.houses houses
          rw [after_andThen]
          refine (demanded_buildOutputs houses₁ (houses₁.top t top) (first.demanded houses mem demanded)).mono
            fun outcome c₂ fulfils => ⟨fun _ ok => ?_, fun e error => ?_⟩
          · subst ok
            exact after_pure.2 fulfils
          · subst error
            exact fulfils
      | named h =>
          obtain ⟨y, hy, same, shaderRef⟩ := (Group.collects_ofSelected selected gr mem).leader
          have known := Document.named_mem_graphs.1 (same.trans graph ▸ (own y hy).own (shaderRef.trans through))
          refine opens_freeStandingGraph.mono fun res c₁ opens => ?_
          cases opens with
          | busy => exact demanded
          | call starts call =>
              obtain ⟨houses', graph', -, -, there⟩ := starts.houses houses known
              have begun := Later.of_steps (starts.steps (r := W.renderer))
              have fulfils := demanded_buildOutputs houses' there (demanded.still begun starts.still) _ _ call
              exact fulfils.still (.share _ (.freeStanding _ _)) (.congr fun _ => rfl)

/-- A task of a group that has been done is noted. -/
theorem Build.Does.noted {ts : List Task} {t : Task} (h : Does ts c c') (mem : t ∈ ts) :
    .edited (.began t) ∈ c'.journal := by
  have all : t ∈ groupTasks c'.journal := by
    rw [h]
    exact List.mem_append_left _ (List.mem_reverse.2 mem)
  obtain ⟨e, there, task⟩ := List.mem_filterMap.1 all
  unfold Event.groupTask? at task
  split at task <;> cases task <;> exact there

theorem Demanded.message (h : Demanded C selected G c) {e : Event} (message : IsMessage e) :
    Demanded C selected G (c.push e) :=
  h.still (.message c message) (.congr fun _ => rfl)

theorem demanded_reportGroup {e : LoadError} (demanded : Demanded W.catalog selected G c) :
    After (reportGroup e) (W.at p) c fun _ c' => Demanded W.catalog selected G c' := by
  unfold reportGroup
  split
  · rw [after_remark]
    exact demanded.message (.remark _ _)
  · rw [after_warn]
    exact demanded.message (.warning _)

/-- Once the roots of a group have been looked for, its requests are accounted for. -/
theorem Demanded.account (h : Demanded C selected (Grants id (gr.outputs.map (·.2)) G) c)
    (mem : gr ∈ Group.ofSelected selected) (roots : ∀ o ∈ gr.outputs, .edited (.began (.root id o.1)) ∈ c.journal) :
    Demanded C selected G c := by
  refine h.mono ?_
  rintro id' name (asked | ⟨rfl, _, output, rfl⟩)
  · exact .inl asked
  · obtain ⟨o, ho, rfl⟩ := List.mem_map.1 output
    obtain ⟨y, hy, rfl, -⟩ := (Group.collects_ofSelected selected gr mem).outputs o ho
    exact .inr (.selected hy (roots _ ho))

/-- The construction of a group keeps what is demanded. -/
theorem demanded_buildGroup {harvest : Harvest} (own : ∀ x ∈ selected, x.2.IsOf W.catalog)
    (mem : gr ∈ Group.ofSelected selected) (houses : Houses W c) (settled : Settled c) (faithful : Faithful c)
    (demanded : Demanded W.catalog selected G c) :
    After (buildGroup harvest gr) (W.at p) c fun _ c' => Demanded W.catalog selected G c' := by
  rw [buildGroup, after_bind]
  refine ((course_groupComposite own mem houses settled faithful).and
    (demanded_groupComposite own mem houses demanded)).mono ?_
  rintro res c₁ ⟨gathers, fulfils⟩
  cases res with
  | error e =>
      dsimp only
      rw [after_bind]
      exact (demanded_reportGroup fulfils).mono fun _ _ reported => after_pure.2 reported
  | ok id =>
      obtain ⟨course, lonely⟩ : Course W (.load selected) p c c₁ ∧ Lonely gr c₁ id := by
        cases gathers with
        | course _ course lonely => exact ⟨course, lonely id rfl⟩
      have houses₁ := course.houses houses
      have roots {harvest : Harvest} {c₂ : Context σ} (more : Course W (.settle gr id) p c₁ c₂) :
          After (gr.outputs.foldlM (addRoot gr id) harvest) (W.at p) c₂ fun _ c₃ =>
            Demanded W.catalog selected G c₃ := by
        refine ((course_addRoots houses₁ more).and after_addRoots_does).mono ?_
        rintro _ c' ⟨more, does⟩
        exact (more.demanded houses₁ mem fulfils).account mem fun o ho => does.noted (List.mem_map.2 ⟨o, ho, rfl⟩)
      dsimp only
      split
      · next r through =>
        rw [after_bind]
        have faithful₁ := course.steps.moves.faithful faithful
        exact (course_setBindInputs through houses₁ faithful₁ lonely).mono fun _ _ more => roots more
      · exact roots (.refl _ _ _)

/-! ## Loads -/

theorem Build.Closes.composite?_eq {r : Renderer σ} (h : Closes r c c') (id : PartId) :
    c'.assembly.composite? id = c.assembly.composite? id := by
  have released (xs : List PartId) (c : Context σ) :
      (releasedAll r xs c).assembly.composite? id = c.assembly.composite? id := by
    induction xs generalizing c with
    | nil => rfl
    | cons x xs ih =>
        rw [releasedAll]
        cases leaf : c.assembly.leaf? x with
        | some l => exact (ih _).trans ((rebinds_released leaf).composite id)
        | none => exact ih c
  cases h with
  | released xs | finished xs => exact released xs c

theorem Build.Closes.later {r : Renderer σ} (h : Closes r c c') : Later c c' := by
  refine ⟨?_, h.moves.suffix⟩
  cases h with
  | released xs | finished xs => exact extends_releasedAll xs c

/-- In the end of a load, everything is demanded and no request is about to come. -/
theorem demanded_of_load {l : Loader} {d : Document} {options : LoadOptions} {fileExists : String → Bool}
    {r : Renderer σ} {s : σ} {o : Outcome σ} (loaded : l.load d options fileExists r s = some o) :
    ∃ c, IsMoment r s c ∧ o.journal = c.journal.reverse ∧ Grounded (l.catalog d) c.assembly ∧
      Demanded (l.catalog d) (Selection.choose (l.catalog d) options.targets).selected (fun _ _ => False) c := by
  have own : ∀ x ∈ (Selection.choose (l.catalog d) options.targets).selected, x.2.IsOf (l.catalog d) :=
    Selection.isOf_of_chosen
  have during := closes_of_load loaded (I := fun c => Course (l.env d options fileExists r)
      (.load (Selection.choose (l.catalog d) options.targets).selected) (({} : Place).enter .global d.filePrefix)
      { system := s } c ∧
        Demanded (l.catalog d) (Selection.choose (l.catalog d) options.targets).selected (fun _ _ => False) c)
    ⟨.refl _ _ _, .start s⟩ ?warned ?group
  case warned =>
    rintro c w cause ⟨course, demanded⟩
    exact ⟨course.trans (.message _ (.warning _) (not_isCyclic_of_none cause)), demanded.message (.warning _)⟩
  case group =>
    rintro g mem harvest c ⟨course, demanded⟩
    have houses := course.houses (.start s)
    have settled := (settled_start s).advances (course.advances (.start s))
    have faithful := course.steps.moves.faithful (.start s)
    exact ((course_buildGroup own mem houses settled faithful).and
      (demanded_buildGroup own mem houses settled faithful demanded)).mono fun _ _ more => ⟨course.trans more.1, more.2⟩
  obtain ⟨c, c', ⟨course, demanded⟩, closes, -, journal⟩ := during
  have empty : Grounded (l.catalog d) ({ system := s } : Context σ).assembly := fun _ _ there => by cases there
  have grounded := (course.grounded own rfl empty).congr closes.composite?_eq
  exact ⟨c', closes.moves.isMoment (course.steps.moves.isMoment (isMoment_start s)), journal, grounded,
    demanded.still closes.later (.congr closes.composite?_eq)⟩

/-- Whatever is loaded, a composite has no child but those that are asked for, and those that created nodes need,
directly or through others. It notes no connection but those of children with nodes that they need. -/
theorem built_on_demand (l : Loader) (d : Document) (options : LoadOptions) (fileExists : String → Bool)
    (r : Renderer σ) (s : σ) (o : Outcome σ) (loaded : l.load d options fileExists r s = some o) (id : PartId)
    (k : Composite) (there : (replay o.journal).composite? id = some k) :
    (∀ name, (k.child? name).isSome → ∃ n, n.name = name ∧ Sought (l.catalog d) (replay o.journal) id k.graph
      (IsAsked (l.catalog d) (Selection.choose (l.catalog d) options.targets).selected o.journal (replay o.journal) id)
        n) ∧
    ∀ consumer, ∀ producer ∈ k.producersOf consumer, ∃ n m, k.graph.Has n ∧
      Draws (l.catalog d) (replay o.journal) id k.graph n m ∧ n.name = consumer ∧ m.name = producer := by
  obtain ⟨c, now, journal, grounded, demanded⟩ := demanded_of_load loaded
  have events : c.journal ⊆ o.journal := by
    rw [journal]
    exact fun e mem => List.mem_reverse.2 mem
  have assembly : replay o.journal = c.assembly := by rw [journal, now.assembly]
  rw [assembly] at there ⊢
  have children := child?_of_composite? there
  refine ⟨fun name child => ?_, fun consumer producer mem => ?_⟩
  · rw [← children] at child
    obtain ⟨n, named, sought⟩ := demanded.child id k.graph name ⟨k, there, rfl⟩ child
    exact ⟨n, named, sought.extends (.refl _) fun _ wanted => (wanted.resolve_left not_false).mono events (.refl _)⟩
  · obtain ⟨n, m, node, needs, rfl, rfl⟩ := (grounded id k there).2 consumer producer mem
    exact ⟨n, m, node, ⟨demanded.edge id k n.name m.name there mem, needs⟩, rfl, rfl⟩

/-- `a` takes the value of `b`, and `z` that of `a`. Nobody asks for `z`. -/
def spared : Document where
  nodeDefs := [
    { name := "ND_add", node := "add", type := "float"
      inputs := [{ name := "in1", type := "float" }, { name := "in2", type := "float" }] }]
  nodes := [
    { name := "a", category := "add", type := "float"
      inputs := [{ name := "in1", type := "float", nodeName := some "b" }] },
    { name := "b", category := "add", type := "float" },
    { name := "z", category := "add", type := "float"
      inputs := [{ name := "in1", type := "float", nodeName := some "a" }] }]
  outputs := [{ name := "o", type := "float", nodeName := some "a" }]

/-- The top level has children for `a` and `b` only: `a` is asked for, and `b` is needed by `a`. -/
theorem built_on_demand_spared :
    ∃ o k, Loader.load {} spared {} (fun _ => false) Recorder.renderer {} = some o ∧
      (replay o.journal).composite? 0 = some k ∧ k.children.toList = [("a", 1), ("b", 2)] ∧
      (∃ n, n.name = "b" ∧ Sought ⟨spared, none⟩ (replay o.journal) 0 k.graph
        (IsAsked ⟨spared, none⟩ (Selection.choose ⟨spared, none⟩ none).selected o.journal (replay o.journal) 0) n) ∧
      ∃ n m, k.graph.Has n ∧ Draws ⟨spared, none⟩ (replay o.journal) 0 k.graph n m ∧ n.name = "a" ∧ m.name = "b" := by
  have evaluated : ((Loader.load {} spared {} (fun _ => false) Recorder.renderer {}).map fun o =>
      ((replay o.journal).composite? 0).map fun k => (k.children.toList, k.producersOf "a")) =
        some (some ([("a", 1), ("b", 2)], ["b"])) := by
    decide +kernel
  obtain ⟨o, loaded, same⟩ := Option.map_eq_some_iff.1 evaluated
  obtain ⟨k, there, same⟩ := Option.map_eq_some_iff.1 same
  obtain ⟨children, producers⟩ := Prod.mk.inj same
  obtain ⟨sought, draws⟩ := built_on_demand {} spared {} (fun _ => false) Recorder.renderer {} o loaded 0 k there
  have listed : ("b", 2) ∈ k.children.toList := children ▸ .tail _ (.head _)
  have child : k.child? "b" = some 2 := Std.TreeMap.mem_toList_iff_getElem?_eq_some.1 listed
  exact ⟨o, k, loaded, there, children, sought "b" (child ▸ rfl), draws "a" "b" (producers ▸ .head _)⟩

end MaterialGraph
