import MaterialGraph.Proofs.Demand
import MaterialGraph.Proofs.Files

/-!
# Prefixes of file names

A file name is looked up behind the prefix of the place where the build has got to. For an image of the top level, or
of a free-standing graph, that is the prefix of the declared input, of the node or of the graph, whichever is the
innermost, whoever asks for the graph first (`files_of_load`). Only where none of them declares a prefix does the place
of the first request matter (`borrowed_prefix`).

* `filePrefix?` : the prefix that is declared around an input of a node.
* `Depicts` : the files that an image may have by what is declared.
* `Situated` : a scene is about what is of the documents, and its place heeds what is declared around it.
* `Pictured` : the images in what is shared have files by what is declared; a course keeps it (`Course.pictured`).
-/

namespace MaterialGraph

set_option autoImplicit false

open Build Assembly

variable {σ : Type} {r : Renderer σ} {W : Env σ} {c c₁ c' : Context σ} {C : Catalog} {j : List Event} {s : Scene}
  {p : Place} {selected : List (OutputKind × Candidate)} {id x y z : PartId} {g : Graph} {n : Node} {i k : Input}
  {l : Leaf} {name file : String}

/-! ## Prefixes that are declared -/

/-- The prefix that is declared around an input of a node: by the declared input, by the node, or by its graph. -/
def filePrefix? (g : Graph) (n : Node) (i : Input) : Option String :=
  (nonEmpty i.filePrefix).or ((nonEmpty n.filePrefix).or g.filePrefix)

/-- A text may be put before file names: it is empty, or something declares it. -/
inductive Catalog.IsPrefix (C : Catalog) : String → Prop
  | empty : C.IsPrefix ""
  | graph {g : Graph} {text : String} (graph : g ∈ C.graphs) (declared : g.filePrefix = some text) : C.IsPrefix text
  | node {g : Graph} {n : Node} {text : String} (graph : g ∈ C.graphs) (node : g.Has n)
      (declared : nonEmpty n.filePrefix = some text) : C.IsPrefix text
  | input {n : Node} {nd : NodeDef} {i : Input} {text : String} (definition : C.nodeDefOf? n = some nd)
      (mem : i ∈ nd.inputs) (declared : nonEmpty i.filePrefix = some text) : C.IsPrefix text

/-- A place puts a prefix before file names, if one is declared. -/
def Place.Heeds (p : Place) (declared : Option String) : Prop := ∀ text, declared = some text → p.filePrefix = text

theorem Place.filePrefix_enter (p : Place) (level : Level) (inner : Option String) :
    (p.enter level inner).filePrefix = (nonEmpty inner).getD p.filePrefix := rfl

theorem Place.Heeds.enter {outer : Option String} (h : p.Heeds outer) (level : Level) (inner : Option String) :
    (p.enter level inner).Heeds ((nonEmpty inner).or outer) := by
  intro text declared
  rw [Place.filePrefix_enter]
  cases own : nonEmpty inner with
  | some text' =>
      rw [own, Option.some_or] at declared
      exact Option.some.inj declared
  | none =>
      rw [own, Option.none_or] at declared
      exact h text declared

theorem heeds_none (p : Place) : p.Heeds none := fun _ declared => by cases declared

theorem nonEmpty_nonEmpty (text : Option String) : nonEmpty (nonEmpty text) = nonEmpty text := by
  rw [nonEmpty, nonEmpty, Option.filter_filter]
  simp only [Bool.and_self]

/-- A place in a graph heeds the prefix of the graph. -/
theorem heeds_graph (p : Place) (level : Level) (g : Graph) : (p.enter level g.filePrefix).Heeds g.filePrefix := by
  have heeds := (heeds_none p).enter level g.filePrefix
  rw [Option.or_none] at heeds
  cases g <;> rwa [Graph.filePrefix, nonEmpty_nonEmpty] at heeds

theorem heeds_document (p : Place) (level : Level) (d : Document) :
    (p.enter level d.filePrefix).Heeds (Graph.document d).filePrefix := by
  have heeds := (heeds_none p).enter level d.filePrefix
  rwa [Option.or_none] at heeds

theorem Catalog.IsPrefix.enter (h : C.IsPrefix p.filePrefix) (level : Level) {inner : Option String}
    (known : ∀ text, nonEmpty inner = some text → C.IsPrefix text) : C.IsPrefix (p.enter level inner).filePrefix := by
  rw [Place.filePrefix_enter]
  cases own : nonEmpty inner with
  | some text => exact known text own
  | none => exact h

/-! ## Files by what is declared -/

/-- An image for a node of a graph may have a file: it is empty, or it is the path of a literal that the element for a
declared input provides. Before the name stands the prefix that is declared around the input. If there is none, it is
some prefix of the documents. -/
inductive Depicts (W : Env σ) (g : Graph) (n : Node) : String → Prop
  | nothing : Depicts W g n ""
  | literal {nd : NodeDef} {i : Input} {value : String} {p : Place} (definition : W.catalog.nodeDefOf? n = some nd)
      (declared : i ∈ nd.inputs) (named : i.name = "file") (type : (W.catalog.elementOf g n i).type = "filename")
      (literal : (W.catalog.elementOf g n i).value? = some value) (known : W.catalog.IsPrefix p.filePrefix)
      (heeds : p.Heeds (filePrefix? g n i)) : Depicts W g n (W.pathOf p value)

/-- The images in what is shared have files by what is declared. -/
def Pictured (W : Env σ) (c : Context σ) : Prop :=
  ∀ id g n x file, .edited (.child id n.name x) ∈ c.journal → id ∈ c.assembly.shared → HasGraph c.assembly id g → g.Has n →
    c.assembly.file? x = some file → Depicts W g n file

/-- From one context to another nothing is noted, and parts that were there keep their files and stay unshared. -/
structure Stays (c c' : Context σ) : Prop where
  later : Later c c'
  quiet : Only (fun e => e.adopted? = none) c c'
  fresh : ∀ x ∈ c'.assembly.shared, IsFresh c c' x
  file : ∀ x < c.assembly.size, ∀ file, c'.assembly.file? x = some file → c.assembly.file? x = some file

theorem Build.Only.noted {e : Event} (h : Only (fun e => e.adopted? = none) c c') (mem : e ∈ c'.journal)
    (adopts : e.adopted? = some x) : e ∈ c.journal := by
  refine h.old mem fun quiet => ?_
  rw [quiet] at adopts
  cases adopts

theorem Build.Leafwork.unadopting (h : Leafwork c c') : Only (fun e => e.adopted? = none) c c' :=
  h.mono fun _ he => he.isPlain.adopted?

theorem Pictured.stays (h : Pictured W c) (faithful : Faithful c) (stays : Stays c c') (tidy : Tidy c'.journal) :
    Pictured W c' := by
  intro id g n x file noted shared graph node image
  have tidy := tidy.of_suffix stays.later.suffix
  have noted := stays.quiet.noted noted rfl
  obtain ⟨before, there⟩ := faithful.assembly ▸ tidy.between noted
  have old : id < c.assembly.size := Nat.lt_trans before there
  have shared : id ∈ c.assembly.shared :=
    (stays.fresh id shared).resolve_right fun new => Nat.not_lt_of_le new.1 old
  exact h id g n x file noted shared (stays.later.ext.hasGraph_of_lt old graph) node (stays.file x there file image)

namespace Stays

theorem same (later : Later c c') (quiet : Only (fun e => e.adopted? = none) c c')
    (assembly : c'.assembly = c.assembly) : Stays c c' :=
  ⟨later, quiet, fun _ shared => .inl (assembly ▸ shared), fun _ _ _ image => assembly ▸ image⟩

theorem trans (h₁ : Stays c c₁) (h₂ : Stays c₁ c') : Stays c c' where
  later := ⟨h₁.later.ext.trans h₂.later.ext, h₁.later.suffix.trans h₂.later.suffix⟩
  quiet := h₁.quiet.trans h₂.quiet
  fresh x shared := .trans h₁.fresh h₁.later.ext.size h₂.later.ext.size (h₂.fresh x shared)
  file x there file image :=
    h₁.file x there file (h₂.file x (Nat.lt_of_lt_of_le there h₁.later.ext.size) file image)

theorem addLeaf (c : Context σ) (l : Leaf) : Stays c (c.edit (.add (.leaf l))) :=
  ⟨.add c _, .event rfl rfl, fun _ shared => .inl shared, fun _ there _ image => file?_added_leaf there l ▸ image⟩

theorem addComposite (c : Context σ) (g : Graph) : Stays c (c.edit (.add (.composite { graph := g }))) :=
  ⟨.add c _, .event rfl rfl, fun _ shared => .inl shared,
    fun _ _ _ image => (file?_congr (leaf?_add_composite _)).symm.trans image⟩

theorem rebinds {S : PartId → Prop} (later : Later c c') (leafwork : Leafwork c c')
    (rebinds : Rebinds S c.assembly c'.assembly)
    (file : ∀ x file, c'.assembly.file? x = some file → c.assembly.file? x = some file) : Stays c c' :=
  ⟨later, leafwork.unadopting,
    fun _ shared => .inl (shared_congr rebinds.top rebinds.geometry rebinds.freeStanding ▸ shared),
    fun x _ => file x⟩

end Stays

/-! ## Scenes -/

/-- What is there is what the journal tells, and it is of the documents. -/
structure Founded (W : Env σ) (c : Context σ) : Prop where
  houses : Houses W c
  grounded : Grounded W.catalog c.assembly
  faithful : Faithful c

namespace Founded

theorem composite (h : Founded W c) (graph : g ∈ W.catalog.graphs) :
    Founded W (c.edit (.add (.composite { graph := g }))) where
  houses := h.houses.add _
  grounded := h.grounded.composite graph
  faithful := h.faithful.composite g

theorem starts {h : NodeGraph} (founded : Founded W c) (starts : Starts h c x c')
    (mem : h ∈ W.catalog.document.nodeGraphs) :
    Founded W c' where
  houses := (starts.houses founded.houses mem).1
  grounded := founded.grounded.starts starts mem
  faithful := (starts.steps (r := W.renderer)).moves.faithful founded.faithful

theorem course (founded : Founded W c) (own : ∀ x ∈ selected, x.2.IsOf W.catalog) (h : Course W s p c c')
    (sits : Sits W.catalog selected s) : Founded W c' where
  houses := h.houses founded.houses
  grounded := h.grounded own sits founded.grounded
  faithful := h.steps.moves.faithful founded.faithful

theorem graph (h : Founded W c) (there : HasGraph c.assembly id g) : g ∈ W.catalog.graphs := by
  obtain ⟨k, composite, rfl⟩ := there
  exact (h.grounded id k composite).1

end Founded

/-- Where a scene stands: its composite is there for its graph. In what is not nested, the place heeds what is declared
around the scene. An override is of a composite that nothing shares. -/
def Lies (c : Context σ) (p : Place) : Scene → Prop
  | .load _ | .settle _ _ => True
  | .override id _ => (∃ g, HasGraph c.assembly id g) ∧ IsApart c id
  | .graph id g _ => HasGraph c.assembly id g
  | .ask id g _ | .give id g _ | .node id g _ =>
      HasGraph c.assembly id g ∧ (id ∈ adopted c.journal ∨ p.Heeds g.filePrefix)
  | .input id g n x i => HasGraph c.assembly id g ∧ .edited (.child id n.name x) ∈ c.journal ∧
      (id ∈ adopted c.journal ∨ p.Heeds (filePrefix? g n i))

theorem Lies.later (h : Lies c p s) (later : Later c c') (advances : Advances c c') : Lies c' p s := by
  cases s with
  | load | settle => trivial
  | override id i =>
      obtain ⟨⟨g, graph⟩, apart⟩ := h
      exact ⟨⟨g, graph.extends later.ext⟩, apart.advances advances graph.lt_size⟩
  | graph => exact HasGraph.extends h later.ext
  | ask | give | node => exact ⟨h.1.extends later.ext, h.2.imp_left (adopted_of_suffix later.suffix)⟩
  | input => exact ⟨h.1.extends later.ext, later.suffix.subset h.2.1, h.2.2.imp_left (adopted_of_suffix later.suffix)⟩

/-- A scene is about what is of the documents, and its place puts a prefix of the documents before file names, as it is
declared around the scene. -/
structure Situated (W : Env σ) (selected : List (OutputKind × Candidate)) (p : Place) (c : Context σ) (s : Scene) :
    Prop where
  founded : Founded W c
  sits : Sits W.catalog selected s
  known : W.catalog.IsPrefix p.filePrefix
  lies : Lies c p s

namespace Situated

theorem course (h : Situated W selected p c s) (own : ∀ x ∈ selected, x.2.IsOf W.catalog)
    (course : Course W s p c c') : Situated W selected p c' s :=
  ⟨h.founded.course own course h.sits, h.sits, h.known, h.lies.later course.later (course.advances h.founded.faithful)⟩

theorem output {required : List Output} (h : Situated W selected p c (.graph id g required)) (name : String) :
    Situated W selected (p.enter .graph g.filePrefix) c (.ask id g name) where
  founded := h.founded
  sits := h.sits
  known := by
    refine h.known.enter .graph fun text declared => .graph h.sits ?_
    cases g <;> rwa [Graph.filePrefix, nonEmpty_nonEmpty] at declared
  lies := ⟨h.lies, .inr (heeds_graph p .graph g)⟩

/-- What is asked for is given. -/
theorem task {name : String} (h : Situated W selected p c (.ask id g name)) :
    Situated W selected p (c.edit (.began (.child id name))) (.give id g name) where
  founded := ⟨h.founded.houses.mark (.began _), h.founded.grounded, h.founded.faithful.mark (.began _)⟩
  sits := h.sits
  known := h.known
  lies := ⟨h.lies.1, h.lies.2.imp_left (adopted_of_suffix (List.suffix_cons _ _))⟩

theorem give {name : String} (h : Situated W selected p c (.give id g name)) (found : g.node? name = some n) :
    Situated W selected p c (.node id g n) :=
  ⟨h.founded, ⟨h.sits, (mem_of_node? found).1⟩, h.known, h.lies⟩

theorem known_node (h : Situated W selected p c (.node id g n)) :
    W.catalog.IsPrefix (p.enter .node n.filePrefix).filePrefix :=
  h.known.enter .node fun _ => .node h.sits.1 h.sits.2

theorem expanded {h : NodeGraph} (situated : Situated W selected p c (.node id g n))
    (implementation : (W.catalog.nodeDefOf? n).bind W.catalog.implementation? = some h) :
    Situated W selected (p.enter .node n.filePrefix) (c.edit (.add (.composite { graph := .named h })))
      (.graph c.assembly.size (.named h) h.outputs) :=
  have graph := graph_of_implementation implementation
  ⟨situated.founded.composite graph, graph, situated.known_node, hasGraph_added _⟩

theorem input {nd : NodeDef} (h : Situated W selected p c (.node id g n)) (definition : W.catalog.nodeDefOf? n = some nd)
    (declared : i ∈ nd.inputs) (noted : .edited (.child id n.name x) ∈ c.journal) :
    Situated W selected ((p.enter .node n.filePrefix).enter .input i.filePrefix) c (.input id g n x i) where
  founded := h.founded
  sits := ⟨h.sits.1, h.sits.2, nd, definition, declared⟩
  known := h.known_node.enter .input fun _ => .input definition declared
  lies := ⟨h.lies.1, noted, h.lies.2.imp_right fun heeds => (heeds.enter .node n.filePrefix).enter .input i.filePrefix⟩

theorem top {t : PartId} (h : Situated W selected p c s) (top : c.assembly.top = some t) (name : String) :
    Situated W selected (p.enter .global W.catalog.document.filePrefix) c
      (.ask t (.document W.catalog.document) name) where
  founded := h.founded
  sits := .head _
  known := h.known.enter .global fun _ => .graph (.head _)
  lies := ⟨h.founded.houses.top t top, .inr (heeds_document p .global _)⟩

theorem graph {h : NodeGraph} {required : List Output} (situated : Situated W selected p c s)
    (wants : Wants W.catalog s h required) (starts : Starts h c x c₁) (there : HasGraph c₁.assembly x g) :
    Situated W selected p c₁ (.graph x g required) :=
  have founded := situated.founded.starts starts wants.mem
  ⟨founded, founded.graph there, situated.known, there⟩

end Situated

/-! ## Literals -/

/-- A part below another is that part, or it has been noted as a child. -/
theorem eq_or_adopted_of_below (faithful : Faithful c) (below : Below c.assembly x y) :
    y = x ∨ y ∈ adopted c.journal := by
  cases below with
  | refl => exact .inl rfl
  | child _ child =>
      rw [← faithful.assembly] at child
      exact .inr (mem_adopted_of_noted (noted_of_child? faithful.fits child))

/-- What reaches a child of a composite has reached the composite before, or it has not been passed on. -/
theorem reaches_noted (faithful : Faithful c) (tidy : Tidy c.journal) (reaches : c.assembly.Reaches x i z k)
    (noted : .edited (.child id name z) ∈ c.journal) : (z = x ∧ k = i) ∨ Below c.assembly x id := by
  rcases Relation.ReflTransGen.cases_tail reaches with same | ⟨⟨y, j⟩, before, step⟩
  · obtain ⟨rfl, rfl⟩ := Prod.mk.inj same
    exact .inl ⟨rfl, rfl⟩
  · obtain ⟨name', child⟩ := step.child
    rw [← faithful.assembly] at child
    obtain ⟨rfl, -⟩ := tidy.noted_once noted (noted_of_child? faithful.fits child)
    exact .inr (Reaches.below before)

/-- A file name that comes to an image of something shared is that of an element of its node. -/
theorem Situated.captured {element : Input} {value : String} (h : Situated W selected p c s) (tidy : Tidy c.journal)
    (supplies : Supplies W.catalog s element y i) (literal : element.value? = some value)
    (reaches : c.assembly.Reaches y i x k) (captures : Captures (W.at p) k (.literal value element.type) file)
    (noted : .edited (.child id n.name x) ∈ c.journal) (shared : id ∈ c.assembly.shared)
    (graph : HasGraph c.assembly id g) (node : g.Has n) (leaf : (c.assembly.leaf? x).isSome) : Depicts W g n file := by
  have orderly : Orderly c := ⟨h.founded.faithful, tidy⟩
  have unadopted : id ∉ adopted c.journal := by
    rw [← orderly.faithful.assembly] at shared
    exact tidy.bounds.2.2 id (mem_sharing_of_mem_shared shared)
  have direct := reaches_noted orderly.faithful tidy reaches noted
  cases supplies with
  | override id' i =>
      obtain ⟨⟨g', k', composite, -⟩, apart⟩ := h.lies
      rcases direct with ⟨rfl, -⟩ | below
      · rw [leaf?_eq_none_of_composite? composite] at leaf
        cases leaf
      · rcases eq_or_adopted_of_below orderly.faithful below with rfl | adopted
        · exact absurd (orderly.sharing_of_mem_shared shared) apart.2
        · exact absurd adopted unadopted
  | input id' g' n' y i =>
      obtain ⟨graph', noted', heeds⟩ := h.lies
      rcases direct with ⟨rfl, rfl⟩ | below
      · obtain ⟨rfl, same⟩ := tidy.noted_once noted noted'
        obtain rfl := graph.unique graph'
        obtain ⟨-, node', nd, definition, declared⟩ := h.sits
        obtain rfl := node.unique node' same
        obtain ⟨named, value', bound, rfl⟩ := captures
        obtain ⟨rfl, type⟩ := Binding.literal.inj bound
        exact .literal definition declared named type literal h.known (heeds.resolve_left unadopted)
      · rcases eq_or_adopted_of_below orderly.faithful below with rfl | adopted
        · exact absurd (mem_adopted_of_noted noted') unadopted
        · exact absurd adopted unadopted

namespace Stays

theorem connected {output : Option String} {res : Result Unit}
    (connected : connect x output y i (W.at p) c = .ok (res, c')) : Stays c c' :=
  have connects := Connects.of_eq connected
  .rebinds (.of_steps connects.steps) connects.leafwork connects.rebinds (after_connect_file?.of_eq connected)

theorem created {type : NodeType} {role : Role} {settings : List (InputKey × Bound)} {name : Option String}
    {res : Result Leaf} (creation : CreatesLeaf r type role settings name c res c') : Stays c c' :=
  .same ⟨creation.assembly ▸ .refl _, creation.moves.suffix⟩ creation.leafwork.unadopting creation.assembly

theorem message (c : Context σ) {e : Event} (message : IsMessage e) : Stays c (c.push e) :=
  .same (.message c message) (Leafwork.message message).unadopting rfl

theorem mark (c : Context σ) {e : Edit} (mark : IsMark e) : Stays c (c.edit e) := by
  cases mark <;> exact .same ⟨.refl _, List.suffix_cons _ _⟩ (.event rfl rfl) rfl

theorem socket (c : Context σ) (id : PartId) (interface : String) (so : Socket) :
    Stays c (c.edit (.socket id interface so)) :=
  ⟨.note c (.socket _ _ _), .event rfl rfl, fun _ shared => .inl shared,
    fun _ _ _ image => (file?_congr (leaf?_socket _ _)).symm.trans image⟩

theorem edge (c : Context σ) (id : PartId) (e : Edge) : Stays c (c.edit (.edge id e)) :=
  ⟨.note c (.edge _ _), .event rfl rfl, fun _ shared => .inl shared,
    fun _ _ _ image => (file?_congr (leaf?_edge _)).symm.trans image⟩

theorem starts {h : NodeGraph} (r : Renderer σ) (starts : Starts h c x c') : Stays c c' := by
  have later := Later.of_steps (starts.steps (r := r))
  have fresh := starts.isFresh.1
  cases starts with
  | first =>
      have added := Stays.addComposite c (.named h)
      exact ⟨later, added.quiet.trans (.event rfl rfl), fresh, added.file⟩
  | again => exact ⟨later, .event rfl rfl, fresh, fun _ _ _ image => image⟩

end Stays

/-- A child that is noted has a file by what is declared. -/
theorem Pictured.child (h : Pictured W c) (faithful : Faithful c) (tidy : Tidy c.journal)
    (graph : HasGraph c.assembly id g) (node : g.Has n)
    (image : ∀ file, c.assembly.file? x = some file → Depicts W g n file) : Pictured W (c.edit (.child id n.name x)) := by
  intro id' g' n' y file noted shared graph' node' image'
  have before {z : PartId} (there : z < c.assembly.size) (graph' : HasGraph (c.edit (.child id n.name x)).assembly z g') :
      HasGraph c.assembly z g' :=
    (Extends.note _ (.child id n.name x)).hasGraph_of_lt there graph'
  have old : c.assembly.file? y = some file := (file?_congr (leaf?_child _ _)).symm.trans image'
  rcases List.mem_cons.1 noted with same | noted
  · injection same with same
    injection same with composite named part
    subst composite part
    obtain rfl := graph.unique (before graph.lt_size graph')
    obtain rfl := node'.unique node named
    exact image file old
  · obtain ⟨above, there⟩ := faithful.assembly ▸ tidy.between noted
    exact h id' g' n' y file noted shared (before (Nat.lt_trans above there) graph') node' old

theorem Build.file?_of_recipe {type : NodeType} {role : Role} {settings : List (InputKey × Bound)}
    (h : Recipe.of n = .ok (.create type role settings)) (image : role.file? = some file) : file = "" := by
  unfold Recipe.of at h
  split at h
  case h_1 | h_2 => cases h
  case h_7 =>
    unfold Recipe.ofSwizzle at h
    split at h
    all_goals cases h
    all_goals cases image
  case h_8 =>
    split at h
    all_goals cases h
    cases image
  all_goals
    cases h
    cases image
  rfl

/-- The leaf for a node has no file at first. -/
theorem Build.MakesLeaf.file? (makes : MakesLeaf r n c l c') (image : l.role.file? = some file) : file = "" := by
  cases makes with
  | @forward role recipe =>
      have forwards := forwards_of_recipe recipe
      cases role with
      | surface | displacement => cases image
      | _ => cases forwards
  | create recipe creation =>
      cases creation with
      | done => exact file?_of_recipe recipe image

theorem Stays.makes (makes : MakesLeaf r n c l c') : Stays c (c'.edit (.add (.leaf l))) := by
  refine Stays.trans ?_ (.addLeaf c' l)
  cases makes with
  | forward => exact .same ⟨.refl _, List.suffix_rfl⟩ (.refl c) rfl
  | create _ creation => exact .created creation

/-- A literal that comes to an image of something shared is a file name of an element of its node. -/
theorem Pictured.literal {element : Input} {value : String} (pictured : Pictured W c)
    (situated : Situated W selected p c s) (tidy : Tidy c'.journal) (supplies : Supplies W.catalog s element y i)
    (literal : element.value? = some value)
    (spreads : Spreads (W.at p) y i (.literal value element.type) c c') : Pictured W c' := by
  have binds := spreads.binds
  have same := binds.rebinds
  intro id g n x file noted shared graph node image
  have noted := binds.leafwork.unadopting.noted noted rfl
  rw [shared_congr same.top same.geometry same.freeStanding] at shared
  obtain ⟨k, composite, rfl⟩ := graph
  have graph : HasGraph c.assembly id k.graph := ⟨k, (same.composite id).symm.trans composite, rfl⟩
  rcases spreads.file? image with old | ⟨k, reaches, captures⟩
  · exact pictured id _ n x file noted shared graph node old
  · obtain ⟨l, leaf, -⟩ := leaf?_of_file? image
    have leaf : (c.assembly.leaf? x).isSome := (same.leaf x).symm.trans (Option.isSome_iff_exists.2 ⟨l, leaf⟩)
    exact situated.captured (tidy.of_suffix binds.moves.suffix) supplies literal reaches captures noted shared graph
      node leaf

/-- What is shared already may be noted as a free-standing graph. -/
theorem Pictured.freeStanding (pictured : Pictured W c) (there : x ∈ c.assembly.shared) :
    Pictured W (c.edit (.freeStanding name (.built x))) := by
  intro id g n y file noted shared graph node image
  have noted := (List.mem_cons.1 noted).resolve_left nofun
  have shared : id ∈ c.assembly.shared := by
    rcases mem_shared_freeStanding shared with old | rfl
    · exact old
    · exact there
  exact pictured id g n y file noted shared graph node image

/-- A course keeps the files of what is shared as they are declared. -/
theorem Build.Course.pictured (own : ∀ x ∈ selected, x.2.IsOf W.catalog) (h : Course W s p c c')
    (situated : Situated W selected p c s) (tidy : Tidy c'.journal) (pictured : Pictured W c) : Pictured W c' := by
  have faithful := situated.founded.faithful
  -- Only two things give an image of something shared a file: its leaf is noted, or a literal reaches it. All else stays.
  induction h with
  | refl => exact pictured
  | trans first second ih₁ ih₂ =>
      have situated₁ := situated.course own first
      exact ih₂ situated₁ tidy (ih₁ situated (tidy.of_suffix second.suffix) pictured faithful) situated₁.founded.faithful
  | message _ message => exact pictured.stays faithful (.message _ message) tidy
  | mark _ mark => exact pictured.stays faithful (.mark _ mark) tidy
  | @task id g name p c c₁ success inner ih =>
      have begun := situated.task
      have tidy₁ := tidy.of_suffix (List.suffix_cons _ _)
      have pictured₁ := pictured.stays faithful (.mark c (.began (.child id name))) (tidy₁.of_suffix inner.suffix)
      exact (ih begun tidy₁ pictured₁ begun.founded.faithful).stays
        (inner.steps.moves.faithful begun.founded.faithful) (.mark c₁ (.ended _ _)) tidy
  | give found _ ih => exact ih (situated.give found) tidy pictured faithful
  | refused _ creation => exact pictured.stays faithful (.created creation) tidy
  | wrap _ creation => exact pictured.stays faithful ((Stays.created creation).trans (.addLeaf _ _)) tidy
  | own mem _ inner ih =>
      cases situated.sits
      have graph := graph_of_group own mem
      have founded := situated.founded.composite graph
      exact ih ⟨founded, graph, situated.known, hasGraph_added _⟩ tidy
        (pictured.stays faithful (.addComposite _ _) (tidy.of_suffix inner.suffix)) founded.faithful
  | shared _ top _ ih =>
      have there := situated.founded.houses.top _ top
      exact ih ⟨situated.founded, .head _, situated.known, there⟩ tidy pictured faithful
  | settle _ _ ih => exact ih ⟨situated.founded, trivial, situated.known, trivial⟩ tidy pictured faithful
  | overriding _ _ graph apart _ ih =>
      exact ih ⟨situated.founded, trivial, situated.known, ⟨_, graph⟩, apart⟩ tidy pictured faithful
  | search child composite _ _ _ ih =>
      rw [← faithful.assembly] at child
      have adopted := mem_adopted_of_noted (noted_of_child? faithful.fits child)
      have sits := situated.founded.graph composite
      exact ih ⟨situated.founded, sits, situated.known, composite, .inl adopted⟩ tidy pictured faithful
  | output _ _ ih => exact ih (situated.output _) tidy pictured faithful
  | @leafChild id g n p c c₁ k l composite graph node absent makes =>
      have stays := Stays.makes makes
      have tidy₁ := tidy.of_suffix (List.suffix_cons _ _)
      refine (pictured.stays faithful stays tidy₁).child (makes.steps.moves.faithful faithful) tidy₁
        (situated.lies.1.extends stays.later.ext) node fun file image => ?_
      have leaf : (c₁.edit (.add (.leaf l))).assembly.leaf? c₁.assembly.size = some l := by
        rw [Context.edit_assembly, leaf?_add_leaf, if_pos rfl]
      rw [file?_of_leaf? leaf] at image
      rw [makes.file? image]
      exact .nothing
  | expansion _ implementation inner _ ih =>
      have expanded := situated.expanded implementation
      exact ih expanded tidy (pictured.stays faithful (.addComposite _ _) (tidy.of_suffix inner.suffix))
        expanded.founded.faithful
  | @compositeChild id g n p c c₁ h _ implementation inner ih =>
      have expanded := situated.expanded implementation
      have tidy₁ := tidy.of_suffix (List.suffix_cons _ _)
      have pictured₁ := ih expanded tidy₁
        (pictured.stays faithful (.addComposite _ _) (tidy.of_suffix (inner.suffix.trans (List.suffix_cons _ _))))
        expanded.founded.faithful
      have later := (Later.add c _).ext.trans inner.extends
      refine pictured₁.child (inner.steps.moves.faithful expanded.founded.faithful) tidy₁
        (situated.lies.1.extends later) situated.sits.2 fun file image => ?_
      obtain ⟨k, composite, -⟩ := (hasGraph_added (c := c) (.named h)).extends inner.extends
      obtain ⟨l, leaf, -⟩ := leaf?_of_file? image
      rw [leaf?_eq_none_of_composite? composite] at leaf
      cases leaf
  | input _ noted _ definition declared _ ih =>
      exact ih (situated.input definition declared noted) tidy pictured faithful
  | follow draws _ ih =>
      exact ih ⟨situated.founded, situated.sits.needed draws.2, situated.known, situated.lies⟩ tidy pictured faithful
  | socket => exact pictured.stays faithful (.socket _ _ _ _) tidy
  | link _ _ _ _ _ _ connected => exact pictured.stays faithful ((Stays.connected connected).trans (.edge _ _ _)) tidy
  | unlinked _ _ _ _ _ connected | connection _ _ connected => exact pictured.stays faithful (.connected connected) tidy
  | cycle | busy => exact pictured.stays faithful (.message _ (.warning _)) tidy
  | literal supplies literal bound =>
      exact pictured.literal situated tidy supplies literal (after_bindInput_spreads.of_eq bound)
  | @geometry s p c c₁ g l quantity absent creation =>
      have added := (Stays.created creation).trans (.addLeaf c₁ l)
      have kept : Course W s p c _ := .geometry absent creation
      exact pictured.stays faithful ⟨kept.later, added.quiet.trans (.event rfl rfl), kept.shared_origin, added.file⟩ tidy
  | @top s p c absent =>
      have added := Stays.addComposite c (.document W.catalog.document)
      have kept : Course W s p c _ := .top absent
      exact pictured.stays faithful ⟨kept.later, added.quiet.trans (.event rfl rfl), kept.shared_origin, added.file⟩ tidy
  | viaTop _ top _ ih => exact ih (situated.top top _) tidy pictured faithful
  | @viaGraph s p c c₁ c₂ h g x required sub res wants starts graph way call inner ih =>
      have situated₁ := situated.graph wants starts graph
      have tidy₂ := tidy.of_suffix (List.suffix_cons _ _)
      have stays := Stays.starts W.renderer starts
      have pictured₂ := ih situated₁ tidy₂ (pictured.stays faithful stays (tidy₂.of_suffix inner.suffix))
        situated₁.founded.faithful
      have run : Run W .asking x 0 c₁ c₂ := (after_buildOutputs way.sound _ _ call).1
      exact pictured₂.freeStanding (run.shared starts.shared)

/-! ## Loads -/

theorem Stays.closes (h : Closes r c c') : Stays c c' := by
  have released (xs : List PartId) : ∀ x, (releasedAll r xs c).assembly.file? x = c.assembly.file? x :=
    releasedAll_induction (P := fun d => ∀ x, d.assembly.file? x = c.assembly.file? x)
      (fun leaf before x => (released_file? leaf x).trans (before x)) xs fun _ => rfl
  have rebound (xs : List PartId) : Rebinds (fun _ => True) c.assembly (releasedAll r xs c).assembly :=
    releasedAll_induction (P := fun d => Rebinds (fun _ => True) c.assembly d.assembly)
      (fun leaf before => before.trans ((rebinds_released leaf).mono fun _ _ => trivial)) xs (.refl _)
  cases h with
  | released xs =>
      exact .rebinds (Closes.released xs).later (Closes.released xs).leafwork (rebound xs) fun x _ image =>
        (released xs x).symm.trans image
  | finished xs parts nodes images =>
      have closes : Closes r c _ := .finished xs parts nodes images
      exact .rebinds closes.later closes.leafwork (rebound xs) fun x _ image => (released xs x).symm.trans image

/-- A load starts at a place with the prefix of the document. -/
theorem Situated.start (system : σ) : Situated W selected (({} : Place).enter .global W.catalog.document.filePrefix)
    { system } (.load selected) where
  founded := ⟨.start system, by rintro id k ⟨⟩, .start system⟩
  sits := rfl
  known := Catalog.IsPrefix.empty.enter .global fun _ => .graph (.head _)
  lies := trivial

/-- In the end of a load, images have files by what is declared. -/
theorem pictured_of_load {l : Loader} {d : Document} {options : LoadOptions} {fileExists : String → Bool}
    {r : Renderer σ} {s : σ} {o : Outcome σ} (loaded : l.load d options fileExists r s = some o) :
    ∃ c, o.journal = c.journal.reverse ∧ Faithful c ∧ Pictured (l.env d options fileExists r) c := by
  obtain ⟨c, c', course, closes, -, journal⟩ := course_of_load loaded
  obtain ⟨c'', built, -, journal'⟩ := built_of_load loaded
  have orderly : Orderly c'' := (after_loadDocument _ _ built).orderly (.start s)
  have same : c'.journal = c''.journal := List.reverse_injective (journal.symm.trans journal')
  have tidy : Tidy c'.journal := same ▸ orderly.tidy
  have faithful : Faithful c := course.steps.moves.faithful (.start s)
  have start : Pictured (l.env d options fileExists r) { system := s } := by
    rintro _ _ _ _ _ ⟨⟩
  have pictured := course.pictured Selection.isOf_of_chosen (.start s) (tidy.of_suffix closes.moves.suffix) start
  exact ⟨c', journal, closes.moves.faithful faithful, pictured.stays faithful (.closes closes) tidy⟩

/-- Whatever is loaded, an image for a node of the top level or of a free-standing graph has a file by what is declared:
before the name that the element of its node provides stands the prefix of the declared input, of the node or of the
graph, whichever is the innermost, whoever has asked for the graph first. An image takes every file name that comes to
it, with the prefix of the place. -/
theorem files_of_load (l : Loader) (d : Document) (options : LoadOptions) (fileExists : String → Bool)
    (r : Renderer σ) (s : σ) (o : Outcome σ) (loaded : l.load d options fileExists r s = some o) :
    (∀ id g n x file, id ∈ (replay o.journal).shared → HasGraph (replay o.journal) id g →
      (replay o.journal).child? id n.name = some x → g.Has n → (replay o.journal).file? x = some file →
        Depicts (l.env d options fileExists r) g n file) ∧
    ∀ p c x leaf params i value, c.assembly.leaf? x = some leaf → leaf.role = .image params → i.name = "file" →
      bindInput x i (.literal value "filename") ((l.env d options fileExists r).at p) c =
        .ok (.ok (), c.edit (.leaf x
          { leaf with role := .image { params with file := (l.env d options fileExists r).pathOf p value } })) := by
  refine ⟨fun id g n x file shared graph child node image => ?_, fun _ _ _ _ _ _ _ leaf role named =>
    bindInput_filename leaf role named⟩
  obtain ⟨c, journal, faithful, pictured⟩ := pictured_of_load loaded
  have assembly : replay o.journal = c.assembly := journal ▸ faithful.assembly
  rw [assembly] at shared graph child image
  rw [← faithful.assembly] at child
  exact pictured id g n x file (noted_of_child? faithful.fits child) shared graph node image

def picturing.image : Node where
  name := "img"
  category := "image"
  type := "color3"
  inputs := [{ name := "file", type := "filename", value := some "t.png" }]

def picturing.graph (inner : Option String) : NodeGraph where
  name := "NG"
  filePrefix := inner
  nodes := [image]
  outputs := [{ name := "out", type := "color3", nodeName := some "img" }]

/-- A node of the top level takes the value of the graph. It declares a prefix, and so does the document. -/
def picturing (inner : Option String) : Document where
  filePrefix := some "d/"
  nodeDefs := [
    { name := "ND_add", node := "add", type := "color3", inputs := [{ name := "in1", type := "color3" }] },
    { name := "ND_image", node := "image", type := "color3", inputs := [{ name := "file", type := "filename" }] }]
  nodeGraphs := [picturing.graph inner]
  nodes := [
    { name := "m", category := "add", type := "color3", filePrefix := some "a/"
      inputs := [{ name := "in1", type := "color3", nodeGraph := some "NG", output := some "out" }] }]
  outputs := [{ name := "o", type := "color3", nodeName := some "m" }]

/-- One directory is searched, for the surface of the node of the top level. -/
def picturing.options : LoadOptions where
  searchPath := ⟨["."]⟩
  targets := some ⟨"o", ""⟩

def picturing.files (path : String) : Bool := ["./a/t.png", "./d/t.png", "./g/t.png"].contains path

/-- The part for the graph and that for its image, with the graph and the file of the image. -/
def picturing.view (inner : Option String) : Option (List PartId × Option Graph × Option PartId × Option String) :=
  (Loader.load {} (picturing inner) options files Recorder.renderer {}).map fun o =>
    let a := replay o.journal
    (a.shared, (a.composite? 2).map Composite.graph, a.child? 2 "img", a.file? 3)

theorem picturing.of_view {inner : Option String} {file : String}
    (viewed : view inner = some ([0, 2], some (.named (graph inner)), some 3, some file)) :
    ∃ o, Loader.load {} (picturing inner) options files Recorder.renderer {} = some o ∧ 2 ∈ (replay o.journal).shared ∧
      HasGraph (replay o.journal) 2 (.named (graph inner)) ∧ (replay o.journal).child? 2 "img" = some 3 ∧
      (replay o.journal).file? 3 = some file := by
  obtain ⟨o, loaded, same⟩ := Option.map_eq_some_iff.1 viewed
  obtain ⟨shared, same⟩ := Prod.mk.inj same
  obtain ⟨graph, same⟩ := Prod.mk.inj same
  obtain ⟨child, file⟩ := Prod.mk.inj same
  exact ⟨o, loaded, shared ▸ .tail _ (.head _), Option.map_eq_some_iff.1 graph, child, file⟩

/-- The prefix of the graph stands before the file name, although a node with another asks for the graph. -/
theorem files_of_load_picturing :
    ∃ o, Loader.load {} (picturing (some "g/")) picturing.options picturing.files Recorder.renderer {} = some o ∧
      (replay o.journal).file? 3 = some "./g/t.png" ∧
      Depicts (Loader.env {} (picturing (some "g/")) picturing.options picturing.files Recorder.renderer)
        (.named (picturing.graph (some "g/"))) picturing.image "./g/t.png" := by
  have viewed : picturing.view (some "g/") =
      some ([0, 2], some (.named (picturing.graph (some "g/"))), some 3, some "./g/t.png") := by decide +kernel
  obtain ⟨o, loaded, shared, graph, child, image⟩ := picturing.of_view viewed
  exact ⟨o, loaded, image, (files_of_load {} (picturing (some "g/")) picturing.options picturing.files Recorder.renderer {}
    o loaded).1 2 _ picturing.image 3 _ shared graph child rfl image⟩

/-- The innermost prefix that an element, its node, the graph or the document declares. -/
def Catalog.innermostPrefix (C : Catalog) (g : Graph) (n : Node) (element : Input) : String :=
  ((nonEmpty element.filePrefix).or
    ((nonEmpty n.filePrefix).or (g.filePrefix.or (nonEmpty C.document.filePrefix)))).getD ""

/-- Not every file is found behind the innermost prefix: a graph that declares none has that of the node which asks for
it first, and not that of the document. -/
theorem borrowed_prefix :
    ¬ ∀ (d : Document) (options : LoadOptions) (fileExists : String → Bool) (o : Outcome Recorder) (id x : PartId)
      (g : Graph) (n : Node) (nd : NodeDef) (i : Input) (value file : String),
      Loader.load {} d options fileExists Recorder.renderer {} = some o → id ∈ (replay o.journal).shared →
      HasGraph (replay o.journal) id g → (replay o.journal).child? id n.name = some x → g.Has n →
      Catalog.nodeDefOf? ⟨d, none⟩ n = some nd → nd.inputs = [i] → i.name = "file" →
      (Catalog.elementOf ⟨d, none⟩ g n i).type = "filename" → (Catalog.elementOf ⟨d, none⟩ g n i).value? = some value →
      (replay o.journal).file? x = some file →
      file = (Loader.env {} d options fileExists Recorder.renderer).pathOf
        { filePrefix := Catalog.innermostPrefix ⟨d, none⟩ g n (Catalog.elementOf ⟨d, none⟩ g n i) } value := by
  intro lexical
  have viewed : picturing.view none =
      some ([0, 2], some (.named (picturing.graph none)), some 3, some "./a/t.png") := by decide +kernel
  obtain ⟨o, loaded, shared, graph, child, image⟩ := picturing.of_view viewed
  have same := lexical (picturing none) picturing.options picturing.files o 2 3 (.named (picturing.graph none))
    picturing.image { name := "ND_image", node := "image", type := "color3", inputs := [{ name := "file", type := "filename" }] }
    { name := "file", type := "filename" } "t.png" "./a/t.png" loaded shared graph child rfl (by decide) rfl rfl
    (by decide) (by decide) image
  revert same
  decide +kernel

end MaterialGraph
