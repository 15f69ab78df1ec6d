import MaterialGraph.Proofs.Calmness
import MaterialGraph.Proofs.Linking
import MaterialGraph.Proofs.Mirror.Documents

/-!
# The order of declared inputs

The order in which a definition declares its inputs decides which node is built first, and with it whether a connection
is made at once or has to wait. It decides nothing else where each node has a renderer node of its own, all of whose
inputs are given by literals and by other nodes of the graph: what is built for such nodes can be read off the documents.

* `Catalog.Permutes` : catalogs that differ in the order of declared inputs.
* `Catalog.TakesFrom`, `Catalog.IsRegular` : a node takes an output of another, and a node is of that sort.
* `Renders`, `Serves.renders` : a renderer node is what the documents say, whatever the order.
* `load_permuted` : the networks that two loads build for a node are isomorphic. Where a node is named for an input that a
  renderer node lacks, they need not be (`refused_connection_hides_file`).
-/

namespace MaterialGraph

set_option autoImplicit false

open Build Assembly Relation
open List (Forall₂)

variable {s s' : Recorder} {W : Env Recorder} {C C' : Catalog} {c c' : Context Recorder} {id id' : PartId}
  {g g' : Graph} {n m root : Node} {i : Input} {output : Option String} {h h' : Handle} {r r' : RecordedNode}

/-! ## Orders of inputs -/

/-- Two definitions are the same but for the order of their inputs. -/
structure NodeDef.Permutes (d d' : NodeDef) : Prop where
  rest : d' = { d with inputs := d'.inputs }
  perm : d'.inputs.Perm d.inputs

/-- Two documents are the same but for the order of inputs in their definitions. -/
structure Document.Permutes (d d' : Document) : Prop where
  rest : d' = { d with nodeDefs := d'.nodeDefs }
  nodeDefs : Forall₂ NodeDef.Permutes d.nodeDefs d'.nodeDefs

/-- Two catalogs are the same but for the order of inputs in their definitions. -/
structure Catalog.Permutes (C C' : Catalog) : Prop where
  document : C.document.Permutes C'.document
  library : Option.Rel Document.Permutes C.library C'.library

namespace NodeDef.Permutes

variable {d d' : NodeDef} (same : d.Permutes d')

include same

theorem name : d'.name = d.name := by rw [same.rest]

theorem node : d'.node = d.node := by rw [same.rest]

theorem type : d'.type = d.type := by rw [same.rest]

theorem outputs : d'.outputs = d.outputs := by rw [same.rest]

theorem symm : d'.Permutes d where
  rest := by rw [same.rest]
  perm := same.perm.symm

end NodeDef.Permutes

theorem Document.Permutes.symm {d d' : Document} (same : d.Permutes d') : d'.Permutes d where
  rest := by rw [same.rest]
  nodeDefs := same.nodeDefs.flip.imp fun _ _ => NodeDef.Permutes.symm

theorem Catalog.Permutes.symm (permutes : C.Permutes C') : C'.Permutes C where
  document := permutes.document.symm
  library := by
    obtain ⟨h, h'⟩ | ⟨d, d', h, h', same⟩ := rel_none_or_some permutes.library
    · rw [h, h']
      exact .none
    · rw [h, h']
      exact .some same.symm

theorem Catalog.Permutes.nodeDefOf? (permutes : C.Permutes C') (n : Node) :
    Option.Rel NodeDef.Permutes (C.nodeDefOf? n) (C'.nodeDefOf? n) := by
  have documents := documents_rel permutes.document permutes.library
  unfold Catalog.nodeDefOf?
  split
  · exact rel_findSome? documents fun _ _ same => rel_find? same.nodeDefs fun _ _ same => by rw [same.name]
  · exact rel_findSome? documents fun _ _ same => rel_find? same.nodeDefs fun _ _ same => by rw [same.node, same.type]

/-! ## What the documents say -/

/-- The node of its graph of which a node takes an output for an input, and the output. -/
def Catalog.source? (C : Catalog) (g : Graph) (n : Node) (i : Input) : Option (Node × Option String) :=
  let element := n.elementFor i
  if element.isInput then
    (element.nodeName?.bind g.node?).bind fun m =>
      let outputs := ((C.nodeDefOf? m).map NodeDef.outputs).getD []
      (chooseOutput m.type outputs element.output? element.name).toOption.map fun output => (m, output)
  else none

/-- A node takes an output of another for an input that its definition declares. -/
structure Catalog.TakesFrom (C : Catalog) (g : Graph) (n : Node) (i : Input) (m : Node) (output : Option String) :
    Prop where
  declared : ∃ nd ∈ C.nodeDefOf? n, i ∈ nd.inputs
  source : C.source? g n i = some (m, output)

theorem Catalog.TakesFrom.has (takes : C.TakesFrom g n i m output) : g.Has m := by
  have source := takes.source
  unfold Catalog.source? at source
  dsimp only at source
  split at source
  · obtain ⟨_, found, chosen⟩ := Option.bind_eq_some_iff.1 source
    obtain ⟨_, -, same⟩ := Option.map_eq_some_iff.1 chosen
    cases same
    obtain ⟨_, -, there⟩ := Option.bind_eq_some_iff.1 found
    exact (mem_of_node? there).1
  · cases source

/-- A node is needed for another, directly or for the sake of others. -/
def Catalog.Under (C : Catalog) (g : Graph) : Node → Node → Prop :=
  ReflTransGen fun n m => ∃ i output, C.TakesFrom g n i m output

theorem Catalog.Under.has (under : C.Under g root n) (has : g.Has root) : g.Has n := by
  cases under with
  | refl => exact has
  | tail _ last =>
      obtain ⟨_, _, takes⟩ := last
      exact takes.has

/-- An input is given by a literal or by another node of the graph. -/
def Catalog.IsProvided (C : Catalog) (g : Graph) (n : Node) (i : Input) : Prop :=
  (∃ value ∈ (n.elementFor i).value?, (n.elementFor i).IsLiteral value ∧
    (Literal.floats? value (n.elementFor i).type).isSome) ∨ (C.source? g n i).isSome

/-- The key of an input of a leaf. -/
def Role.key? : Role → String → Option InputKey
  | .mapped m, name => m.key? name
  | _, _ => none

/-- A node has a renderer node of its own, and all inputs of that are given. It names no interface input, and it takes
outputs of other nodes only for inputs that its renderer node has. -/
structure Catalog.IsRegular (C : Catalog) (g : Graph) (n : Node) (type : NodeType) (role : Role)
    (settings : List (InputKey × Bound)) : Prop where
  recipe : Recipe.of n = .ok (.create type role settings)
  own : ∀ e ∈ n.inputs, e.interfaceName? = none
  known : ∀ nd ∈ C.nodeDefOf? n, ∀ i ∈ nd.inputs, (C.source? g n i).isSome → (role.key? i.name).isSome
  given : ∀ key ∈ inputKeys role, ∃ nd ∈ C.nodeDefOf? n, ∃ i ∈ nd.inputs, role.key? i.name = some key ∧
    C.IsProvided g n i

instance {e : Input} {value : String} : Decidable (e.IsLiteral value) :=
  decidable_of_iff (e.value? = some value ∧ e.nodeName? = none ∧ e.output? = none ∧ e.interfaceName? = none ∧
    nonEmpty e.defaultGeomProp = none) ⟨fun ⟨a, b, c, d, e⟩ => ⟨a, b, c, d, e⟩, fun ⟨a, b, c, d, e⟩ => ⟨a, b, c, d, e⟩⟩

instance : Decidable (C.IsProvided g n i) := inferInstanceAs (Decidable (_ ∨ _))

instance {type : NodeType} {role : Role} {settings : List (InputKey × Bound)} :
    Decidable (C.IsRegular g n type role settings) :=
  decidable_of_iff (Recipe.of n = .ok (.create type role settings) ∧ (∀ e ∈ n.inputs, e.interfaceName? = none) ∧
    (∀ nd ∈ C.nodeDefOf? n, ∀ i ∈ nd.inputs, (C.source? g n i).isSome → (role.key? i.name).isSome) ∧
    ∀ key ∈ inputKeys role, ∃ nd ∈ C.nodeDefOf? n, ∃ i ∈ nd.inputs, role.key? i.name = some key ∧ C.IsProvided g n i)
    ⟨fun ⟨a, b, c, d⟩ => ⟨a, b, c, d⟩, fun ⟨a, b, c, d⟩ => ⟨a, b, c, d⟩⟩

namespace Catalog.IsRegular

variable {type : NodeType} {role : Role} {settings : List (InputKey × Bound)}

theorem isPlain (regular : C.IsRegular g n type role settings) {name : String} {e : Input}
    (named : n.input? name = some e) : e.IsPlain := regular.own e (List.mem_of_find?_eq_some named)

theorem elementOf (regular : C.IsRegular g n type role settings) (i : Input) :
    C.elementOf g n i = n.elementFor i := by
  unfold Catalog.elementOf Node.elementFor
  cases named : n.input? i.name with
  | none => rfl
  | some e =>
      have plain : e.interfaceName? = none := regular.isPlain named
      rw [Option.getD_some]
      dsimp only
      rw [plain]

/-- Where a node takes an output of another, its child is due a connection. -/
theorem due (regular : C.IsRegular g n type role settings) (takes : C.TakesFrom g n i m output) (y : PartId) :
    C.due? id g n y i = some ⟨id, n, y, i, m, output⟩ := by
  have due : C.due? id g n y i = (C.source? g n i).map fun s => ⟨id, n, y, i, s.1, s.2⟩ := by
    unfold Catalog.due? Catalog.source?
    dsimp only
    rw [regular.elementOf]
    split
    · cases (n.elementFor i).nodeName?.bind g.node? with
      | none => rfl
      | some m =>
          rw [Option.bind_some, Option.bind_some, Option.map_map]
          rfl
    · rfl
  rw [due, takes.source]
  rfl

theorem builds (regular : C.IsRegular g n type role settings) : C.Builds n := .leaf regular.recipe nofun

end Catalog.IsRegular

namespace Catalog.Permutes

variable (permutes : C.Permutes C')

include permutes

theorem declared_iff : (∃ nd ∈ C'.nodeDefOf? n, i ∈ nd.inputs) ↔ ∃ nd ∈ C.nodeDefOf? n, i ∈ nd.inputs := by
  obtain ⟨none, none'⟩ | ⟨d, d', some, some', same⟩ := rel_none_or_some (permutes.nodeDefOf? n)
  · rw [none, none']
  · rw [some, some']
    simp [same.perm.mem_iff]

theorem outputs (m : Node) : (C'.nodeDefOf? m).map NodeDef.outputs = (C.nodeDefOf? m).map NodeDef.outputs := by
  obtain ⟨none, none'⟩ | ⟨d, d', some, some', same⟩ := rel_none_or_some (permutes.nodeDefOf? m)
  · rw [none, none']
  · rw [some, some', Option.map_some, Option.map_some, same.outputs]

section

variable (nodes : g'.nodes = g.nodes)

include nodes

theorem source? (n : Node) (i : Input) : C'.source? g' n i = C.source? g n i := by
  have same : g'.node? = g.node? := funext fun name => by rw [Graph.node?, Graph.node?, nodes]
  unfold Catalog.source?
  simp only [same, permutes.outputs]

theorem takesFrom (takes : C.TakesFrom g n i m output) : C'.TakesFrom g' n i m output where
  declared := permutes.declared_iff.2 takes.declared
  source := (permutes.source? nodes n i).trans takes.source

theorem under (h : C.Under g n m) : C'.Under g' n m := by
  induction h with
  | refl => exact .refl
  | tail _ step ih =>
      obtain ⟨i, output, takes⟩ := step
      exact ih.tail ⟨i, output, permutes.takesFrom nodes takes⟩

theorem isRegular {type : NodeType} {role : Role} {settings : List (InputKey × Bound)}
    (regular : C.IsRegular g n type role settings) : C'.IsRegular g' n type role settings where
  recipe := regular.recipe
  own := regular.own
  known nd' definition' i declared' := by
    obtain ⟨nd, definition, declared⟩ := permutes.declared_iff.1 ⟨nd', definition', declared'⟩
    rw [permutes.source? nodes]
    exact regular.known nd definition i declared
  given key mem := by
    obtain ⟨nd, definition, i, declared, known, given⟩ := regular.given key mem
    obtain ⟨nd', definition', declared'⟩ := permutes.declared_iff.2 ⟨nd, definition, declared⟩
    refine ⟨nd', definition', i, declared', known, ?_⟩
    rwa [Catalog.IsProvided, permutes.source? nodes]

end

end Catalog.Permutes

/-! ## What is built -/

/-- The renderer node that the child for a node owns. -/
def Context.own? (c : Context Recorder) (id : PartId) (name : String) : Option Handle :=
  ((c.assembly.child? id name).bind c.assembly.leaf?).bind (·.hold.owned?)

theorem Context.own?_eq_some {name : String} : c.own? id name = some h ↔
    ∃ x l, c.assembly.child? id name = some x ∧ c.assembly.leaf? x = some l ∧ l.hold = .owned h := by
  have owned (l : Leaf) : l.hold.owned? = some h ↔ l.hold = .owned h := by cases l.hold <;> simp [Hold.owned?]
  simp only [Context.own?, Option.bind_eq_some_iff, owned]
  exact ⟨fun ⟨l, ⟨x, child, leaf⟩, own⟩ => ⟨x, l, child, leaf, own⟩,
    fun ⟨x, l, child, leaf, own⟩ => ⟨l, ⟨x, child, leaf⟩, own⟩⟩

/-- Children of a composite own different nodes. -/
theorem Proper.own?_injective {name name' : String} (proper : Proper s C c) (own : c.own? id name = some h)
    (own' : c.own? id name' = some h) : name = name' := by
  obtain ⟨x, l, child, leaf, hold⟩ := Context.own?_eq_some.1 own
  obtain ⟨y, k, child', leaf', hold'⟩ := Context.own?_eq_some.1 own'
  obtain rfl := proper.keeps.now.single leaf leaf' (by rw [hold]; rfl) (by rw [hold']; rfl)
  exact (proper.orderly.forest.once child child').2

/-- The renderer node for a node is what the documents say: it has the name, the type and the settings that the node
calls for, the literals, and the renderer nodes for the nodes of which it takes outputs. -/
structure Renders (C : Catalog) (g : Graph) (c : Context Recorder) (id : PartId) (n : Node) (type : NodeType) (role : Role)
    (settings : List (InputKey × Bound)) (h : Handle) (r : RecordedNode) : Prop where
  own : c.own? id n.name = some h
  live : c.system.node? h = some r
  bears : r.Bears n.name ⟨type, inputKeys role, settings⟩
  literal : ∀ {i key value v}, (∃ nd ∈ C.nodeDefOf? n, i ∈ nd.inputs) → role.key? i.name = some key →
    (n.elementFor i).IsLiteral value → Literal.floats? value (n.elementFor i).type = some v →
    r.bound key = some (.floats v)
  node : ∀ {i key m output}, C.TakesFrom g n i m output → role.key? i.name = some key →
    ∃ h, c.own? id m.name = some h ∧ r.bound key = some (.node h)

/-- No nodes of the graph need each other in a circle, no node of the top level leads to one that takes an output of the
top level, and no definition declares a name twice or names an interface input. -/
structure Catalog.IsAcyclicAt (C : Catalog) (g : Graph) : Prop where
  clear : C.IsClear
  layered : C.IsLayered
  unlooped : ∀ n, ¬ TransGen (C.Needs g) n n

/-- A composite without children has been asked for one, and has given the child for a node. Nothing stood in the way. -/
structure Serves (W : Env Recorder) (s : Recorder) (id : PartId) (g : Graph) (root : Node) (c c' : Context Recorder) :
    Prop where
  recording : W.renderer = Recorder.renderer
  acyclic : W.catalog.IsAcyclicAt g
  answers : Answers W s id c c'
  willing : Willing c
  grounded : Grounded W.catalog c'.assembly
  nested : Nested W.catalog c'
  once : (noted c'.journal).Nodup
  graph : HasGraph c'.assembly id g
  new : ∀ {name x}, c'.assembly.child? id name = some x → c.assembly.size ≤ x
  has : g.Has root
  child : (c'.assembly.child? id root.name).isSome

namespace Serves

variable {type : NodeType} {role : Role} {settings : List (InputKey × Bound)} {x : PartId}
  (serves : Serves W s id g root c c')

include serves

theorem proper : Proper s W.catalog c' := serves.answers.proper.run serves.recording serves.answers.run

/-- The child for a node with a recipe for a leaf is such a leaf. -/
theorem leaf (has : g.Has n) (child : c'.assembly.child? id n.name = some x)
    (recipe : Recipe.of n = .ok (.create type role settings)) :
    ∃ l h r, c'.assembly.leaf? x = some l ∧ form l.role = form role ∧ l.hold = .owned h ∧
      c'.system.node? h = some r ∧ r.Bears n.name ⟨type, inputKeys role, settings⟩ := by
  have proper := serves.proper
  obtain ⟨noted, -⟩ := proper.orderly.node_of_child? child
  obtain ⟨k, composite, rfl⟩ := serves.graph
  rcases serves.nested id n.name x noted with there | ⟨_, _, g', n', graph, node, noted', expand, -⟩
  · obtain ⟨l, leaf⟩ := Option.isSome_iff_exists.1 there
    obtain ⟨n', node, follows⟩ :=
      proper.keeps.now.child composite ((child?_of_composite? composite _).symm.trans child) leaf
    cases has.symm.trans node
    cases follows with
    | surface _ category =>
        rw [Recipe.of_surface category] at recipe
        cases recipe
    | displacement _ category =>
        rw [Recipe.of_displacement category] at recipe
        cases recipe
    | native same made shows =>
        cases recipe.symm.trans same
        obtain ⟨h, own⟩ := proper.equipped x l leaf ((alike_of_form made).2.trans (native_of_recipe recipe))
        obtain ⟨r, live, bears⟩ := shows h (by rw [own]; rfl)
        exact ⟨l, h, r, leaf, made, own, live, bears⟩
  · -- it has not been expanded
    obtain ⟨rfl, same⟩ := proper.orderly.tidy.noted_once noted noted'
    obtain rfl := graph.unique serves.graph
    obtain rfl := has.unique node same
    cases recipe.symm.trans expand

/-- A node of which a regular one takes an output has a child, if it can be built. -/
theorem child_of_takesFrom (has : g.Has n) (child : (c'.assembly.child? id n.name).isSome)
    (regular : W.catalog.IsRegular g n type role settings) (takes : W.catalog.TakesFrom g n i m output)
    (builds : W.catalog.Builds m) : (c'.assembly.child? id m.name).isSome := by
  obtain ⟨x, child⟩ := Option.isSome_iff_exists.1 child
  obtain ⟨nd, definition, declared⟩ := takes.declared
  have here : Port.IsOf W.catalog c'.assembly id g ⟨x, n, i⟩ := ⟨serves.graph, has, child, nd, definition, declared⟩
  obtain ⟨e, c₀, c₁, same, steps, enters, after⟩ :=
    serves.answers.settled serves.proper here (serves.new child) (regular.due takes x)
  rcases same with rfl | rfl
  · obtain ⟨y, there⟩ : ∃ y, c₀.assembly.child? id m.name = some y := by
      cases enters with
      | attempt there => exact ⟨_, there⟩
    have since : Steps W.renderer c₀ c' := enters.steps.trans after
    exact since.extends.child (Option.isSome_of_eq_some there)
  · rw [serves.recording] at steps
    exact (enters.not_lost serves.recording (steps.moves.willing serves.willing) builds).elim

/-- So there are children for all nodes that are needed, if they are regular. -/
theorem child_of_under
    (regular : ∀ n, W.catalog.Under g root n → ∃ type role settings, W.catalog.IsRegular g n type role settings)
    (under : W.catalog.Under g root n) : (c'.assembly.child? id n.name).isSome := by
  induction under with
  | refl => exact serves.child
  | @tail n m before step ih =>
      obtain ⟨i, output, takes⟩ := step
      obtain ⟨_, _, _, consumer⟩ := regular n before
      obtain ⟨_, _, _, producer⟩ := regular m (before.tail ⟨i, output, takes⟩)
      exact serves.child_of_takesFrom (Catalog.Under.has before serves.has) ih consumer takes producer.builds

/-- The child for each node that is needed is what the documents say, if all of them are regular. -/
theorem renders
    (regular : ∀ n, W.catalog.Under g root n → ∃ type role settings, W.catalog.IsRegular g n type role settings)
    (under : W.catalog.Under g root n) (here : W.catalog.IsRegular g n type role settings) :
    ∃ h r, Renders W.catalog g c' id n type role settings h r := by
  have proper := serves.proper
  obtain ⟨x, child⟩ := Option.isSome_iff_exists.1 (serves.child_of_under regular under)
  obtain ⟨l, h, r, leaf, made, hold, live, bears⟩ := serves.leaf (under.has serves.has) child here.recipe
  have isOf {i : Input} (declared : ∃ nd ∈ W.catalog.nodeDefOf? n, i ∈ nd.inputs) :
      Port.IsOf W.catalog c'.assembly id g ⟨x, n, i⟩ := ⟨serves.graph, under.has serves.has, child, declared⟩
  -- what is shown at an input is bound to the node
  have bound {i : Input} {key : InputKey} {v : Bound} (known : role.key? i.name = some key)
      (shown : Shown c' x i v) : r.bound key = some v := by
    cases role with
    | mapped mapping =>
        obtain ⟨h', r', own, live', bound⟩ := shown l mapping key leaf (form_eq_mapped.1 made) known
        cases hold.symm.trans own
        cases live.symm.trans live'
        exact bound
    | _ => cases known
  refine ⟨h, r, Context.own?_eq_some.2 ⟨x, l, child, leaf, hold⟩, live, bears, fun declared known literal floats => ?_,
    fun {i key m output} takes known => ?_⟩
  · have governed :=
      serves.answers.governed serves.recording serves.acyclic.clear (isOf declared).isIn (serves.new child)
    exact bound known (governed.literal literal floats x _ .refl)
  · have below : W.catalog.Under g root m := under.tail ⟨i, output, takes⟩
    obtain ⟨_, _, _, producer⟩ := regular m below
    obtain ⟨y, child'⟩ := Option.isSome_iff_exists.1 (serves.child_of_under regular below)
    obtain ⟨k, h', -, leaf', made', hold', -⟩ := serves.leaf (below.has serves.has) child' producer.recipe
    have ends : c'.assembly.Ends y y output := .leaf leaf'
    have producing : Port.Takes W.catalog c' id g ⟨x, n, i⟩ ⟨id, n, x, i, m, output⟩ y h' := {
      here := isOf takes.declared
      own := fun e named => here.isPlain named
      due := here.due takes x
      producer := child'
      once := proper.orderly.once serves.once child'
      handle := ends.found proper.orderly.forest.descends leaf' (by rw [hold']; rfl) }
    have native : Forwards k.role = false := (alike_of_form made').2.trans (native_of_recipe producer.recipe)
    exact ⟨h', Context.own?_eq_some.2 ⟨y, k, child', leaf', hold'⟩, bound known
      (serves.answers.shown serves.recording serves.willing serves.acyclic.clear serves.grounded serves.nested
        serves.acyclic.unlooped producing (serves.new child) (.native ends leaf' native))⟩

end Serves

/-! ## Networks that correspond -/

/-- What is bound in two contexts corresponds: it is the same value, if any, or the renderer nodes for one node. -/
inductive Corresponds (c c' : Context Recorder) (id id' : PartId) (P : Node → Prop) : Option Bound → Option Bound → Prop
  | same {b : Option Bound} (value : ∀ h, b ≠ some (.node h)) : Corresponds c c' id id' P b b
  | node {m : Node} {h h' : Handle} (mem : P m) (own : c.own? id m.name = some h) (own' : c'.own? id' m.name = some h') :
      Corresponds c c' id id' P (some (.node h)) (some (.node h'))

/-- For each of some nodes, children in two contexts own renderer nodes of one type and one name, to which the same is
bound. Different children own different ones. -/
structure Isomorphic (c c' : Context Recorder) (id id' : PartId) (P : Node → Prop) : Prop where
  node : ∀ n, P n → ∃ h h' r r', c.own? id n.name = some h ∧ c'.own? id' n.name = some h' ∧
    c.system.node? h = some r ∧ c'.system.node? h' = some r' ∧ r'.type = r.type ∧ r'.name = r.name ∧
    ∀ key, Corresponds c c' id id' P (r.bound key) (r'.bound key)
  injective : ∀ name name' h, c.own? id name = some h → c.own? id name' = some h → name = name'
  injective' : ∀ name name' h, c'.own? id' name = some h → c'.own? id' name' = some h → name = name'

/-- What is bound to the renderer nodes for a regular node corresponds, whatever the order of inputs. -/
theorem Renders.corresponds {type : NodeType} {role : Role} {settings : List (InputKey × Bound)} {P : Node → Prop}
    (renders : Renders C g c id n type role settings h r) (renders' : Renders C' g' c' id' n type role settings h' r')
    (permutes : C.Permutes C') (nodes : g'.nodes = g.nodes) (regular : C.IsRegular g n type role settings)
    (mem : ∀ i m output, C.TakesFrom g n i m output → P m) (key : InputKey) :
    Corresponds c c' id id' P (r.bound key) (r'.bound key) := by
  by_cases input : key ∈ inputKeys role
  · obtain ⟨nd, definition, i, declared, known, given⟩ := regular.given key input
    have declared : ∃ nd ∈ C.nodeDefOf? n, i ∈ nd.inputs := ⟨nd, definition, declared⟩
    rcases given with ⟨value, -, literal, floats⟩ | source
    · obtain ⟨v, floats⟩ := Option.isSome_iff_exists.1 floats
      rw [renders.literal declared known literal floats,
        renders'.literal (permutes.declared_iff.2 declared) known literal floats]
      exact .same nofun
    · obtain ⟨⟨m, output⟩, source⟩ := Option.isSome_iff_exists.1 source
      have takes : C.TakesFrom g n i m output := ⟨declared, source⟩
      obtain ⟨p, own, bound⟩ := renders.node takes known
      obtain ⟨p', own', bound'⟩ := renders'.node (permutes.takesFrom nodes takes) known
      rw [bound, bound']
      exact .node (mem i m output takes) own own'
  · by_cases setting : key ∈ settings.map Prod.fst
    · obtain ⟨⟨_, value⟩, there, rfl⟩ := List.mem_map.1 setting
      rw [renders.bears.settings there, renders'.bears.settings there]
      refine .same fun p other => ?_
      cases other
      exact fixed_of_recipe regular.recipe _ p there
    · have nothing {r : RecordedNode} (bears : r.Bears n.name ⟨type, inputKeys role, settings⟩) : r.bound key = none :=
        Option.not_isSome_iff_eq_none.1 fun some => (bears.only some).elim input setting
      rw [nothing renders.bears, nothing renders'.bears]
      exact .same nofun

/-! ## Loads -/

/-- Among the events of a load, a composite that had just been added for a graph has been asked for a child, and has given
the child for a node. -/
structure GivesFirst (j upto : List Event) (id : PartId) (g : Graph) (n : Node) : Prop where
  here : upto <+: j
  answer : ∃ before first during made, upto = before ++ first :: (during ++ [.edited (.ended (.child id n.name) made)]) ∧
    first.isRequest ∧ unanswered? 0 during = some 0 ∧ (replay before).size ≤ id + 1
  graph : HasGraph (replay upto) id g
  has : g.Has n
  child : ((replay upto).child? id n.name).isSome

theorem serves_of_load {l : Loader} {document : Document} {options : LoadOptions} {fileExists : String → Bool}
    {o : Outcome Recorder} {upto : List Event}
    (loaded : l.load document options fileExists Recorder.renderer s = some o) (willing : s.failing = [])
    (acyclic : (l.catalog document).IsAcyclicAt g) (gives : GivesFirst o.journal upto id g root) :
    ∃ c, Serves (l.env document options fileExists Recorder.renderer) s id g root c (s.told upto.reverse) := by
  obtain ⟨later, split⟩ := gives.here
  obtain ⟨before, first, during, made, answered, asks, closes, last⟩ := gives.answer
  obtain ⟨c, answers, size, ready, grounded, nested⟩ :=
    reached_of_load loaded willing split.symm answered asks closes
  have assembly : (s.told upto.reverse).assembly = replay upto := congrArg replay (List.reverse_reverse upto)
  have calm := calm_of_load l document options fileExists Recorder.renderer s o loaded acyclic.layered
  have once : (noted o.journal).Nodup := ((each_child_once l document options fileExists _ s o loaded).2 calm).1
  have orderly := (answers.proper.run rfl answers.run).orderly
  refine ⟨c, rfl, acyclic, answers, ready, grounded, nested, ?_, assembly ▸ gives.graph, fun child => ?_, gives.has,
    assembly ▸ gives.child⟩
  · change (noted upto.reverse).Nodup
    rw [noted, List.filterMap_reverse, List.nodup_reverse]
    exact once.sublist (gives.here.sublist.filterMap _)
  · -- a child has a greater number than its composite, which was the last part when the request was made
    exact (size.trans last).trans (orderly.forest.descends child).1

/-- The order in which definitions declare their inputs does not matter for nodes of which each has a renderer node of its
own with all inputs given: when a composite for their graph has given its first child in two loads that differ in this
order only, the networks that have been built for the node are isomorphic. -/
theorem load_permuted {l l' : Loader} {document document' : Document} {options options' : LoadOptions}
    {fileExists fileExists' : String → Bool} {o o' : Outcome Recorder} {upto upto' : List Event}
    (loaded : l.load document options fileExists Recorder.renderer s = some o)
    (loaded' : l'.load document' options' fileExists' Recorder.renderer s' = some o')
    (willing : s.failing = []) (willing' : s'.failing = [])
    (permutes : (l.catalog document).Permutes (l'.catalog document')) (nodes : g'.nodes = g.nodes)
    (acyclic : (l.catalog document).IsAcyclicAt g) (acyclic' : (l'.catalog document').IsAcyclicAt g')
    (gives : GivesFirst o.journal upto id g root) (gives' : GivesFirst o'.journal upto' id' g' root)
    (regular : ∀ n, (l.catalog document).Under g root n → ∃ type role settings,
      (l.catalog document).IsRegular g n type role settings) :
    Isomorphic (s.told upto.reverse) (s'.told upto'.reverse) id id' ((l.catalog document).Under g root) := by
  obtain ⟨c, serves⟩ := serves_of_load loaded willing acyclic gives
  obtain ⟨c', serves'⟩ := serves_of_load loaded' willing' acyclic' gives'
  have regular' (n : Node) (under : (l'.catalog document').Under g' root n) : ∃ type role settings,
      (l'.catalog document').IsRegular g' n type role settings := by
    obtain ⟨type, role, settings, here⟩ := regular n (permutes.symm.under nodes.symm under)
    exact ⟨type, role, settings, permutes.isRegular nodes here⟩
  refine ⟨fun n under => ?_, fun _ _ _ => serves.proper.own?_injective, fun _ _ _ => serves'.proper.own?_injective⟩
  obtain ⟨type, role, settings, here⟩ := regular n under
  obtain ⟨h, r, renders⟩ := serves.renders regular under here
  obtain ⟨h', r', renders'⟩ :=
    serves'.renders regular' (permutes.under nodes under) (permutes.isRegular nodes here)
  exact ⟨h, h', r, r', renders.own, renders'.own, renders.live, renders'.live,
    renders'.bears.type.trans renders.bears.type.symm, renders'.bears.name.trans renders.bears.name.symm,
    renders.corresponds renders' permutes nodes here fun i m output takes => under.tail ⟨i, output, takes⟩⟩

/-- The inputs of a product. -/
def woven.factors : List Input := [{ name := "in1", type := "float" }, { name := "in2", type := "float" }]

/-- A product of two sums. -/
def woven.product : Node where
  name := "product"
  category := "multiply"
  type := "float"
  inputs := [{ name := "in1", type := "float", nodeName := some "left" },
    { name := "in2", type := "float", nodeName := some "right" }]

/-- A document with the product, where the sums have a node in common. The inputs of products are declared in some
order. -/
def woven (inputs : List Input) : Document where
  nodeDefs := [
    { name := "ND_add", node := "add", type := "float"
      inputs := [{ name := "in1", type := "float", value := some "0.25" },
        { name := "in2", type := "float", value := some "0.5" }] },
    { name := "ND_multiply", node := "multiply", type := "float", inputs }]
  nodes := [
    woven.product,
    { name := "left", category := "add", type := "float"
      inputs := [{ name := "in1", type := "float", nodeName := some "common" }] },
    { name := "right", category := "add", type := "float"
      inputs := [{ name := "in2", type := "float", nodeName := some "common" }] },
    { name := "common", category := "add", type := "float" }]
  outputs := [{ name := "o", type := "float", nodeName := some "product" }]

theorem woven.isAcyclicAt (inputs : List Input) (order : inputs ∈ [woven.factors, woven.factors.reverse]) :
    (Loader.catalog {} (woven inputs)).IsAcyclicAt (.document (woven inputs)) := by
  let rank (s : Spot) : Nat := if s.node.name = "product" then 2 else if s.node.name = "common" then 0 else 1
  have lower : ∀ inputs ∈ [woven.factors, woven.factors.reverse], ∀ s ∈ (Loader.catalog {} (woven inputs)).spots,
      ∀ t ∈ (Loader.catalog {} (woven inputs)).uses s, rank t < rank s := by decide +kernel
  refine ⟨Catalog.isClear_of_nodeDefs ?_,
    Catalog.isLayered_of_closed ((woven inputs).nodes.map (⟨.document (woven inputs), ·⟩)) ?_ ?_,
    (Catalog.isAcyclic_of_lt rank (lower inputs order)).not_loops (.head _)⟩
  all_goals
    revert inputs
    decide +kernel

/-- What is to be seen of a load of such a document. -/
structure woven.View where
  asks : Option Bool
  answers : Option (PartId × String × Bool)
  unanswered : Option Nat
  size : Nat
  graph : Option Graph
  child : Bool
deriving DecidableEq

def woven.view (j : List Event) : woven.View where
  asks := j[4]?.map Event.isRequest
  answers := j[69]?.bind Event.answer?
  unanswered := unanswered? 0 ((j.take 69).drop 5)
  size := (replay (j.take 4)).size
  graph := ((replay (j.take 70)).composite? 0).map (·.graph)
  child := ((replay (j.take 70)).child? 0 "product").isSome

theorem woven.gives {inputs : List Input} {o : Outcome Recorder}
    (view : woven.view o.journal = {
      asks := some true
      answers := some (0, "product", true)
      unanswered := some 0
      size := 1
      graph := some (.document (woven inputs))
      child := true }) :
    GivesFirst o.journal (o.journal.take 70) 0 (.document (woven inputs)) woven.product := by
  have see {α : Type} (f : woven.View → α) := congrArg f view
  obtain ⟨first, fourth, asks⟩ := Option.map_eq_some_iff.1 (see (·.asks))
  obtain ⟨last, latest, answers⟩ := Option.bind_eq_some_iff.1 (see (·.answers))
  obtain rfl := Event.answer?_eq_some answers
  obtain ⟨k, composite, graph⟩ := Option.map_eq_some_iff.1 (see (·.graph))
  exact ⟨List.take_prefix _ _, ⟨_, first, _, true, take_eq_of_getElem? fourth latest (by decide), asks,
    see (·.unanswered), Nat.le_of_eq (see (·.size))⟩, ⟨k, composite, graph⟩, rfl, see (·.child)⟩

/-- In either order the same network is built for the product, though the sums are built in different orders, and the node
that they have in common is connected to one at once and to the other later. -/
theorem load_permuted_woven :
    ∃ o o', Loader.load {} (woven woven.factors) {} (fun _ => false) Recorder.renderer {} = some o ∧
      Loader.load {} (woven woven.factors.reverse) {} (fun _ => false) Recorder.renderer {} = some o' ∧
      ((replay o.journal).child? 0 "right", (replay o'.journal).child? 0 "left") = (some 2, some 2) ∧
      Isomorphic (Recorder.told {} (o.journal.take 70).reverse) (Recorder.told {} (o'.journal.take 70).reverse) 0 0
        ((Loader.catalog {} (woven woven.factors)).Under (.document (woven woven.factors)) woven.product) := by
  have evaluated (inputs : List Input) (order : inputs ∈ [woven.factors, woven.factors.reverse]) :
      (Loader.load {} (woven inputs) {} (fun _ => false) Recorder.renderer {}).map (fun o =>
        ((replay o.journal).child? 0 (if inputs = woven.factors then "right" else "left"), woven.view o.journal)) =
      some (some 2, {
        asks := some true
        answers := some (0, "product", true)
        unanswered := some 0
        size := 1
        graph := some (.document (woven inputs))
        child := true }) := by
    revert inputs
    decide +kernel
  have first : woven.factors ∈ [woven.factors, woven.factors.reverse] := .head _
  have second : woven.factors.reverse ∈ [woven.factors, woven.factors.reverse] := .tail _ (.head _)
  obtain ⟨o, loaded, seen⟩ := Option.map_eq_some_iff.1 (evaluated _ first)
  obtain ⟨o', loaded', seen'⟩ := Option.map_eq_some_iff.1 (evaluated _ second)
  obtain ⟨right, view⟩ := Prod.mk.inj seen
  obtain ⟨left, view'⟩ := Prod.mk.inj seen'
  have permutes : (Loader.catalog {} (woven woven.factors)).Permutes (Loader.catalog {} (woven woven.factors.reverse)) :=
    ⟨⟨rfl, .cons ⟨rfl, .rfl⟩ (.cons ⟨rfl, List.reverse_perm _⟩ .nil)⟩, .none⟩
  have nodes : (Graph.document (woven woven.factors.reverse)).nodes = (Graph.document (woven woven.factors)).nodes := rfl
  let opcode (n : Node) : Opcode := if n.name = "product" then .mul else .add
  have regular : ∀ n ∈ (woven woven.factors).nodes,
      (Loader.catalog {} (woven woven.factors)).IsRegular (.document (woven woven.factors)) n .arithmetic
        (.mapped (.binary (opcode n))) [(.op, .word (opcode n).id)] := by
    decide +kernel
  refine ⟨o, o', loaded, loaded', Prod.ext right left, ?_⟩
  exact load_permuted loaded loaded' rfl rfl permutes nodes (woven.isAcyclicAt _ first) (woven.isAcyclicAt _ second)
    (woven.gives view) (woven.gives view') fun n under => ⟨_, _, _, regular n (under.has rfl).mem⟩

/-- A document like it, but one factor is an image that names a node where a file belongs, and gives a file besides. -/
def tangled (inputs : List Input) : Document where
  nodeDefs := [
    { name := "ND_add", node := "add", type := "float"
      inputs := [{ name := "in1", type := "float" }, { name := "in2", type := "float" }] },
    { name := "ND_image", node := "image", type := "float", inputs := [{ name := "file", type := "filename" }] },
    { name := "ND_multiply", node := "multiply", type := "float", inputs }]
  nodes := [
    woven.product,
    { name := "left", category := "image", type := "float"
      inputs := [{ name := "file", type := "filename", value := some "/", nodeName := some "common" }] },
    { name := "right", category := "add", type := "float"
      inputs := [{ name := "in1", type := "float", nodeName := some "common" }] },
    { name := "common", category := "add", type := "float" }]
  outputs := [{ name := "o", type := "float", nodeName := some "product" }]

/-- Where a node is named for an input that the renderer node lacks, the order matters. If the named node is there, the
connection is refused at once and the file is taken; if it is not, the connection is refused later, and nothing is. -/
theorem refused_connection_hides_file :
    ∃ o o', Loader.load {} (tangled woven.factors) {} (· = "/") Recorder.renderer {} = some o ∧
      Loader.load {} (tangled woven.factors.reverse) {} (· = "/") Recorder.renderer {} = some o' ∧
      (Loader.catalog {} (tangled woven.factors)).Permutes (Loader.catalog {} (tangled woven.factors.reverse)) ∧
      o.result.images.map (·.params.file) = ["/"] ∧ o'.result.images = [] := by
  have evaluated : ((Loader.load {} (tangled woven.factors) {} (· = "/") Recorder.renderer {}).map
        (·.result.images.map (·.params.file)),
      (Loader.load {} (tangled woven.factors.reverse) {} (· = "/") Recorder.renderer {}).map (·.result.images)) =
      (some ["/"], some []) := by
    decide +kernel
  obtain ⟨first, second⟩ := Prod.mk.inj evaluated
  obtain ⟨o, loaded, file⟩ := Option.map_eq_some_iff.1 first
  obtain ⟨o', loaded', none⟩ := Option.map_eq_some_iff.1 second
  exact ⟨o, o', loaded, loaded',
    ⟨⟨rfl, .cons ⟨rfl, .rfl⟩ (.cons ⟨rfl, .rfl⟩ (.cons ⟨rfl, List.reverse_perm _⟩ .nil))⟩, .none⟩, file, none⟩

end MaterialGraph
