import MaterialGraph.Proofs.FanOut
import MaterialGraph.Proofs.Paths
import MaterialGraph.Proofs.Pervading

/-!
# Definitions of graphs

A definition is tied to the graph that implements it from either side: the definition names the graph, or the graph
names the definition. An instance looks for the graph of its definition; the defaults of the inputs of the graph are
looked for from the graph, whatever has instantiated it.

* `Catalog.Instantiates`, `Catalog.LeadsBack` : the link from a definition to its graph, and the link back.
* `Catalog.nodeDef?_eq_some_iff` : a graph is taken to implement the definition that it leads back to.
* `Catalog.instantiated_defaults` : where the inner inputs of an instantiated graph take their defaults from.
-/

namespace MaterialGraph

set_option autoImplicit false

namespace Catalog

variable {c : Catalog} {nd : NodeDef} {g : NodeGraph}

/-! ## Looking for definitions -/

def definitions (c : Catalog) : List NodeDef := c.documents.flatMap Document.nodeDefs

/-- Definitions can be told apart by their names, and so can graphs. -/
structure IsUnambiguous (c : Catalog) : Prop where
  definitions : (c.definitions.map NodeDef.name).Nodup
  graphs : ((c.documents.flatMap Document.nodeGraphs).map NodeGraph.name).Nodup

instance (c : Catalog) : Decidable c.IsUnambiguous :=
  decidable_of_iff
    ((c.definitions.map NodeDef.name).Nodup ∧ ((c.documents.flatMap Document.nodeGraphs).map NodeGraph.name).Nodup)
    ⟨fun h => ⟨h.1, h.2⟩, fun h => ⟨h.1, h.2⟩⟩

theorem findSome?_nodeDefs (c : Catalog) (p : NodeDef → Bool) :
    (c.documents.findSome? fun d => d.nodeDefs.find? p) = c.definitions.find? p := List.find?_flatMap.symm

theorem nodeDef?_eq (c : Catalog) (name : String) : c.nodeDef? name = c.definitions.find? fun nd => nd.name = name :=
  c.findSome?_nodeDefs _

/-- Where definitions have distinct names, the name of a definition leads to it. -/
theorem IsUnambiguous.nodeDef?_eq_some_iff (clear : c.IsUnambiguous) (mem : nd ∈ c.definitions) {name : String} :
    c.nodeDef? name = some nd ↔ nd.name = name := by
  rw [nodeDef?_eq]
  constructor
  · intro found
    simpa using List.find?_some found
  · rintro rfl
    exact find?_name_eq clear.definitions mem

/-- An instance of a definition calls for the graph that implements it: a shader reference that means the definition, or
a node. -/
inductive Instantiates (c : Catalog) (nd : NodeDef) (g : NodeGraph) : Prop where
  | reference (r : ShaderRef) (means : c.shaderDef? r = some nd) (implemented : c.implementation? nd = some g)
  | node (n : Node) (means : c.nodeDefOf? n = some nd) (implemented : c.implementation? nd = some g)

theorem mem_definitions_of_nodeDefOf? {n : Node} (means : c.nodeDefOf? n = some nd) : nd ∈ c.definitions := by
  unfold nodeDefOf? at means
  split at means
  · exact List.mem_of_find?_eq_some (c.nodeDef?_eq _ ▸ means)
  · exact List.mem_of_find?_eq_some (c.findSome?_nodeDefs _ ▸ means)

theorem mem_definitions_of_shaderDef? {r : ShaderRef} (means : c.shaderDef? r = some nd) : nd ∈ c.definitions := by
  unfold shaderDef? at means
  split at means
  · exact List.mem_of_find?_eq_some (c.nodeDef?_eq _ ▸ means)
  · exact List.mem_of_find?_eq_some (c.findSome?_nodeDefs _ ▸ means)

theorem Instantiates.mem_definitions (instantiates : c.Instantiates nd g) : nd ∈ c.definitions := by
  cases instantiates with
  | reference r means => exact mem_definitions_of_shaderDef? means
  | node n means => exact mem_definitions_of_nodeDefOf? means

theorem Instantiates.implemented (instantiates : c.Instantiates nd g) : c.implementation? nd = some g := by
  cases instantiates with
  | reference _ _ implemented | node _ _ implemented => exact implemented

/-! ## From a graph to its definition -/

def IsFirstFor (c : Catalog) (g : NodeGraph) (nd : NodeDef) : Prop :=
  ∃ before after, c.definitions = before ++ nd :: after ∧ nd.nodeGraph = some g.name ∧
    ∀ m ∈ before, m.nodeGraph ≠ some g.name

/-- A graph leads back to a definition: it names the definition; or it names none, and the definition is the first that
names the graph. -/
def LeadsBack (c : Catalog) (g : NodeGraph) (nd : NodeDef) : Prop :=
  nonEmpty g.nodeDef = some nd.name ∨ nonEmpty g.nodeDef = none ∧ c.IsFirstFor g nd

theorem find?_eq_some_iff_isFirstFor :
    (c.definitions.find? fun m => m.nodeGraph = some g.name) = some nd ↔ c.IsFirstFor g nd := by
  rw [List.find?_eq_some_iff_append]
  simp only [decide_eq_true_eq, Bool.not_eq_true', decide_eq_false_iff_not]
  constructor
  · rintro ⟨names, before, after, split, others⟩
    exact ⟨before, after, split, names, others⟩
  · rintro ⟨before, after, split, names, others⟩
    exact ⟨names, before, after, split, others⟩

/-- The definition that a graph is taken to implement is the one that it leads back to. -/
theorem nodeDef?_eq_some_iff (clear : c.IsUnambiguous) (mem : nd ∈ c.definitions) :
    (Graph.named g).nodeDef? c = some nd ↔ c.LeadsBack g nd := by
  unfold Graph.nodeDef? LeadsBack
  cases named : nonEmpty g.nodeDef with
  | none =>
      dsimp only
      rw [named, c.findSome?_nodeDefs, find?_eq_some_iff_isFirstFor]
      simp
  | some name =>
      dsimp only
      rw [named, clear.nodeDef?_eq_some_iff mem]
      simp [eq_comm]

/-- A graph leads back to a definition that names no graph itself. -/
theorem Instantiates.leadsBack (instantiates : c.Instantiates nd g) (unnamed : nonEmpty nd.nodeGraph = none)
    (some : nd.name ≠ "") : c.LeadsBack g nd := by
  have found := instantiates.implemented
  rw [implementation?, unnamed] at found
  obtain ⟨d, -, found⟩ := List.exists_of_findSome?_eq_some found
  have names : g.nodeDef = .some nd.name := by simpa using List.find?_some found
  exact .inl (by rw [names]; simp [nonEmpty, some])

/-! ## Defaults -/

theorem elementOf_of_interface {g : Graph} {n : Node} {i element default : Input} {interface : String}
    (names : n.input? i.name = some element) (refers : element.interfaceName? = some interface)
    (implements : g.nodeDef? c = some nd) (declares : nd.input? interface = some default) :
    c.elementOf g n i = default := by
  rw [elementOf, names]
  dsimp only
  rw [refers]
  dsimp only
  rw [implements, Option.bind_some, declares, Option.getD_some]

/-- When the graph of a definition is instantiated, the definition that it is taken to implement is the definition of
the instance exactly if the graph leads back to that: if it names the definition, or names none and the definition is
the first that names the graph. It always does if the definition names no graph itself.

Let a request for a child have been answered, and a node of the graph, whose part is new, name an interface input for
which the definition declares a literal. If the composite of the graph has been asked, and the graph leads back to the
definition, then this literal is bound: so it is for a shader reference, in whose composite inputs are set afterwards.
If the composite is new and stands for a node of the definition that says nothing of the input, then the literal is
bound in any case. -/
theorem instantiated_defaults {l : Loader} {d : Document} {options : LoadOptions} {fileExists : String → Bool}
    {s : Recorder} {upto later : List Event}
    (split : l.trace d options fileExists Recorder.renderer s = upto ++ later)
    (unambiguous : (l.catalog d).IsUnambiguous) (clear : (l.catalog d).IsClear)
    (instantiates : (l.catalog d).Instantiates nd g) {before during : List Event} {first : Event} {id : PartId}
    {name : String} {made : Bool}
    (answered : upto = before ++ first :: (during ++ [.edited (.ended (.child id name) made)])) (asks : first.isRequest)
    (closes : unanswered? 0 during = some 0) {p : PartId} {t : Port}
    (there : t.IsOf (l.catalog d) (replay upto) p (.named g)) (new : (replay before).size ≤ t.part)
    {element default : Input} {interface value : String} {v : Number.Float4}
    (names : t.node.input? t.input.name = some element) (refers : element.interfaceName? = some interface)
    (declares : nd.input? interface = some default) (literal : default.IsLiteral value)
    (floats : Literal.floats? value default.type = some v) :
    ((Graph.named g).nodeDef? (l.catalog d) = some nd ↔ (l.catalog d).LeadsBack g nd) ∧
    (nonEmpty nd.nodeGraph = none → nd.name ≠ "" → (l.catalog d).LeadsBack g nd) ∧
    (p = id → (l.catalog d).LeadsBack g nd → Pervades (s.told upto.reverse) t.part t.input (.floats v)) ∧
    (∀ n q h, (⟨p, n, default⟩ : Port).IsOf (l.catalog d) (replay upto) q h → (replay before).size ≤ p →
      (l.catalog d).nodeDefOf? n = some nd → n.input? interface = none →
        Pervades (s.told upto.reverse) t.part t.input (.floats v)) := by
  have link := nodeDef?_eq_some_iff (g := g) unambiguous instantiates.mem_definitions
  obtain ⟨c, reply, size⟩ := answers_of_trace split answered asks closes
  have assembly : (s.told upto.reverse).assembly = replay upto := congrArg replay (List.reverse_reverse upto)
  have named : default.name = interface := by simpa using List.find?_some declares
  rw [← assembly] at there
  refine ⟨link, instantiates.leadsBack, ?_, ?_⟩
  · rintro rfl back
    have given : IsGiven (l.catalog d) (.named g) _ t := reply.given rfl clear there (Nat.le_trans size new)
    have element : (l.catalog d).elementOf (.named g) t.node t.input = default :=
      elementOf_of_interface names refers (link.2 back) declares
    exact given value v (by rw [element]; exact literal) (by rw [element]; exact floats)
  · intro n q h outer above means silent
    rw [← assembly] at outer
    have tended := reply.tended rfl clear
    have governed := tended.governed outer.isIn (Nat.le_trans size above) List.not_mem_nil
    have own : n.elementFor default = default := by rw [Node.elementFor, named, silent, Option.getD_none]
    have reaches := governed.literal (v := v) (own.symm ▸ literal) (own.symm ▸ floats)
    -- a socket leads from the input of the definition to that of the node inside
    have opened := tended.opened there (Nat.le_trans size new) List.not_mem_nil element interface names refers
    obtain ⟨fits, tidy⟩ := tidy_of_trace split
    have child := there.child
    rw [assembly, ← List.reverse_reverse upto] at child
    have passes := passesOn_of_opened fits tidy (outer.isIn.plain clear) (by rw [named]; exact opened) child
    rw [List.reverse_reverse, ← assembly] at passes
    exact fun y j inner => reaches y j (inner.head passes)

/-- A node that takes an input from the definition of its graph. -/
def sharedNode : Node where
  name := "a"
  category := "add"
  type := "float"
  inputs := [{ name := "in1", type := "float", interfaceName := some "amount" }]

/-- A graph with this node. It names no definition. -/
def sharedGraph : NodeGraph where
  name := "NG_shared"
  nodes := [sharedNode]
  outputs := [{ name := "out", type := "float", nodeName := some "a" }]

def softDef : NodeDef where
  name := "ND_soft"
  node := "soft"
  type := "float"
  inputs := [{ name := "amount", type := "float", value := some "0.5" }]
  nodeGraph := some "NG_shared"

/-- The second definition that names the graph, with another default. -/
def hardDef : NodeDef where
  name := "ND_hard"
  node := "hard"
  type := "float"
  inputs := [{ name := "amount", type := "float", value := some "1" }]
  nodeGraph := some "NG_shared"

/-- A material with a shader of one of the definitions. -/
def sharing (shader : String) : Document where
  nodeDefs := [
    { name := "ND_add", node := "add", type := "float", inputs := [{ name := "in1", type := "float" }] },
    softDef, hardDef]
  nodeGraphs := [sharedGraph]
  materials := [{ name := "m", shaderRefs := [{ name := "s", node := shader }] }]

/-- The same definitions, and a node of one of them instead of the material. -/
def employing (category : String) : Document where
  nodeDefs := (sharing category).nodeDefs
  nodeGraphs := [sharedGraph]
  nodes := [{ name := "h", category := category, type := "float" }]
  outputs := [{ name := "o", type := "float", nodeName := some "h" }]

/-- What is to be seen of a load of the first definition when the node of the graph has been given. -/
structure sharing.View where
  asks : Option Bool
  answers : Option (PartId × String × Bool)
  unanswered : Option Nat
  size : Nat
  graph : Option Graph
  child : Option PartId
deriving DecidableEq

def sharing.view (j : List Event) : sharing.View where
  asks := j[3]?.map Event.isRequest
  answers := j[14]?.bind Event.answer?
  unanswered := unanswered? 0 ((j.take 14).drop 4)
  size := (replay (j.take 3)).size
  graph := ((replay (j.take 15)).composite? 0).map (·.graph)
  child := (replay (j.take 15)).child? 0 "a"

/-- The shared graph leads back to the first definition, and a shader reference to that gets its default. -/
theorem instantiated_defaults_soft :
    ∃ o v, Loader.load {} (sharing "soft") {} (fun _ => false) Recorder.renderer {} = some o ∧
      (Loader.catalog {} (sharing "soft")).Instantiates softDef sharedGraph ∧
      (Loader.catalog {} (sharing "soft")).LeadsBack sharedGraph softDef ∧
      Literal.floats? "0.5" "float" = some v ∧
      Pervades (Recorder.told {} (o.journal.take 15).reverse) 1 { name := "in1", type := "float" } (.floats v) := by
  have evaluated : (Loader.load {} (sharing "soft") {} (fun _ => false) Recorder.renderer {}).map
      (fun o => sharing.view o.journal) = some {
        asks := some true
        answers := some (0, "a", true)
        unanswered := some 0
        size := 1
        graph := some (.named sharedGraph)
        child := some 1 } := by
    decide +kernel
  obtain ⟨o, loaded, view⟩ := Option.map_eq_some_iff.1 evaluated
  have see {α : Type} (f : sharing.View → α) := congrArg f view
  obtain ⟨first, third, asks⟩ := Option.map_eq_some_iff.1 (see (·.asks))
  obtain ⟨last, latest, answers⟩ := Option.bind_eq_some_iff.1 (see (·.answers))
  obtain rfl := Event.answer?_eq_some answers
  have answered := take_eq_of_getElem? third latest (by decide)
  have instantiates : (Loader.catalog {} (sharing "soft")).Instantiates softDef sharedGraph :=
    .reference { name := "s", node := "soft" } (by decide) (by decide)
  have clear : (Loader.catalog {} (sharing "soft")).IsClear := Catalog.isClear_of_nodeDefs (by decide +kernel)
  obtain ⟨k, composite, graph⟩ := Option.map_eq_some_iff.1 (see (·.graph))
  have there : (⟨1, sharedNode, { name := "in1", type := "float" }⟩ : Port).IsOf (Loader.catalog {} (sharing "soft"))
      (replay (o.journal.take 15)) 0 (.named sharedGraph) :=
    ⟨⟨k, composite, graph⟩, (by decide +kernel : (Graph.named sharedGraph).node? sharedNode.name = some sharedNode),
      see (·.child), _,
      (by decide +kernel : (Loader.catalog {} (sharing "soft")).nodeDefOf? sharedNode =
        some { name := "ND_add", node := "add", type := "float", inputs := [{ name := "in1", type := "float" }] }),
      List.mem_singleton_self _⟩
  obtain ⟨v, floats⟩ : ∃ v, Literal.floats? "0.5" "float" = some v := Option.isSome_iff_exists.1 (by decide +kernel)
  let default : Input := { name := "amount", type := "float", value := some "0.5" }
  have names : sharedNode.input? "in1" = some { name := "in1", type := "float", interfaceName := some "amount" } := by
    decide
  have declares : softDef.input? "amount" = some default := by decide
  have literal : default.IsLiteral "0.5" := ⟨by decide, by decide, by decide, by decide, by decide⟩
  have split : Loader.trace {} (sharing "soft") {} (fun _ => false) Recorder.renderer {} =
      o.journal.take 15 ++ o.journal.drop 15 :=
    (trace_of_load loaded).trans (List.take_append_drop 15 o.journal).symm
  have result := instantiated_defaults split (by decide) clear instantiates answered asks (see (·.unanswered)) there
    (Nat.le_of_eq (see (·.size))) names (by decide) declares literal floats
  have back := result.1.1 (by decide)
  exact ⟨o, v, loaded, instantiates, back, floats, result.2.2.1 rfl back⟩

/-- The shared graph does not lead back to the second definition. A shader reference to that gets the default of the
first, though a node of that gets its own. -/
theorem instantiated_defaults_hard :
    ¬ (∀ (c : Catalog) (nd : NodeDef) (g : NodeGraph), c.IsUnambiguous → c.Instantiates nd g →
        (Graph.named g).nodeDef? c = some nd) ∧
      (Loader.load {} (sharing "hard") {} (fun _ => false) Recorder.renderer {}).map
          (fun o => (o.system.node? ⟨0⟩).bind fun m => m.bound .color0) =
        some ((Literal.floats? "0.5" "float").map .floats) ∧
      (Loader.load {} (employing "hard") { targets := some ⟨"o", ""⟩ } (fun _ => false) Recorder.renderer {}).map
          (fun o => (o.system.node? ⟨0⟩).bind fun m => m.bound .color0) =
        some ((Literal.floats? "1" "float").map .floats) := by
  refine ⟨fun always => ?_, by decide +kernel, by decide +kernel⟩
  have instantiates : (⟨sharing "hard", none⟩ : Catalog).Instantiates hardDef sharedGraph :=
    .reference { name := "s", node := "hard" } (by decide) (by decide)
  exact absurd (always _ hardDef sharedGraph (by decide) instantiates) (by decide)

end Catalog

end MaterialGraph
