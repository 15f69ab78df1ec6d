import MaterialGraph.Build.Binding
import MaterialGraph.Build.Recipe
import MaterialGraph.Document.OutputChoice

/-!
# Building children on demand

`childPart` gives the part for a node of a composite and builds what is missing: the part of the node itself, and the
parts of all nodes that it names. A node that is named before it is built waits on a stack, so chains of nodes need no
recursion; a child is noted in its composite before its own inputs are resolved.

Building a node can lead to other graphs: to the graph that implements its definition, to a free-standing graph, or to
the top level. All these ways end in `childPart` again, for another composite or for another node. They are written
for any function in its place, `sub`, and `childPart` closes the circle with fuel.
-/

namespace MaterialGraph.Build

set_option autoImplicit false

variable {σ : Type}

/-- A way to get the part for a node of a composite, by the name of the node. -/
abbrev SubPart (σ : Type) := PartId → String → Build σ (Option PartId)

/-- A connection for which the producer has still to be built. -/
structure Link where
  input : Input
  producer : Node
  output : Option String
deriving DecidableEq, Repr

/-- A node to be built, and a connection to be made from it. -/
structure Pending where
  consumer : Node
  link : Option Link := none
deriving DecidableEq, Repr

/-- How far one way of resolving an input has led. The next way may be tried only if it is unsettled; a connection may be
deferred. -/
inductive Resolution where
  | settled
  | deferred (p : Pending)
  | unsettled
deriving DecidableEq, Repr

/-! ## Graphs -/

/-- Builds the node behind one output, and complains if there is none. -/
def buildOutput (sub : SubPart σ) (id : PartId) (g : Graph) (o : Output) : Build σ Bool := do
  let name := o.nodeName?.getD ""
  remark (.output o.name name)
  match ← sub id name with
  | some _ => return true
  | none =>
    warn (.outputNode name o.name g.name)
    return false

/-- Builds the nodes behind some outputs in a composite. It is an error if none can be built. -/
def buildOutputs (sub : SubPart σ) (id : PartId) (required : List Output) : Build σ (Result Unit) := do
  match (← assembly).composite? id with
  | none => return .error (.malformed "node is not a graph")
  | some c =>
    let g := c.graph
    remark (.graph g.name)
    within .graph g.filePrefix do
      let built ← required.mapM (buildOutput sub id g)
      return if built.contains true then .ok () else .error (.noOutput g.name)

/-- Adds a composite for a graph and builds the nodes behind some outputs. -/
def buildComposite (sub : SubPart σ) (g : Graph) (required : List Output) : Build σ (Result PartId) := do
  let id ← addComposite g
  andThen (buildOutputs sub id required) fun () => return .ok id

/-- The composite of the top level, which is added when it is first asked for. -/
def topComposite : Build σ PartId := do
  match (← assembly).top with
  | some id => return id
  | none =>
    let id ← addComposite (.document (← catalog).document)
    edit (.top id)
    return id

def topPart (sub : SubPart σ) (n : Node) : Build σ (Option PartId) := do
  let d := (← catalog).document
  let top ← topComposite
  within .global d.filePrefix (sub top n.name)

/-- The composite for a graph that is used outside any definition, with the nodes behind some outputs. Each graph has
one composite. A graph that is asked for while it is being built depends on itself. -/
def freeStandingGraph (sub : SubPart σ) (g : NodeGraph) (required : List Output) : Build σ (Result PartId) := do
  match (← assembly).freeStanding[g.name]? with
  | some (.building _) => return .error (.cycle ("node graph " ++ g.name ++ " depends on itself"))
  | state =>
    let id ← match state with
      | some state => pure state.id
      | none => addComposite (.named g)
    edit (.freeStanding g.name (.building id))
    let outcome ← buildOutputs sub id required
    edit (.freeStanding g.name (.built id))
    return outcome.map fun () => id

/-! ## Nodes -/

/-- Builds the part for a node, without its inputs. -/
def buildNode (sub : SubPart σ) (n : Node) : Build σ (Result PartId) := do
  match Recipe.of n with
  | .error e => return .error e
  | .ok (.forward role) => return .ok (← addPart (.leaf ⟨.nothing, role⟩))
  | .ok (.create type role settings) =>
    andThen (createLeaf type role settings (some n.name)) fun l => return .ok (← addPart (.leaf l))
  | .ok .expand =>
    let c ← catalog
    match (c.nodeDefOf? n).bind c.implementation? with
    | some g => buildComposite sub (.named g) g.outputs
    | none => return .error (.unsupported ("node " ++ n.category ++ " (" ++ n.type ++ ")"))

/-- The part that looks up a geometric property, built when it is first asked for. -/
def geomPart (g : GeomPropDef) : Build σ (Option PartId) := do
  match (← assembly).geometry[g.name]? with
  | some id => return some id
  | none =>
    if g.isStrange then warn (.texcoordType g.type)
    let leaf ← match Lookup.ofGeomProp g with
      | .error e => pure (.error e)
      | .ok quantity => createLeaf .inputLookup .plain [(.value, .word quantity.id)] (some g.name)
    match leaf with
    | .error e =>
      warn (.geomProp g.name e)
      return none
    | .ok l =>
      let id ← addPart (.leaf l)
      edit (.geometry g.name id)
      return some id

/-! ## Inputs -/

/-- Connects an output of a part to an input, and says whether that was possible. -/
def reportConnect (producer : PartId) (output : Option String) (consumer : PartId) (i : Input) : Build σ Bool := do
  match ← connect producer output consumer i with
  | .ok () => return true
  | .error e =>
    warn (.binding i.name e)
    return false

/-- Connects an input to an output of a free-standing graph. -/
def connectGraph (sub : SubPart σ) (element : Input) (graph output : String) (consumer : PartId) (i : Input) :
    Build σ Bool := do
  match (← catalog).document.nodeGraph? graph with
  | none =>
    warn (.noGraph graph)
    return false
  | some g =>
    match (Graph.named g).output? output with
    | none =>
      warn (.noGraphOutput graph output)
      return false
    | some o =>
      match ← freeStandingGraph sub g [o] with
      | .error e =>
        warn (.failed e)
        return false
      | .ok id =>
        remark (.boundToGraph element.name graph output)
        reportConnect id (some output) consumer i

/-- The node behind an output of the top level, and its definition. -/
def topProducer? (c : Catalog) (output : String) : Option (Output × Node × NodeDef) := do
  let o ← c.document.output? output
  let n ← o.nodeName?.bind c.document.node?
  let nd ← c.nodeDefOf? n
  return (o, n, nd)

/-- Connects an input to an output of the top level. -/
def connectTopOutput (sub : SubPart σ) (element : Input) (output : String) (consumer : PartId) (i : Input) :
    Build σ Bool := do
  match topProducer? (← catalog) output with
  | none => return false
  | some (o, n, nd) =>
    match chooseOutput nd.type nd.outputs o.output? o.name with
    | .error e =>
      warn (.failed e)
      return false
    | .ok chosen =>
      match ← topPart sub n with
      | none => return false
      | some id =>
        remark (.boundToOutput element.name output)
        reportConnect id chosen consumer i

/-- Connects an input to the output that an element names outside its graph: of a free-standing graph, or of the top
level. Says whether a connection was made. -/
def connectOutside (sub : SubPart σ) (element : Input) (consumer : PartId) (i : Input) : Build σ Bool :=
  match element.output? with
  | none => return false
  | some output =>
    match nonEmpty element.nodeGraph with
    | some graph => connectGraph sub element graph output consumer i
    | none => connectTopOutput sub element output consumer i

/-- Connects an input to a node of the same graph, now or when that node is built. Only if the consumer does not know
the input may another way be tried. -/
def connectInside (id : PartId) (g : Graph) (consumer : Node) (part : PartId) (i element : Input) (name : String) :
    Build σ Resolution := do
  remark (.reference name)
  match g.node? name with
  | none =>
    warn (.noProducer name g.name)
    return .settled
  | some producer =>
    let outputs := (((← catalog).nodeDefOf? producer).map NodeDef.outputs).getD []
    match chooseOutput producer.type outputs element.output? element.name with
    | .error e =>
      warn (.failed e)
      return .settled
    | .ok output =>
      match ((← assembly).composite? id).bind (·.child? name) with
      | none => return .deferred ⟨consumer, some ⟨i, producer, output⟩⟩
      | some producing =>
        match ← connectChildren id ⟨name, consumer.name⟩ producing output part i with
        | .ok () =>
          remark (.connected name consumer.name)
          return .settled
        | .error e =>
          if e.isUnsupported then
            remark (.refused name consumer.name i.name e)
            return .unsettled
          else
            warn (.connection name consumer.name i.name e)
            return .settled

def bindGeomProp (property : String) (part : PartId) (i : Input) : Build σ Unit := do
  match (← catalog).geomPropDef? property with
  | none => warn (.noGeomProp property)
  | some g =>
    match ← geomPart g with
    | none => return ()
    | some id =>
      match ← connect id none part i with
      | .ok () => return ()
      | .error e =>
        if e.isUnsupported then remark (.geomPropRefused property i.name e)
        else warn (.geomPropBinding property i.name e)

def bindLiteral (element : Input) (n : Node) (part : PartId) (i : Input) : Build σ Unit := do
  match element.value? with
  | none => return ()
  | some value =>
    remark (.literal value)
    match ← bindInput part i (.literal value element.type) with
    | .ok () => return ()
    | .error e =>
      if e.isUnsupported then remark (.literalRefused n.name i.name value e)
      else warn (.literal n.name i.name value e)

/-- The element that says what an input is bound to: the one of the node, or else the declared one. If the node's
element names an interface input of the graph's definition, a socket is opened for overrides, and the interface input
is the element. -/
def effectiveInput (id : PartId) (g : Graph) (n : Node) (i : Input) : Build σ Input := do
  match n.input? i.name with
  | none => return i
  | some element =>
    match element.interfaceName? with
    | none => return element
    | some interface =>
      edit (.socket id interface ⟨n.name, i⟩)
      return ((g.nodeDef? (← catalog)).bind (·.input? interface)).getD i

/-- Binds an element that can be connected: to a node of the same graph, to an output outside, to a geometric property,
or to its literal. A connection may be left to wait. -/
def bindElement (sub : SubPart σ) (id : PartId) (g : Graph) (n : Node) (part : PartId) (i element : Input) :
    Build σ (Option Pending) := do
  let inside ← match element.nodeName? with
    | some name => connectInside id g n part i element name
    | none => pure .unsettled
  match inside with
  | .settled => return none
  | .deferred p => return some p
  | .unsettled =>
    if ← connectOutside sub element part i then return none
    else match nonEmpty element.defaultGeomProp with
      | some property =>
        bindGeomProp property part i
        return none
      | none =>
        bindLiteral element n part i
        return none

def resolveInput (sub : SubPart σ) (id : PartId) (n : Node) (part : PartId) (i : Input) :
    Build σ (Option Pending) := do
  match (← assembly).composite? id with
  | none => return none
  | some c =>
    let element ← effectiveInput id c.graph n i
    if element.isInput then bindElement sub id c.graph n part i element
    else
      bindLiteral element n part i
      return none

/-- Resolves the inputs that the definition of a node declares, and lists the connections that wait, the latest
first. -/
def resolveInputs (sub : SubPart σ) (id : PartId) (n : Node) (part : PartId) : Build σ (List Pending) := do
  match (← catalog).nodeDefOf? n with
  | none =>
    warn (.noDefinition n.name n.category)
    return []
  | some nd =>
    let waiting ← nd.inputs.mapM fun i => do
      remark (.input i.kind i.name)
      within .input i.filePrefix (resolveInput sub id n part i)
    return (waiting.filterMap fun p => p).reverse

/-- Complains about a node that could not be built, unless it is only left out. -/
def reportNode (n : Node) (e : LoadError) : Build σ Unit :=
  match e with
  | .noOutput _ => remark (.skipped e)
  | e => if e.isUnsupported then remark (.skipped e) else warn (.node n.name n.category e)

/-- The child for a node: the one that is there, or a new one with its inputs resolved. Also lists the connections that
wait, the latest first. -/
def buildChild (sub : SubPart σ) (id : PartId) (n : Node) : Build σ (Option PartId × List Pending) := do
  match ((← assembly).composite? id).bind (·.child? n.name) with
  | some part => return (some part, [])
  | none =>
    remark (.node n.name n.category)
    within .node n.filePrefix do
      match ← buildNode sub n with
      | .error e =>
        reportNode n e
        return (none, [])
      | .ok part =>
        edit (.child id n.name part)
        return (some part, ← resolveInputs sub id n part)

/-! ## The stack of nodes that wait -/

def connectPending (id : PartId) (consumer : Node) (link : Link) (part producing : PartId) : Build σ Unit := do
  match ← connectChildren id ⟨link.producer.name, consumer.name⟩ producing link.output part link.input with
  | .ok () => remark (.connected link.producer.name consumer.name)
  | .error e => warn (.connection link.producer.name consumer.name link.input.name e)

/-- Builds the producer of a connection that has waited and makes the connection. Lists the connections that now
wait. -/
def followLink (sub : SubPart σ) (id : PartId) (consumer : Node) (part : Option PartId) :
    Option Link → Build σ (List Pending)
  | none => return []
  | some link => do
    let (producing, waiting) ← buildChild sub id link.producer
    match part, producing with
    | some part, some producing => connectPending id consumer link part producing
    | _, _ => pure ()
    return waiting

/-- Works off a stack of nodes and connections. The result is the part for the node called `root`. -/
def drain (sub : SubPart σ) (id : PartId) (root : String) :
    Nat → List Pending → Option PartId → Build σ (Option PartId)
  | _, [], found => return found
  | 0, _ :: _, _ => outOfFuel
  | fuel + 1, p :: stack, found => do
    let (part, waiting) ← buildChild sub id p.consumer
    let later ← followLink sub id p.consumer part p.link
    drain sub id root fuel (later ++ (waiting ++ stack)) (if p.consumer.name = root then part else found)

/-- The number of entries that can ever be on the stack of a graph: one for each input that a definition declares for
one of its nodes, and the first. -/
def stackBound (c : Catalog) (g : Graph) : Nat :=
  g.nodes.foldl (fun k n => k + ((c.nodeDefOf? n).map fun nd => nd.inputs.length).getD 0) 1

/-- The part for a node of a composite: the one that is there, or a new one with all that it needs. -/
def childPartWith (sub : SubPart σ) (id : PartId) (name : String) : Build σ (Option PartId) :=
  asTask (.child id name) Option.isSome do
    match (← assembly).composite? id with
    | none => return none
    | some c =>
      match c.child? name with
      | some part => return some part
      | none =>
        match c.graph.node? name with
        | none =>
          warn (.noNode name c.graph.name)
          return none
        | some root => drain sub id root.name (stackBound (← catalog) c.graph) [⟨root, none⟩] none

/-- The part for a node of a composite, with fuel for the ways through other graphs. -/
def childPart : Nat → SubPart σ
  | 0 => fun _ _ => outOfFuel
  | fuel + 1 => childPartWith (childPart fuel)

/-- The depth of the ways through other graphs that is always granted. A node that leads back to itself may need it, if
only a failing call ends its way. -/
def grantedDepth : Nat := 16384

/-- The number of graphs and of nodes of the top level that can be under way at a time, if no node leads back to itself:
between two free-standing graphs or nodes of the top level that are noted as under way, every node of the top level can
lead through a chain of implementations. -/
def depthBound (c : Catalog) : Nat :=
  let nodes := c.document.nodes.length
  let graphs := c.documents.foldl (fun k d => k + d.nodeGraphs.length) 0
  max grantedDepth ((nodes + graphs + 2) * (nodes + 2) * (graphs + 2))

def part : SubPart σ := fun id name => do
  childPart (depthBound (← catalog)) id name

end MaterialGraph.Build
