import MaterialGraph.Build.Resolver
import MaterialGraph.Selection

/-!
# Groups of outputs

Selected outputs of one graph, reached through one shader reference or none, form a group. A group has one composite,
in which all its outputs are built.

* `Group.ofSelected` forms the groups, in a fixed order.
* `buildGroup` builds a group and finds the root of each of its outputs.
-/

namespace MaterialGraph

set_option autoImplicit false

/-- Selected outputs of one graph. -/
structure Group where
  graph : Graph
  shaderRef : Option ShaderRef
  outputs : List (OutputKind × Output)

/-- Whether a name that may be missing comes before another: a missing one comes first. -/
def comesBefore : Option String → Option String → Bool
  | _, none => false
  | none, some _ => true
  | some a, some b => a < b

namespace Group

/-- The names that tell groups apart: that of the graph, which the top level lacks, and that of the shader
reference. -/
def key (g : Group) : Option String × Option String :=
  let graph := match g.graph with
    | .document _ => none
    | .named n => some n.name
  (graph, g.shaderRef.map ShaderRef.name)

/-- The order of groups: by the graph, then by the shader reference. -/
def precedes (g h : Group) : Bool :=
  comesBefore g.key.1 h.key.1 || (g.key.1 = h.key.1 && comesBefore g.key.2 h.key.2)

/-- Adds outputs to the group of their key, or adds a new group in its place. -/
def insert (g : Group) : List Group → List Group
  | [] => [g]
  | h :: hs =>
    if g.key = h.key then { h with outputs := h.outputs ++ g.outputs } :: hs
    else if g.precedes h then g :: h :: hs
    else h :: insert g hs

/-- The groups of the selected outputs, in their order. -/
def ofSelected (selected : List (OutputKind × Candidate)) : List Group :=
  selected.foldl (fun groups (kind, c) => insert ⟨c.graph, c.shaderRef, [(kind, c.output)]⟩ groups) []

end Group

namespace Build

variable {σ : Type}

/-- The composite of a group. Graphs of the document are built where they are shared; what is reached through a shader
reference gets a composite of its own, since the reference sets inputs there. -/
def groupComposite (g : Group) : Build σ (Result PartId) := do
  let required := g.outputs.map (·.2)
  match g.graph, g.shaderRef with
  | graph, some _ => buildComposite part graph required
  | .document _, none =>
    let id ← topComposite
    andThen (buildOutputs part id required) fun () => return .ok id
  | .named n, none => freeStandingGraph part n required

/-- Sets one input of a composite as a shader reference says. -/
def setBindInput (id : PartId) (r : ShaderRef) (i : Input) : Build σ Unit :=
  asTask (.override id r i) (fun _ => true) do
    if ← connectOutside part i id i then return ()
    else match i.value? with
      | none => return ()
      | some value =>
        remark (.boundToLiteral i.name value i.type)
        match ← bindInput id i (.literal value i.type) with
        | .ok () => return ()
        | .error e => warn (.bindInput i.name r.name e)

/-- The part behind an output of a nested composite. -/
def innerPart (child : PartId) (inner : Graph) (o : Output) : Build σ (Option PartId) := do
  match chooseOutput inner.type inner.outputs o.output? o.name with
  | .error e =>
    warn (.failed e)
    return none
  | .ok chosen =>
    let output := match chosen with
      | some name => inner.output? name
      | none => inner.outputs.head?
    match output.bind Output.nodeName? with
    | none => return none
    | some name =>
      match ← part child name with
      | none => return none
      | some found => return if ((← assembly).leaf? found).isSome then some found else none

/-- The leaf behind an output of a composite: a child, or a leaf of a child. -/
def outputLeaf (id : PartId) (o : Output) : Build σ (Option PartId) := do
  let a ← assembly
  match (a.composite? id).bind fun c => o.nodeName?.bind c.child? with
  | none => return none
  | some child =>
    match a.part? child with
    | none => return none
    | some (.leaf _) => return some child
    | some (.composite c) => innerPart child c.graph o

/-- A leaf that lets a value of some type stand for a surface. -/
def wrapSurface (h : Handle) (type : String) : Build σ (Result PartId) :=
  if OutputKind.wrappable.contains type then
    andThen (createLeaf .passthrough .wrap [(.color, .node h)] none) fun l => return .ok (← addPart (.leaf l))
  else return .error (.coercion ("unknown type - " ++ type))

/-- The root for an output, and the parts that were added for it. -/
def rootOf (g : Group) (id : PartId) (kind : OutputKind) (o : Output) : Build σ (Option PartId × List PartId) := do
  match ← outputLeaf id o with
  | none =>
    warn (.unresolved o.name g.graph.name)
    return (none, [])
  | some leaf =>
    match ((← assembly).leaf? leaf).bind fun l => l.hold.handle? with
    | none =>
      warn (.noHandle o.name g.graph.name)
      return (none, [])
    | some h =>
      if kind = .surface ∧ o.type ≠ "surfaceshader" then
        match ← wrapSurface h o.type with
        | .ok wrap => return (some wrap, [wrap])
        | .error e =>
          warn (.wrap o.name e)
          return (none, [])
      else return (some leaf, [])

/-- What the groups have led to: the parts to be handed over with all below them, and the roots. -/
structure Harvest where
  parts : List PartId := []
  roots : PerKind (Option PartId) := .both none

def addRoot (g : Group) (id : PartId) (harvest : Harvest) (o : OutputKind × Output) : Build σ Harvest := do
  let (root, added) ← asTask (.root id o.1) (·.1.isSome) (rootOf g id o.1 o.2)
  match root with
  | none => return harvest
  | some root => return ⟨harvest.parts ++ added, harvest.roots.set o.1 (some root)⟩

/-- Complains about a group that could not be built, unless it only has nothing to show. -/
def reportGroup (e : LoadError) : Build σ Unit :=
  match e with
  | .noOutput _ => remark (.skipped e)
  | e => warn (.failed e)

/-- Builds a group, sets its inputs, and finds its roots. -/
def buildGroup (harvest : Harvest) (g : Group) : Build σ Harvest := do
  match ← groupComposite g with
  | .error e =>
    reportGroup e
    return harvest
  | .ok id =>
    match g.shaderRef with
    | some r => r.bindInputs.forM (setBindInput id r)
    | none => pure ()
    g.outputs.foldlM (addRoot g id) { harvest with parts := harvest.parts ++ [id] }

end Build

end MaterialGraph
