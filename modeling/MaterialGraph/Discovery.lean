import MaterialGraph.Catalog
import MaterialGraph.Document.Version
import MaterialGraph.OutputKind

/-!
# What can be rendered

* `Catalog.outputsOf` are the outputs that an element exposes, each with the graph in which it is built.
* `Catalog.discover` lists the elements that may be rendered, in the order in which they are tried.
* `Catalog.renderables` lists the paths of those that expose an output of each kind, each element once.
-/

namespace MaterialGraph

set_option autoImplicit false

/-- An output that an element exposes. -/
structure Candidate where
  graph : Graph
  output : Output
  shaderRef : Option ShaderRef := none
deriving DecidableEq, Repr

def Candidate.kind? (c : Candidate) : Option OutputKind := OutputKind.ofType? c.output.type

namespace Catalog

/-- The outputs exposed by a shader reference: those of the graph that implements its definition. A definition for a
special target exposes none. -/
def outputsOfShader (c : Catalog) (r : ShaderRef) : List Candidate :=
  match ((c.shaderDef? r).filter fun nd => nd.target.isEmpty).bind c.implementation? with
  | some g => g.outputs.map fun o => ⟨.named g, o, some r⟩
  | none => []

/-- The outputs exposed by a node: a shader exposes itself, and a material the shaders that it names. -/
def outputsOfNode (parent : Graph) (n : Node) : List Candidate :=
  let shader (n : Node) : Candidate := ⟨parent, .ofNode n, none⟩
  if n.type = "material" then
    ["surfaceshader", "displacementshader"].filterMap fun slot =>
      (((n.input? slot).bind Input.nodeName?).bind parent.node?).map shader
  else if n.type = "surfaceshader" ∨ n.type = "displacementshader" then [shader n]
  else []

def outputsOf (c : Catalog) : Element → List Candidate
  | .material m => m.shaderRefs.flatMap c.outputsOfShader
  | .graph g => g.outputs.map fun o => ⟨.named g, o, none⟩
  | .output parent o => [⟨parent, o, none⟩]
  | .node parent n => outputsOfNode parent n

/-- Whether an element exposes an output that can be rendered. -/
def isRenderable (c : Catalog) (e : Element) : Bool :=
  (c.outputsOf e).any fun o => o.kind?.isSome

def isShaderType (c : Catalog) (type : String) : Bool :=
  ((c.typeDef? type).bind TypeDef.semantic) = some shaderSemantic

/-- The version from which on shaders of the top level are rendered on their own. -/
def shaderNodesSince : Version := ⟨1, 38⟩

/-- The elements that may be rendered, in the order in which they are tried: what the looks assign, the materials, the
shaders of the top level, the graphs that implement no definition, and the outputs of the top level. -/
def discover (c : Catalog) : List Element :=
  let d := c.document
  let assigned := (d.looks.flatMap Look.materialAssigns).filterMap fun a => d.child? a.material
  let materials := (d.materials.map Element.material).filter c.isRenderable
  let shaders :=
    if d.versionNumbers.atLeast shaderNodesSince then
      (d.nodes.filter fun n => !n.fromLibrary && c.isShaderType n.type).map (Element.node (.document d))
    else []
  let graphs :=
    (d.nodeGraphs.filter fun g =>
      !g.fromLibrary && g.nodeDef.isNone && g.outputs.any fun o => (OutputKind.ofType? o.type).isSome).map .graph
  let outputs :=
    (d.outputs.filter fun o => !o.fromLibrary && (OutputKind.ofType? o.type).isSome).map
      (Element.output (.document d))
  assigned ++ materials ++ shaders ++ graphs ++ outputs

/-- The elements without those that count as one with an element before them. -/
def firstOfEach : List (Element.Kind × String) → List Element → List Element
  | _, [] => []
  | seen, e :: es =>
    if seen.contains e.identity then firstOfEach seen es else e :: firstOfEach (e.identity :: seen) es

/-- The paths of the elements that expose an output of each kind. -/
def renderables (c : Catalog) : PerKind (List String) :=
  let elements := firstOfEach [] c.discover
  let exposing (k : OutputKind) : List String :=
    (elements.filter fun e => (c.outputsOf e).any fun o => o.kind? = some k).map Element.namePath
  ⟨exposing .surface, exposing .displacement⟩

end Catalog

end MaterialGraph
