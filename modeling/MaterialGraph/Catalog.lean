import MaterialGraph.Document.Element

/-!
# Catalogs

A catalog is a document with the library that it stands on. Every look-up of a definition asks the document first.
-/

namespace MaterialGraph

set_option autoImplicit false

/-- A document and the library that it stands on. -/
structure Catalog where
  document : Document
  library : Option Document := none
deriving DecidableEq, Repr

namespace Catalog

/-- The documents in the order in which they are asked. -/
def documents (c : Catalog) : List Document := c.document :: c.library.toList

def nodeDef? (c : Catalog) (name : String) : Option NodeDef :=
  c.documents.findSome? fun d => d.nodeDefs.find? fun nd => nd.name = name

/-- The definition that a node instantiates: the one it names, or the first for its category and type. -/
def nodeDefOf? (c : Catalog) (n : Node) : Option NodeDef :=
  match nonEmpty n.nodeDef with
  | some name => c.nodeDef? name
  | none => c.documents.findSome? fun d => d.nodeDefs.find? fun nd => nd.node = n.category ∧ nd.type = n.type

/-- The definition that a shader reference means: the one it names, or the first for its category. -/
def shaderDef? (c : Catalog) (r : ShaderRef) : Option NodeDef :=
  match nonEmpty r.nodeDef with
  | some name => c.nodeDef? name
  | none => c.documents.findSome? fun d => d.nodeDefs.find? fun nd => nd.node = r.node

def nodeGraph? (c : Catalog) (name : String) : Option NodeGraph :=
  c.documents.findSome? fun d => d.nodeGraph? name

/-- The graph that implements a definition: the one that the definition names, or the first that names the
definition. -/
def implementation? (c : Catalog) (nd : NodeDef) : Option NodeGraph :=
  match nonEmpty nd.nodeGraph with
  | some name => c.nodeGraph? name
  | none => c.documents.findSome? fun d => d.nodeGraphs.find? fun g => g.nodeDef = some nd.name

/-- The definition of a geometric property of a name. -/
def geomPropDef? (c : Catalog) (name : String) : Option GeomPropDef :=
  c.documents.findSome? fun d => d.geomPropDef? name

def typeDef? (c : Catalog) (name : String) : Option TypeDef :=
  c.documents.findSome? fun d => d.typeDef? name

end Catalog

/-- The definition that a graph implements: the one that the graph names, or the first that names the graph. -/
def Graph.nodeDef? (g : Graph) (c : Catalog) : Option NodeDef :=
  match g with
  | document _ => none
  | named g =>
    match nonEmpty g.nodeDef with
    | some name => c.nodeDef? name
    | none => c.documents.findSome? fun d => d.nodeDefs.find? fun nd => nd.nodeGraph = some g.name

end MaterialGraph
