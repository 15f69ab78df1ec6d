import MaterialGraph.Document.Basic
import MaterialGraph.Text.Blank

/-!
# Graphs and elements of a document

* `Graph` is the top level of a document or one of its named graphs, with the same questions for both.
* `Element` is what a name path leads to; `Element.namePath` is the way back.
* `Document.descendant?` follows a path of one or two names.
-/

namespace MaterialGraph

set_option autoImplicit false

/-- What tells graphs apart. The top level comes first, then the named graphs in the order of their names. -/
inductive GraphKey where
  | document
  | named (name : String)
deriving DecidableEq, Repr

/-- The top level of a document, or a named graph. -/
inductive Graph where
  | document (d : Document)
  | named (g : NodeGraph)
deriving DecidableEq, Repr

namespace Graph

def name : Graph → String
  | document d => d.name
  | named g => g.name

def key : Graph → GraphKey
  | document _ => .document
  | named g => .named g.name

def nodes : Graph → List Node
  | document d => d.nodes
  | named g => g.nodes

def outputs : Graph → List Output
  | document d => d.outputs
  | named g => g.outputs

def node? (g : Graph) (name : String) : Option Node :=
  g.nodes.find? fun n => n.name = name

def output? (g : Graph) (name : String) : Option Output :=
  g.outputs.find? fun o => o.name = name

/-- The type of the graph as a whole: that of its only output. -/
def type (g : Graph) : String :=
  match g.outputs with
  | [] => ""
  | [o] => o.type
  | _ => multiOutput

/-- What is put before file names here, if anything. -/
def filePrefix : Graph → Option String
  | document d => nonEmpty d.filePrefix
  | named g => nonEmpty g.filePrefix

end Graph

/-- What a name path can lead to. -/
inductive Element where
  | material (m : Material)
  | graph (g : NodeGraph)
  | output (parent : Graph) (o : Output)
  | node (parent : Graph) (n : Node)
deriving DecidableEq, Repr

namespace Element

def pathIn (parent : Graph) (name : String) : String :=
  match parent with
  | .document _ => name
  | .named g => g.name ++ "/" ++ name

/-- The names from the document down to the element, with slashes between them. -/
def namePath : Element → String
  | material m => m.name
  | graph g => g.name
  | output parent o => pathIn parent o.name
  | node parent n => pathIn parent n.name

/-- Which of the four an element is. -/
inductive Kind where
  | material
  | graph
  | output
  | node
deriving DecidableEq, Repr

def kind : Element → Kind
  | material _ => .material
  | graph _ => .graph
  | output _ _ => .output
  | node _ _ => .node

/-- What makes two elements count as one: what they are and where they stand. -/
def identity (e : Element) : Kind × String := (e.kind, e.namePath)

end Element

namespace Document

/-- The element of a name at the top level. Materials come before graphs, graphs before nodes, and nodes before
outputs. -/
def child? (d : Document) (name : String) : Option Element :=
  ((d.material? name).map .material).or <|
  ((d.nodeGraph? name).map .graph).or <|
  ((d.node? name).map (.node (.document d))).or <|
  (d.output? name).map (.output (.document d))

/-- The names of a path; empty names do not count. -/
def pathNames (path : String) : List String :=
  (Text.splitOn '/' path).filter fun name => !name.isEmpty

/-- The element at the end of a path: one name for the top level, two for a node or an output of a named graph. -/
def descendant? (d : Document) (path : String) : Option Element :=
  match pathNames path with
  | [name] => d.child? name
  | [graph, name] =>
    (d.nodeGraph? graph).bind fun g =>
      let parent := Graph.named g
      ((parent.node? name).map (.node parent)).or ((parent.output? name).map (.output parent))
  | _ => none

end Document

end MaterialGraph
