/-!
# Documents

A document declares nodes, graphs of nodes, and the definitions that nodes instantiate. Names refer to other parts of
the document or of a library; nothing here checks that they do.
-/

namespace MaterialGraph

set_option autoImplicit false

def multiOutput : String := "multioutput"

def shaderSemantic : String := "shader"

def nonEmpty (s : Option String) : Option String :=
  s.filter fun s => !s.isEmpty

/-- Whether an input can be connected. -/
inductive InputKind where
  | input
  | parameter
deriving DecidableEq, Repr

/-- An input of a definition or of a node, or an input bound by a shader reference. -/
structure Input where
  name : String
  kind : InputKind := .input
  type : String
  value : Option String := none
  nodeName : Option String := none
  output : Option String := none
  nodeGraph : Option String := none
  interfaceName : Option String := none
  defaultGeomProp : Option String := none
  filePrefix : Option String := none
deriving DecidableEq, Repr

namespace Input

def value? (i : Input) : Option String := nonEmpty i.value

def nodeName? (i : Input) : Option String := nonEmpty i.nodeName

def output? (i : Input) : Option String := nonEmpty i.output

/-- The interface input, if its name is not empty. -/
def interfaceName? (i : Input) : Option String := nonEmpty i.interfaceName

def isInput (i : Input) : Bool := i.kind = .input

end Input

/-- An output of a document, graph or definition. -/
structure Output where
  name : String
  type : String
  nodeName : Option String := none
  output : Option String := none
  fromLibrary : Bool := false
deriving DecidableEq, Repr

/-- An instance of a definition. -/
structure Node where
  name : String
  category : String
  type : String
  nodeDef : Option String := none
  filePrefix : Option String := none
  fromLibrary : Bool := false
  inputs : List Input := []
deriving DecidableEq, Repr

def Node.input? (n : Node) (name : String) : Option Input :=
  n.inputs.find? fun i => i.name = name

namespace Output

def nodeName? (o : Output) : Option String := nonEmpty o.nodeName

/-- The output of the producing node, if its name is not empty. -/
def output? (o : Output) : Option String := nonEmpty o.output

/-- The output that a node is when it is rendered on its own. -/
def ofNode (n : Node) : Output where
  name := "out"
  type := n.type
  nodeName := some n.name

end Output

/-- A definition of nodes. -/
structure NodeDef where
  name : String
  node : String
  type : String
  target : String := ""
  inputs : List Input := []
  outputs : List Output := []
  nodeGraph : Option String := none
deriving DecidableEq, Repr

/-- The input of a name that a definition declares. -/
def NodeDef.input? (d : NodeDef) (name : String) : Option Input :=
  d.inputs.find? fun i => i.name = name

/-- A graph of nodes with a name. -/
structure NodeGraph where
  name : String
  nodeDef : Option String := none
  filePrefix : Option String := none
  fromLibrary : Bool := false
  nodes : List Node := []
  outputs : List Output := []
deriving DecidableEq, Repr

/-- A material's reference to the definition of a shader. -/
structure ShaderRef where
  name : String
  node : String := ""
  nodeDef : Option String := none
  bindInputs : List Input := []
deriving DecidableEq, Repr

/-- A material made of shader references. -/
structure Material where
  name : String
  shaderRefs : List ShaderRef := []
deriving DecidableEq, Repr

/-- The assignment of a material in a look. -/
structure MaterialAssign where
  name : String
  material : String
deriving DecidableEq, Repr

/-- A look. -/
structure Look where
  name : String
  materialAssigns : List MaterialAssign := []
deriving DecidableEq, Repr

/-- A definition of a geometric property. -/
structure GeomPropDef where
  name : String
  geomProp : String := ""
  type : String := ""
  index : Option String := none
  space : Option String := none
deriving DecidableEq, Repr

/-- A definition of a type. -/
structure TypeDef where
  name : String
  semantic : Option String := none
deriving DecidableEq, Repr

/-- A document. -/
structure Document where
  name : String := ""
  version : String := ""
  filePrefix : Option String := none
  nodeDefs : List NodeDef := []
  nodeGraphs : List NodeGraph := []
  nodes : List Node := []
  outputs : List Output := []
  materials : List Material := []
  looks : List Look := []
  geomPropDefs : List GeomPropDef := []
  typeDefs : List TypeDef := []
deriving DecidableEq, Repr

namespace Document

def nodeGraph? (d : Document) (name : String) : Option NodeGraph :=
  d.nodeGraphs.find? fun g => g.name = name

def node? (d : Document) (name : String) : Option Node :=
  d.nodes.find? fun n => n.name = name

def output? (d : Document) (name : String) : Option Output :=
  d.outputs.find? fun o => o.name = name

def material? (d : Document) (name : String) : Option Material :=
  d.materials.find? fun m => m.name = name

/-- The definition of a name of a geometric property. -/
def geomPropDef? (d : Document) (name : String) : Option GeomPropDef :=
  d.geomPropDefs.find? fun g => g.name = name

def typeDef? (d : Document) (name : String) : Option TypeDef :=
  d.typeDefs.find? fun t => t.name = name

end Document

end MaterialGraph
