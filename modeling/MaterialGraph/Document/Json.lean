import MaterialGraph.Document.Basic
import MaterialGraph.Json.Record

/-!
# Documents in JSON

Every part of a document is a record whose fields have the names of the format's attributes.

* `decode` reads a part; fields with a default may be missing.
* `encode` writes a part with all its fields, except texts that are not there and an empty target.
* `Document.parse` reads a text; a text that is not JSON has no fault of its own wording.
-/

namespace MaterialGraph

open Json (Decoder ReadError required defaulted sparse record text flag list variant)

set_option autoImplicit false

def Json.sparseText (name : String) : Option String → List (String × Json)
  | none => []
  | some s => [(name, .ofText s)]

def Json.ofList {α : Type} (encode : α → Json) (xs : List α) : Json :=
  .array (xs.map encode)

def InputKind.words : List (String × InputKind) := [("input", .input), ("parameter", .parameter)]

def InputKind.decode : Decoder InputKind := variant words

def InputKind.encode : InputKind → Json
  | .input => .ofText "input"
  | .parameter => .ofText "parameter"

def Input.decode : Decoder Input :=
  record "ValueElement" <| Input.mk <$> required "name" text <*> defaulted "kind" .input InputKind.decode <*>
    required "type" text <*> sparse "value" text <*> sparse "nodename" text <*> sparse "output" text <*>
    sparse "nodegraph" text <*> sparse "interfacename" text <*> sparse "defaultgeomprop" text <*>
    sparse "fileprefix" text

def Input.encode (i : Input) : Json :=
  .ofMembers <| [("name", .ofText i.name), ("kind", i.kind.encode), ("type", .ofText i.type)] ++
    Json.sparseText "value" i.value ++ Json.sparseText "nodename" i.nodeName ++ Json.sparseText "output" i.output ++
    Json.sparseText "nodegraph" i.nodeGraph ++ Json.sparseText "interfacename" i.interfaceName ++
    Json.sparseText "defaultgeomprop" i.defaultGeomProp ++ Json.sparseText "fileprefix" i.filePrefix

def Output.decode : Decoder Output :=
  record "SourceOutput" <| Output.mk <$> required "name" text <*> required "type" text <*> sparse "nodename" text <*>
    sparse "output" text <*> defaulted "fromlibrary" false flag

def Output.encode (o : Output) : Json :=
  .ofMembers <| [("name", .ofText o.name), ("type", .ofText o.type)] ++ Json.sparseText "nodename" o.nodeName ++
    Json.sparseText "output" o.output ++ [("fromlibrary", .bool o.fromLibrary)]

def Node.decode : Decoder Node :=
  record "SourceNode" <| Node.mk <$> required "name" text <*> required "category" text <*> required "type" text <*>
    sparse "nodedef" text <*> sparse "fileprefix" text <*> defaulted "fromlibrary" false flag <*>
    defaulted "inputs" [] (list Input.decode)

def Node.encode (n : Node) : Json :=
  .ofMembers <| [("name", .ofText n.name), ("category", .ofText n.category), ("type", .ofText n.type)] ++
    Json.sparseText "nodedef" n.nodeDef ++ Json.sparseText "fileprefix" n.filePrefix ++
    [("fromlibrary", .bool n.fromLibrary), ("inputs", .ofList Input.encode n.inputs)]

def NodeDef.decode : Decoder NodeDef :=
  record "NodeDef" <| NodeDef.mk <$> required "name" text <*> required "node" text <*> required "type" text <*>
    defaulted "target" "" text <*> defaulted "inputs" [] (list Input.decode) <*>
    defaulted "outputs" [] (list Output.decode) <*> sparse "nodegraph" text

def NodeDef.encode (d : NodeDef) : Json :=
  .ofMembers <| [("name", .ofText d.name), ("node", .ofText d.node), ("type", .ofText d.type)] ++
    (if d.target.isEmpty then [] else [("target", .ofText d.target)]) ++
    [("inputs", .ofList Input.encode d.inputs), ("outputs", .ofList Output.encode d.outputs)] ++
    Json.sparseText "nodegraph" d.nodeGraph

def NodeGraph.decode : Decoder NodeGraph :=
  record "NodeGraph" <| NodeGraph.mk <$> required "name" text <*> sparse "nodedef" text <*>
    sparse "fileprefix" text <*> defaulted "fromlibrary" false flag <*> defaulted "nodes" [] (list Node.decode) <*>
    defaulted "outputs" [] (list Output.decode)

def NodeGraph.encode (g : NodeGraph) : Json :=
  .ofMembers <| [("name", .ofText g.name)] ++ Json.sparseText "nodedef" g.nodeDef ++
    Json.sparseText "fileprefix" g.filePrefix ++ [("fromlibrary", .bool g.fromLibrary),
      ("nodes", .ofList Node.encode g.nodes), ("outputs", .ofList Output.encode g.outputs)]

def ShaderRef.decode : Decoder ShaderRef :=
  record "ShaderRef" <| ShaderRef.mk <$> required "name" text <*> defaulted "node" "" text <*>
    sparse "nodedef" text <*> defaulted "bindinputs" [] (list Input.decode)

def ShaderRef.encode (r : ShaderRef) : Json :=
  .ofMembers <| [("name", .ofText r.name), ("node", .ofText r.node)] ++ Json.sparseText "nodedef" r.nodeDef ++
    [("bindinputs", .ofList Input.encode r.bindInputs)]

def Material.decode : Decoder Material :=
  record "Material" <| Material.mk <$> required "name" text <*>
    defaulted "shaderrefs" [] (list ShaderRef.decode)

def Material.encode (m : Material) : Json :=
  .ofMembers [("name", .ofText m.name), ("shaderrefs", .ofList ShaderRef.encode m.shaderRefs)]

def MaterialAssign.decode : Decoder MaterialAssign :=
  record "MaterialAssign" <| MaterialAssign.mk <$> required "name" text <*> required "material" text

def MaterialAssign.encode (a : MaterialAssign) : Json :=
  .ofMembers [("name", .ofText a.name), ("material", .ofText a.material)]

def Look.decode : Decoder Look :=
  record "Look" <| Look.mk <$> required "name" text <*>
    defaulted "materialassigns" [] (list MaterialAssign.decode)

def Look.encode (l : Look) : Json :=
  .ofMembers [("name", .ofText l.name), ("materialassigns", .ofList MaterialAssign.encode l.materialAssigns)]

def GeomPropDef.decode : Decoder GeomPropDef :=
  record "GeomPropDef" <| GeomPropDef.mk <$> required "name" text <*> defaulted "geomprop" "" text <*>
    defaulted "type" "" text <*> sparse "index" text <*> sparse "space" text

def GeomPropDef.encode (g : GeomPropDef) : Json :=
  .ofMembers <| [("name", .ofText g.name), ("geomprop", .ofText g.geomProp), ("type", .ofText g.type)] ++
    Json.sparseText "index" g.index ++ Json.sparseText "space" g.space

def TypeDef.decode : Decoder TypeDef :=
  record "TypeDef" <| TypeDef.mk <$> required "name" text <*> sparse "semantic" text

def TypeDef.encode (t : TypeDef) : Json :=
  .ofMembers <| [("name", .ofText t.name)] ++ Json.sparseText "semantic" t.semantic

namespace Document

def decode : Decoder Document :=
  record "Document" <| Document.mk <$> defaulted "name" "" text <*> defaulted "version" "" text <*>
    sparse "fileprefix" text <*> defaulted "nodedefs" [] (list NodeDef.decode) <*>
    defaulted "nodegraphs" [] (list NodeGraph.decode) <*> defaulted "nodes" [] (list Node.decode) <*>
    defaulted "outputs" [] (list Output.decode) <*> defaulted "materials" [] (list Material.decode) <*>
    defaulted "looks" [] (list Look.decode) <*> defaulted "geompropdefs" [] (list GeomPropDef.decode) <*>
    defaulted "typedefs" [] (list TypeDef.decode)

def encode (d : Document) : Json :=
  .ofMembers <| [("name", .ofText d.name), ("version", .ofText d.version)] ++
    Json.sparseText "fileprefix" d.filePrefix ++ [
      ("nodedefs", .ofList NodeDef.encode d.nodeDefs), ("nodegraphs", .ofList NodeGraph.encode d.nodeGraphs),
      ("nodes", .ofList Node.encode d.nodes), ("outputs", .ofList Output.encode d.outputs),
      ("materials", .ofList Material.encode d.materials), ("looks", .ofList Look.encode d.looks),
      ("geompropdefs", .ofList GeomPropDef.encode d.geomPropDefs),
      ("typedefs", .ofList TypeDef.encode d.typeDefs)]

/-- Reads a document from a tree. A fault has its wording only if the whole tree is sound. -/
def read (j : Json) : Except ReadError Document :=
  (decode j).mapError fun e => if j.isSound then e else .malformed

def parse (s : String) : Except ReadError Document :=
  match Json.parse? s with
  | some j => read j
  | none => .error .malformed

def render (d : Document) : String := d.encode.render

end Document

end MaterialGraph
