import MaterialGraph.Build.Assembly

/-!
# Events

What happens during a load, one event after the other: edits of the assembly, calls to the renderer with its replies,
remarks on the progress, and warnings about what cannot be built.

* `Remark.text` and `Warning.text` are the wording.
* `Event.isShown` says which events a caller gets to see.
-/

namespace MaterialGraph

set_option autoImplicit false

/-- A note on the progress of a load. -/
inductive Remark where
  | graph (name : String)
  | output (name node : String)
  | node (name category : String)
  | input (kind : InputKind) (name : String)
  | reference (node : String)
  | connected (producer consumer : String)
  | refused (producer consumer input : String) (error : LoadError)
  | literal (value : String)
  | socket (child input : String)
  | geomPropRefused (property input : String) (error : LoadError)
  | literalRefused (node input value : String) (error : LoadError)
  | skipped (error : LoadError)
  | boundToGraph (input graph output : String)
  | boundToOutput (input output : String)
  | boundToLiteral (input value type : String)
deriving DecidableEq, Repr

def Remark.text : Remark → String
  | graph g => "NodeGraph: " ++ g
  | output o n => "Output: " ++ o ++ " -> " ++ n
  | node n category => "Node: " ++ n ++ " (" ++ category ++ ")"
  | input .input i => "Input: " ++ i
  | input .parameter i => "Param: " ++ i
  | reference n => "nodename: " ++ n
  | connected producer consumer => "Connected " ++ producer ++ " -> " ++ consumer
  | refused producer consumer i e => producer ++ " -> " ++ consumer ++ "." ++ i ++ ": " ++ e.message
  | literal value => value
  | socket child i => " " ++ child ++ ":" ++ i
  | geomPropRefused property i e => "failed to bind " ++ property ++ " to " ++ i ++ ": " ++ e.message
  | literalRefused n i value e => "failed to set " ++ n ++ "." ++ i ++ " = " ++ value ++ ": " ++ e.message
  | skipped e => e.message
  | boundToGraph i g o => "Bindinput " ++ i ++ ": " ++ g ++ ":" ++ o ++ " (nodegraph)"
  | boundToOutput i o => "Bindinput " ++ i ++ ": " ++ o ++ " (output)"
  | boundToLiteral i value type => "Bindinput " ++ i ++ ": " ++ value ++ " (" ++ type ++ ")"

/-- A complaint about a part of a document. -/
inductive Warning where
  | nothingToRender (document : String)
  | nothingResolved (document : String)
  | outputNode (node output graph : String)
  | noNode (node graph : String)
  | node (name category : String) (error : LoadError)
  | noDefinition (node category : String)
  | noProducer (node graph : String)
  | connection (producer consumer input : String) (error : LoadError)
  | noGeomProp (property : String)
  | geomProp (property : String) (error : LoadError)
  | texcoordType (type : String)
  | geomPropBinding (property input : String) (error : LoadError)
  | literal (node input value : String) (error : LoadError)
  | noGraph (graph : String)
  | noGraphOutput (graph output : String)
  | binding (input : String) (error : LoadError)
  | bindInput (input shader : String) (error : LoadError)
  | unresolved (output graph : String)
  | noHandle (output graph : String)
  | wrap (output : String) (error : LoadError)
  | failed (error : LoadError)
deriving DecidableEq, Repr

def Warning.cause? : Warning → Option LoadError
  | node _ _ e | connection _ _ _ e | geomProp _ e | geomPropBinding _ _ e | literal _ _ _ e | binding _ e
  | bindInput _ _ e | wrap _ e | failed e => some e
  | _ => none

def Warning.text : Warning → String
  | nothingToRender d => "no renderable elements in " ++ d
  | nothingResolved d => "no output of " ++ d ++ " could be resolved"
  | outputNode n o g => "failed to create node " ++ n ++ " for output " ++ o ++ " in " ++ g
  | noNode n g => "no node named " ++ n ++ " in " ++ g
  | node n category e => "failed to create " ++ n ++ " (" ++ category ++ "): " ++ e.message
  | noDefinition n category => "no definition for " ++ n ++ " (" ++ category ++ ")"
  | noProducer n g => "node " ++ n ++ " cannot be found in " ++ g
  | connection producer consumer i e =>
    "failed to connect " ++ producer ++ " to " ++ consumer ++ "." ++ i ++ ": " ++ e.message
  | noGeomProp property => "unknown defaultgeomprop " ++ property
  | geomProp property e => "geomprop " ++ property ++ ": " ++ e.message
  | texcoordType type => "unexpected type for texcoord geomprop: " ++ type
  | geomPropBinding property i e => "failed to bind " ++ property ++ " to " ++ i ++ ": " ++ e.message
  | literal n i value e => "failed to set " ++ n ++ "." ++ i ++ " = " ++ value ++ ": " ++ e.message
  | noGraph g => "node graph " ++ g ++ " cannot be found"
  | noGraphOutput g o => "node graph " ++ g ++ " has no output " ++ o
  | binding i e => "failed to bind " ++ i ++ ": " ++ e.message
  | bindInput i shader e => "bindinput " ++ i ++ " of " ++ shader ++ ": " ++ e.message
  | unresolved o g => "output " ++ o ++ " of " ++ g ++ " did not resolve"
  | noHandle o g => "output " ++ o ++ " of " ++ g ++ " has no native node"
  | wrap o e => "failed to wrap " ++ o ++ ": " ++ e.message
  | failed e => e.message

/-- Where the line of a remark begins. -/
inductive Margin where
  | muted
  | at (column : Option Nat)
deriving DecidableEq, Repr

/-- Something that happens during a load. -/
inductive Event where
  | edited (e : Edit)
  | created (type : NodeType) (reply : Except CallError Handle)
  | acted (a : Action) (reply : Except CallError Unit)
  | remarked (margin : Margin) (r : Remark)
  | warned (w : Warning)
  | finished (parts nodes images : Nat)
  | undeleted (h : Handle) (error : CallError)

namespace Event

/-- Whether a caller gets to see an event: edits are internal, and muted remarks are not for anyone. -/
def isShown : Event → Bool
  | edited _ => false
  | remarked .muted _ => false
  | _ => true

/-- A remark behind its margin. Behind a column comes a dash. -/
def remarkLine : Margin → Remark → String
  | .muted, _ => ""
  | .at none, r => r.text
  | .at (some column), r => String.ofList (List.replicate column ' ') ++ "- " ++ r.text

def warningLine (w : Warning) : String := "loader error: " ++ w.text

end Event

end MaterialGraph
