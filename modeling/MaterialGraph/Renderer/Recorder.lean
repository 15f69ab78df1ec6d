import Std.Data.TreeMap
import MaterialGraph.Renderer.Basic

/-!
# The recording renderer

A renderer that keeps its nodes in memory. It numbers its nodes from zero, holds what is bound to each, and counts how
often each handle was to be deleted, so that one can see afterwards whether every node was deleted once.
-/

namespace MaterialGraph

set_option autoImplicit false

/-- A node as it has been set up. -/
structure RecordedNode where
  type : NodeType
  name : Option String := none
  bound : InputKey → Option Bound := fun _ => none

namespace RecordedNode

def bind (n : RecordedNode) (key : InputKey) (value : Bound) : RecordedNode :=
  { n with bound := fun k => if k = key then some value else n.bound k }

/-- The bound inputs, by increasing number of their keys. -/
def inputs (n : RecordedNode) : List (InputKey × Bound) :=
  InputKey.all.filterMap fun key => (n.bound key).map fun value => (key, value)

end RecordedNode

/-- The state of a recording renderer: how many nodes have been created, which is the number of the next handle, the live
ones, how often each was to be deleted, and the types that cannot be created. -/
structure Recorder where
  created : Nat := 0
  live : Std.TreeMap Nat RecordedNode := ∅
  deletions : Std.TreeMap Nat Nat := ∅
  failing : List NodeType := []

namespace Recorder

def node? (r : Recorder) (h : Handle) : Option RecordedNode := r.live[h.id]?

def nodes (r : Recorder) : List (Handle × RecordedNode) :=
  r.live.toList.map fun (id, n) => (⟨id⟩, n)

def named (r : Recorder) (name : String) : List Handle :=
  (r.nodes.filter fun (_, n) => n.name = some name).map (·.1)

def deletionsOf (r : Recorder) (h : Handle) : Nat := r.deletions.getD h.id 0

/-- From now on no node of the type can be created. -/
def failCreationOf (r : Recorder) (type : NodeType) : Recorder :=
  { r with failing := type :: r.failing }

def creationFailure : CallError := .status (-18)

def create (type : NodeType) (r : Recorder) : Except CallError Handle × Recorder :=
  if r.failing.contains type then (.error creationFailure, r)
  else
    let live := r.live.insert r.created { type := type }
    (.ok ⟨r.created⟩, { r with created := r.created + 1, live })

def modify (h : Handle) (f : RecordedNode → RecordedNode) (r : Recorder) : Except CallError Unit × Recorder :=
  match r.node? h with
  | some n => (.ok (), { r with live := r.live.insert h.id (f n) })
  | none => (.error .invalid, r)

/-- Whether something can be bound: a node has to be live. -/
def accepts (r : Recorder) : Bound → Bool
  | .node producer => (r.node? producer).isSome
  | _ => true

/-- Obeys an action. Only live nodes can be acted on or bound. Every deletion is counted. -/
def act (a : Action) (r : Recorder) : Except CallError Unit × Recorder :=
  match a with
  | .bind node key value =>
    if r.accepts value then r.modify node (·.bind key value) else (.error .invalid, r)
  | .rename node name => r.modify node fun n => { n with name := some name }
  | .delete node =>
    let counted := { r with deletions := r.deletions.insert node.id (r.deletionsOf node + 1) }
    match r.node? node with
    | some _ => (.ok (), { counted with live := r.live.erase node.id })
    | none => (.error .invalid, counted)

def renderer : Renderer Recorder where
  hasNames := true
  create := create
  act := act

end Recorder

end MaterialGraph
