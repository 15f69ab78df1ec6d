import Std.Data.TreeMap
import MaterialGraph.Document.Element
import MaterialGraph.Literal
import MaterialGraph.Mapping

/-!
# Parts

A load builds parts. A leaf holds at most one renderer node, which it may own; a composite stands for a graph and has
parts by the names of the graph's nodes. Parts know each other by number.

* `Composite.socketsFor?` are the places that an override of an interface input reaches.
* `Composite.dependsOn` says whether one child needs another, directly or through others.
-/

namespace MaterialGraph

set_option autoImplicit false

abbrev NameMap (α : Type) := Std.TreeMap String α

abbrev PartId := Nat

/-- What an image node is told, to be handed over to whoever loads the image. -/
structure ImageParams where
  file : String := ""
  layer : String := ""
  default : Option Literal := none
  uMode : String := ""
  vMode : String := ""
deriving DecidableEq, Repr

/-- What a leaf does with its inputs. An image keeps them for whoever loads it, the texture coordinates excepted; a surface
and a displacement stand for the node bound to them, or for a constant of the name given. A value is wrapped to stand
for a surface. -/
inductive Role where
  | plain
  | mapped (m : Mapping)
  | image (params : ImageParams)
  | wrap
  | surface
  | displacement (name : String)
deriving DecidableEq, Repr

/-- What a leaf has of the renderer: no node, one that it has to hand over or to delete, or one that something else owns. -/
inductive Hold where
  | nothing
  | owned (h : Handle)
  | borrowed (h : Handle)
deriving DecidableEq, Repr

def Hold.handle? : Hold → Option Handle
  | nothing => none
  | owned h => some h
  | borrowed h => some h

def Hold.owned? : Hold → Option Handle
  | owned h => some h
  | _ => none

/-- A part around at most one renderer node. -/
structure Leaf where
  hold : Hold
  role : Role
deriving DecidableEq, Repr

/-- An input of a child that an interface input sets. -/
structure Socket where
  child : String
  input : Input
deriving DecidableEq, Repr

/-- A connection between children. -/
structure Edge where
  producer : String
  consumer : String
deriving DecidableEq, Repr

/-- A part for a graph. -/
structure Composite where
  graph : Graph
  children : NameMap PartId := ∅
  sockets : NameMap (List Socket) := ∅
  producers : NameMap (List String) := ∅

/-- A part. -/
inductive Part where
  | leaf (l : Leaf)
  | composite (c : Composite)

/-- What is bound to an input of a part. -/
inductive Binding where
  | node (h : Handle)
  | literal (value type : String)
deriving DecidableEq, Repr

/-! ## Dependencies -/

/-- All names to which the names on a stack lead, past those seen. Each step takes a name from the stack, and each name
puts its producers there once. -/
def dependencies (producersOf : String → List String) : Nat → NameMap Unit → List String → NameMap Unit
  | _, seen, [] => seen
  | 0, seen, _ :: _ => seen
  | fuel + 1, seen, name :: stack =>
    if seen.contains name then dependencies producersOf fuel seen stack
    else dependencies producersOf fuel (seen.insert name ()) (producersOf name ++ stack)

namespace Composite

/-- The children from which a child takes a value. -/
def producersOf (c : Composite) (consumer : String) : List String := c.producers.getD consumer []

def note (c : Composite) (e : Edge) : Composite :=
  { c with producers := c.producers.insert e.consumer ((c.producersOf e.consumer).insert e.producer) }

/-- The number of steps that a search along all connections takes at most: one for each connection, and the first. -/
def searchLength (c : Composite) : Nat := c.producers.foldl (fun n _ producers => n + producers.length) 1

/-- Whether `consumer` is `producer` or depends on it, directly or through others. -/
def dependsOn (c : Composite) (consumer producer : String) : Bool :=
  (dependencies c.producersOf c.searchLength ∅ [consumer]).contains producer

/-- The sockets of an input: those of its interface name, or else those of its own name. -/
def socketsFor? (c : Composite) (i : Input) : Option (List Socket) :=
  (i.interfaceName?.bind fun name => c.sockets[name]?).or c.sockets[i.name]?

def child? (c : Composite) (name : String) : Option PartId := c.children[name]?

end Composite

end MaterialGraph
