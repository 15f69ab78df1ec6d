import MaterialGraph.Build.Part
import MaterialGraph.OutputKind

/-!
# Assemblies

An assembly is what a load has built: its parts by number, and the parts that graphs share. It changes by edits only,
so a list of edits tells how it came about. Some edits change nothing: they mark where a task begins and where it ends.

* `Assembly.apply` makes one edit.
* `Assembly.outputHandle?` follows the output of a part down to a leaf.
* `Assembly.reachable` lists the parts below some parts.
-/

namespace MaterialGraph

set_option autoImplicit false

/-- How far the part of a free-standing graph is: its outputs are being built, or nothing is being built in it. -/
inductive Construction where
  | building (id : PartId)
  | built (id : PartId)
deriving DecidableEq, Repr

def Construction.id : Construction → PartId
  | building id => id
  | built id => id

/-- The parts of a load by number, and those that are shared: for the top level, for geometric properties, and for graphs
that are used outside any definition. -/
structure Assembly where
  parts : Array Part := #[]
  top : Option PartId := none
  geometry : NameMap PartId := ∅
  freeStanding : NameMap Construction := ∅

/-- Something that takes several edits: to give a child by its name, to connect an output to an input, to set an input as
a shader reference says, or to find the root of a kind. -/
inductive Task where
  | child (id : PartId) (name : String)
  | connection (producer : PartId) (output : Option String) (consumer : PartId) (i : Input)
  | override (id : PartId) (r : ShaderRef) (i : Input)
  | root (id : PartId) (kind : OutputKind)
deriving DecidableEq, Repr

/-- A change of an assembly, or a mark. -/
inductive Edit where
  | add (p : Part)
  | leaf (id : PartId) (l : Leaf)
  | child (id : PartId) (name : String) (child : PartId)
  | socket (id : PartId) (interface : String) (s : Socket)
  | edge (id : PartId) (e : Edge)
  | top (id : PartId)
  | geometry (name : String) (id : PartId)
  | freeStanding (name : String) (state : Construction)
  | began (t : Task)
  | ended (t : Task) (success : Bool)

namespace Assembly

def size (a : Assembly) : Nat := a.parts.size

def part? (a : Assembly) (id : PartId) : Option Part := a.parts[id]?

def leaf? (a : Assembly) (id : PartId) : Option Leaf :=
  match a.part? id with
  | some (.leaf l) => some l
  | _ => none

def composite? (a : Assembly) (id : PartId) : Option Composite :=
  match a.part? id with
  | some (.composite c) => some c
  | _ => none

def modifyComposite (a : Assembly) (id : PartId) (f : Composite → Composite) : Assembly :=
  { a with parts := a.parts.modify id fun
    | .composite c => .composite (f c)
    | p => p }

def apply (a : Assembly) : Edit → Assembly
  | .add p => { a with parts := a.parts.push p }
  | .leaf id l => { a with parts := a.parts.setIfInBounds id (.leaf l) }
  | .child id name child => a.modifyComposite id fun c => { c with children := c.children.insert name child }
  | .socket id interface s =>
    a.modifyComposite id fun c =>
      { c with sockets := c.sockets.insert interface ((c.sockets.getD interface []) ++ [s]) }
  | .edge id e => a.modifyComposite id fun c => c.note e
  | .top id => { a with top := some id }
  | .geometry name id => { a with geometry := a.geometry.insert name id }
  | .freeStanding name state => { a with freeStanding := a.freeStanding.insert name state }
  | .began _ | .ended _ _ => a

/-- The parts that graphs share, in a fixed order. -/
def shared (a : Assembly) : List PartId :=
  a.top.toList ++ a.geometry.values ++ a.freeStanding.values.map Construction.id

/-! ## Outputs -/

def leafHandle (l : Leaf) : Except LoadError Handle :=
  match l.hold.handle? with
  | some h => .ok h
  | none => .error (.malformed "node has no native handle")

/-- The child behind an output of a composite, and the output of that child. None stands for the first output. -/
def behind (c : Composite) (output : Option String) : Except LoadError (PartId × Option String) :=
  let found := match output with
    | some name => c.graph.output? name
    | none => c.graph.outputs.head?
  match found with
  | none => .error (.malformed (c.graph.name ++ " has no output " ++ output.getD ""))
  | some o =>
    match o.nodeName?.bind c.child? with
    | none => .error (.malformed ("output " ++ o.name ++ " of " ++ c.graph.name ++ " is not built"))
    | some child => .ok (child, o.output?)

/-- The renderer node behind an output of a part; none if the fuel does not last. -/
def outputHandle? (a : Assembly) : Nat → PartId → Option String → Option (Except LoadError Handle)
  | 0, _, _ => none
  | fuel + 1, id, output =>
    match a.part? id with
    | none => some (.error (.malformed "dangling node id"))
    | some (.leaf l) => some (leafHandle l)
    | some (.composite c) =>
      match behind c output with
      | .error e => some (.error e)
      | .ok (child, output) => a.outputHandle? fuel child output

/-! ## Reachable parts -/

/-- The children of a part, by the order of their names. -/
def children (a : Assembly) (id : PartId) : List PartId :=
  match a.composite? id with
  | some c => c.children.values
  | none => []

/-- The number of steps that a walk over the whole assembly takes at most: one for each start and each child. -/
def walkLength (a : Assembly) (starts : List PartId) : Nat :=
  a.parts.foldl (fun n p => match p with
    | .composite c => n + c.children.size
    | .leaf _ => n) starts.length

/-- Walks down from the parts on a stack, past those seen, and lists what it sees in the order of the walk. -/
def walk (a : Assembly) : Nat → List PartId → List PartId → List PartId
  | _, _, [] => []
  | 0, _, _ => []
  | fuel + 1, seen, id :: stack =>
    if seen.contains id then a.walk fuel seen stack
    else id :: a.walk fuel (id :: seen) (a.children id ++ stack)

/-- The parts at and below some parts, each once, a part before its children. -/
def reachable (a : Assembly) (starts : List PartId) : List PartId :=
  a.walk (a.walkLength starts) [] starts

end Assembly

end MaterialGraph
