import MaterialGraph.Build.Event
import MaterialGraph.OutputKind

/-!
# Results of a load

What a load hands over: the renderer nodes that the caller then owns, the images that the caller has to load, and the
root of each kind.

* `LoadResult.ofAssembly` collects it from an assembly.
* `LoadResult.release` deletes the nodes.
-/

namespace MaterialGraph

set_option autoImplicit false

/-- An image that the caller has to load for a node. -/
structure ImageNode where
  params : ImageParams
  node : Handle
deriving DecidableEq, Repr

/-- What is handed over: the nodes, the place of each root among them, and the images to load. -/
structure LoadResult where
  nodes : List Handle := []
  rootIndices : PerKind (Option Nat) := .both none
  images : List ImageNode := []
deriving DecidableEq, Repr

namespace LoadResult

def root? (r : LoadResult) (k : OutputKind) : Option Handle :=
  (r.rootIndices.get k).bind fun i => r.nodes[i]?

def isEmpty (r : LoadResult) : Bool :=
  r.nodes.isEmpty && r.rootIndices.surface.isNone && r.rootIndices.displacement.isNone

def ownedNode? (a : Assembly) (id : PartId) : Option Handle :=
  (a.leaf? id).bind fun l => l.hold.owned?

/-- The image of a leaf that has a node and a file. -/
def imageNode? (a : Assembly) (id : PartId) : Option ImageNode :=
  match a.leaf? id with
  | some ⟨hold, .image params⟩ =>
    if params.file.isEmpty then none else hold.handle?.map fun h => ⟨params, h⟩
  | _ => none

def rootHandle? (a : Assembly) (root : Option PartId) : Option Handle :=
  (root.bind a.leaf?).bind fun l => l.hold.handle?

/-- What the parts below some parts, and below the parts that graphs share, have to hand over. -/
def ofAssembly (a : Assembly) (parts : List PartId) (roots : PerKind (Option PartId)) : LoadResult :=
  let reached := a.reachable (parts ++ a.shared)
  let nodes := reached.filterMap (ownedNode? a)
  { nodes
    rootIndices := roots.map fun root => (rootHandle? a root).bind fun h => nodes.findIdx? (· = h)
    images := reached.filterMap (imageNode? a) }

/-- The parts that are left behind: those whose node is not handed over. -/
def left (a : Assembly) (parts : List PartId) : List PartId :=
  let reached := a.reachable (parts ++ a.shared)
  (List.range a.size).filter fun id => !reached.contains id

variable {σ : Type}

def deleteAll (r : Renderer σ) : List Handle → σ → Except CallError Unit × σ × List Event
  | [], s => (.ok (), s, [])
  | h :: hs, s =>
    let (reply, s) := r.act (.delete h) s
    let (rest, s, events) := deleteAll r hs s
    match reply with
    | .ok () => (rest, s, .acted (.delete h) (.ok ()) :: events)
    | .error e => (.error e, s, .acted (.delete h) (.error e) :: .undeleted h e :: events)

/-- Deletes all nodes of a result, and returns the first failure. -/
def release (result : LoadResult) (r : Renderer σ) (s : σ) : Except CallError Unit × σ × List Event :=
  deleteAll r result.nodes s

end LoadResult

end MaterialGraph
