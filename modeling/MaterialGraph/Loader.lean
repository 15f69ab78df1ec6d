import MaterialGraph.Build.Group
import MaterialGraph.LoadResult

/-!
# Loading documents

A loader holds the library that documents stand on and the directories that are always searched. `Loader.load` selects
what to render, builds it group by group, and hands it over. Nothing that is wrong with a document stops it: what
cannot be built is reported and left out. If no root can be built, all nodes are deleted again and the result is empty.
-/

namespace MaterialGraph

set_option autoImplicit false

/-- The choices for one load: the directories that are searched first, and the path of the element to render for each kind.
An empty path switches the kind off. -/
structure LoadOptions where
  searchPath : SearchPath := {}
  targets : Option (PerKind String) := none
deriving DecidableEq, Repr

namespace Build

variable {σ : Type}

def releaseParts (ids : List PartId) : Build σ Unit :=
  ids.forM fun id => do
    match (← assembly).leaf? id with
    | some l => release id l
    | none => return ()

/-- Hands over what has been built and deletes the rest. -/
def handOver (harvest : Harvest) : Build σ LoadResult := do
  let a ← assembly
  let result := LoadResult.ofAssembly a harvest.parts harvest.roots
  releaseParts (LoadResult.left a harvest.parts)
  emit (.finished a.size result.nodes.length result.images.length)
  return result

def loadSelection (s : Selection) : Build σ LoadResult := do
  let harvest ← (Group.ofSelected s.selected).foldlM buildGroup {}
  if harvest.roots.toList.all Option.isNone then
    warn (.nothingResolved (← catalog).document.name)
    releaseParts (List.range (← assembly).size)
    return {}
  else handOver harvest

def loadDocument (targets : Option (PerKind String)) : Build σ LoadResult := do
  let c ← catalog
  let s := Selection.choose c targets
  within .global c.document.filePrefix do
    if s.selected.isEmpty then
      warn (.nothingToRender c.document.name)
      return {}
    else loadSelection s

end Build

/-- What documents are loaded with. Its directories are searched last. -/
structure Loader where
  logging : Bool := false
  library : Option Document := none
  searchPath : SearchPath := {}
deriving DecidableEq, Repr

/-- The end of a load. The journal lists the events in order. -/
structure Outcome (σ : Type) where
  result : LoadResult
  system : σ
  journal : List Event

namespace Loader

variable {σ : Type}

/-- A loader that searches the directories of a list with colons between them. -/
def ofSearchList (list : Option String) : Loader := { searchPath := .ofList? list }

def withLogging (l : Loader) (on : Bool) : Loader := { l with logging := on }

/-- A loader with another library and more directories. -/
def withLibrary (l : Loader) (library : Document) (dirs : SearchPath) : Loader :=
  { l with library := some library, searchPath := l.searchPath ++ dirs }

def catalog (l : Loader) (d : Document) : Catalog := ⟨d, l.library⟩

/-- The paths of what can be rendered of a document. -/
def renderables (l : Loader) (d : Document) : PerKind (List String) := (l.catalog d).renderables

def env (l : Loader) (d : Document) (options : LoadOptions) (fileExists : String → Bool) (r : Renderer σ) :
    Env σ where
  renderer := r
  catalog := l.catalog d
  searchPath := options.searchPath ++ l.searchPath
  fileExists := fileExists
  logging := l.logging

/-- Loads a document; none if the fuel of the build does not last, which takes a document in which building a node
leads back to building the same node. -/
def load (l : Loader) (d : Document) (options : LoadOptions) (fileExists : String → Bool) (r : Renderer σ)
    (system : σ) : Option (Outcome σ) :=
  (Build.loadDocument options.targets (l.env d options fileExists r) { system := system }).toOption.map
    fun (result, c) => ⟨result, c.system, c.journal.reverse⟩

/-- What happens in a load, in order, also if the fuel of the build does not last. -/
def trace (l : Loader) (d : Document) (options : LoadOptions) (fileExists : String → Bool) (r : Renderer σ)
    (system : σ) : List Event :=
  match Build.loadDocument options.targets (l.env d options fileExists r) { system := system } with
  | .ok (_, c) => c.journal.reverse
  | .error c => c.journal.reverse

/-- The events of a load that its caller gets to see. Which remarks are among them is settled when they are made. -/
def shown (_ : Loader) (o : Outcome σ) : List Event := o.journal.filter Event.isShown

end Loader

end MaterialGraph
