import MaterialGraph.Build.Event
import MaterialGraph.Catalog
import MaterialGraph.SearchPath

/-!
# Builds

A build works on an assembly with a renderer and keeps a journal of what happens. It reads an environment: the
documents, the files, and the place that it has reached. It ends without a value only if its fuel does not last; what
it has done by then is kept.

* `Build` is the monad. What can go wrong in a document is a `Result` and leaves the state as it is.
* `edit`, `create` and `act` are its only ways to change anything; each leaves an event.
* `within` enters a nested place: there the column of remarks and the file prefix may be others.
-/

namespace MaterialGraph

set_option autoImplicit false

/-- The innermost thing that is being built. -/
inductive Level where
  | global
  | graph
  | node
  | input
deriving DecidableEq, Repr

/-- Where a build has got to: the innermost thing, the number of graphs around it since the top level was last entered, and
what is put before file names. -/
structure Place where
  level : Level := .global
  graphs : Nat := 0
  filePrefix : String := ""
deriving DecidableEq, Repr

namespace Place

/-- The place of something inside. A prefix that is not empty takes the place of the one outside. -/
def enter (p : Place) (level : Level) (filePrefix : Option String) : Place where
  level := level
  graphs := match level with
    | .global => 0
    | .graph => p.graphs + 1
    | _ => p.graphs
  filePrefix := (nonEmpty filePrefix).getD p.filePrefix

/-- The column of remarks: three for each graph around the innermost one, one more in a node, two more in an
input. -/
def column (p : Place) : Option Nat :=
  let around := 3 * (p.graphs - 1)
  match p.level with
  | .global => none
  | .graph => some around
  | .node => some (around + 1)
  | .input => some (around + 2)

end Place

/-- What a build reads: the renderer, the documents, the files, whether remarks are wanted, and the place reached. -/
structure Env (σ : Type) where
  renderer : Renderer σ
  catalog : Catalog
  searchPath : SearchPath := {}
  fileExists : String → Bool := fun _ => false
  logging : Bool := false
  place : Place := {}

def Env.margin {σ : Type} (E : Env σ) : Margin := if E.logging then .at E.place.column else .muted

/-- What a build changes. The journal lists the latest event first. -/
structure Context (σ : Type) where
  system : σ
  assembly : Assembly := {}
  journal : List Event := []

/-- A build with a result of type `α`. If it breaks off, the context that it has reached takes the place of the result. -/
abbrev Build (σ α : Type) := ReaderT (Env σ) (StateT (Context σ) (Except (Context σ))) α

/-- A value, or the error for which there is none. -/
abbrev Result (α : Type) := Except LoadError α

namespace Build

variable {σ α β : Type}

def outOfFuel : Build σ α := fun _ c => .error c

/-- A result that may be missing for lack of fuel. -/
def ofOption : Option α → Build σ α
  | some a => return a
  | none => outOfFuel

/-- Goes on with a value, unless there is an error. -/
def andThen (m : Build σ (Result α)) (f : α → Build σ (Result β)) : Build σ (Result β) := do
  match ← m with
  | .ok a => f a
  | .error e => return .error e

def emit (e : Event) : Build σ Unit :=
  modify fun c => { c with journal := e :: c.journal }

def assembly : Build σ Assembly := return (← get).assembly

def catalog : Build σ Catalog := return (← read).catalog

def edit (e : Edit) : Build σ Unit :=
  modify fun c => { c with assembly := c.assembly.apply e, journal := .edited e :: c.journal }

/-- Does something as a task, and marks where it begins and ends. -/
def asTask (t : Task) (succeeds : α → Bool) (m : Build σ α) : Build σ α := do
  edit (.began t)
  let a ← m
  edit (.ended t (succeeds a))
  return a

def create (type : NodeType) : Build σ (Except CallError Handle) := fun env c =>
  let (reply, system) := env.renderer.create type c.system
  .ok (reply, { c with system, journal := .created type reply :: c.journal })

def act (a : Action) : Build σ (Except CallError Unit) := fun env c =>
  let (reply, system) := env.renderer.act a c.system
  .ok (reply, { c with system, journal := .acted a reply :: c.journal })

def remark (r : Remark) : Build σ Unit := do
  emit (.remarked (← read).margin r)

def warn (w : Warning) : Build σ Unit := emit (.warned w)

def within (level : Level) (filePrefix : Option String) (m : Build σ α) : Build σ α := fun env =>
  m { env with place := env.place.enter level filePrefix }

def addPart (p : Part) : Build σ PartId := do
  let id := (← assembly).size
  edit (.add p)
  return id

def addComposite (g : Graph) : Build σ PartId := addPart (.composite { graph := g })

/-- The path of a file by its name, with the prefix of the place; empty if there is none. -/
def resolveFile (name : String) : Build σ String := do
  let env ← read
  return (env.searchPath.find? env.fileExists (env.place.filePrefix ++ name)).getD ""

end Build

end MaterialGraph
