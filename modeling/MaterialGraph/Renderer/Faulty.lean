import MaterialGraph.Renderer.Basic

/-!
# Renderers with injected faults

A faulty renderer passes calls on to another renderer, except those that are to fail. The calls of each kind are
counted from one; a fault can be meant for one of them, or for all calls with one detail.
-/

namespace MaterialGraph

set_option autoImplicit false

/-- The kinds of calls. -/
inductive CallKind where
  | create
  | bindNode
  | bindFloats
  | bindWord
  | rename
  | delete
deriving DecidableEq, Repr

def Action.kind : Action → CallKind
  | bind _ _ (.node _) => .bindNode
  | bind _ _ (.floats _) => .bindFloats
  | bind _ _ (.word _) => .bindWord
  | rename _ _ => .rename
  | delete _ => .delete

/-- What tells calls of one kind apart: the key, the name, or the handle. -/
def Action.detail : Action → String
  | bind _ key _ => key.name
  | rename _ name => name
  | delete node => toString node.id

/-- A failure of some calls: those of a kind, perhaps only the one of a number, or those with a detail. -/
structure Fault where
  call : CallKind
  error : CallError
  turn : Option Nat := none
  detail : Option String := none
deriving DecidableEq, Repr

/-- The faults to be injected and the calls counted so far. -/
structure Faults where
  list : List Fault := []
  count : CallKind → Nat := fun _ => 0

namespace Faults

def counted (f : Faults) (call : CallKind) : Faults :=
  { f with count := fun c => if c = call then f.count c + 1 else f.count c }

/-- The failure of the next call of a kind, if it is to fail. -/
def next? (f : Faults) (call : CallKind) (detail : String) : Option CallError :=
  (f.list.find? fun fault =>
    fault.call = call ∧ fault.turn.all (· = f.count call + 1) ∧ fault.detail.all (· = detail)).map (·.error)

end Faults

/-- The renderer with faults injected into its calls. -/
def Renderer.faulty {σ : Type} (r : Renderer σ) : Renderer (σ × Faults) where
  hasNames := r.hasNames
  create type s :=
    let faults := s.2.counted .create
    match s.2.next? .create type.name with
    | some e => (.error e, s.1, faults)
    | none =>
      let (reply, s') := r.create type s.1
      (reply, s', faults)
  act a s :=
    let faults := s.2.counted a.kind
    match s.2.next? a.kind a.detail with
    | some e => (.error e, s.1, faults)
    | none =>
      let (reply, s') := r.act a s.1
      (reply, s', faults)

end MaterialGraph
