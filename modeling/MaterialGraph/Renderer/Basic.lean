import MaterialGraph.Number.Single
import MaterialGraph.Renderer.Vocabulary

/-!
# Renderers

A renderer owns nodes and knows them by handles. It creates nodes and obeys actions on them; every call may fail.
Nothing is assumed of how it answers: its state is any type, and its two functions are any functions.
-/

namespace MaterialGraph

open Number (Float4)

set_option autoImplicit false

/-- What a renderer knows a node by. -/
structure Handle where
  id : Nat
deriving DecidableEq, Repr

/-- How a call fails. -/
inductive CallError where
  | unsupported
  | invalid
  | status (code : Int32)
deriving DecidableEq, Repr

def CallError.message : CallError → String
  | unsupported => "unsupported input"
  | invalid => "invalid parameter"
  | status code => "status " ++ toString code.toInt

/-- What is bound to an input. -/
inductive Bound where
  | node (producer : Handle)
  | floats (value : Float4)
  | word (value : UInt32)
deriving DecidableEq, Repr

/-- What can be asked of a renderer about a node that it has created. -/
inductive Action where
  | bind (node : Handle) (key : InputKey) (value : Bound)
  | rename (node : Handle) (name : String)
  | delete (node : Handle)
deriving DecidableEq, Repr

/-- A renderer with states of type `σ`. One whose nodes have no names is never asked to name one. -/
structure Renderer (σ : Type) where
  hasNames : Bool
  create : NodeType → σ → Except CallError Handle × σ
  act : Action → σ → Except CallError Unit × σ

def Renderer.nameless {σ : Type} (r : Renderer σ) : Renderer σ := { r with hasNames := false }

end MaterialGraph
