/-!
# Kinds of outputs

What can be rendered feeds one of two slots, the surface or the displacement.

* `OutputKind.ofType?` tells the kind of a declared type; some values can stand for a surface.
* `PerKind` holds something for each kind.
-/

namespace MaterialGraph

set_option autoImplicit false

/-- The slots that an output can feed. -/
inductive OutputKind where
  | surface
  | displacement
deriving DecidableEq, Repr

namespace OutputKind

def all : List OutputKind := [.surface, .displacement]

def index : OutputKind → Nat
  | surface => 0
  | displacement => 1

/-- The types of values that can stand for a surface. -/
def wrappable : List String := ["color3", "color2", "vector3", "vector2", "boolean", "float"]

/-- The kind of an output of a type; none if it cannot be rendered. -/
def ofType? (type : String) : Option OutputKind :=
  if type = "surfaceshader" then some surface
  else if type = "displacementshader" then some displacement
  else if wrappable.contains type then some surface
  else none

end OutputKind

/-- One value for each kind. -/
structure PerKind (α : Type) where
  surface : α
  displacement : α
deriving DecidableEq, Repr

namespace PerKind

variable {α β : Type}

def both (a : α) : PerKind α := ⟨a, a⟩

def get (p : PerKind α) : OutputKind → α
  | .surface => p.surface
  | .displacement => p.displacement

def set (p : PerKind α) (k : OutputKind) (a : α) : PerKind α :=
  match k with
  | .surface => { p with surface := a }
  | .displacement => { p with displacement := a }

def map (f : α → β) (p : PerKind α) : PerKind β := ⟨f p.surface, f p.displacement⟩

def toList (p : PerKind α) : List α := [p.surface, p.displacement]

@[simp] theorem get_both (a : α) (k : OutputKind) : (both a).get k = a := by cases k <;> rfl

@[simp] theorem get_map (f : α → β) (p : PerKind α) (k : OutputKind) : (p.map f).get k = f (p.get k) := by
  cases k <;> rfl

@[simp] theorem get_set_self (p : PerKind α) (k : OutputKind) (a : α) : (p.set k a).get k = a := by cases k <;> rfl

theorem get_set_of_ne (p : PerKind α) {k l : OutputKind} (h : k ≠ l) (a : α) : (p.set k a).get l = p.get l := by
  cases k <;> cases l <;> first | rfl | exact absurd rfl h

end PerKind

end MaterialGraph
