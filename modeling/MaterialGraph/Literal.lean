import MaterialGraph.LoadError
import MaterialGraph.Number.Single
import MaterialGraph.Text.Blank

/-!
# Literal values

* `Literal.parse` reads a text as a value of a named type. Components of vectors and colours are separated by commas;
  blanks around the text and around a component do not count.
* `Literal.toFloat4` is the form in which a renderer takes the value.
-/

namespace MaterialGraph

open Number (Single Float4)

set_option autoImplicit false

/-- A literal value. -/
inductive Literal where
  | float (x : Single)
  | integer (n : Int32)
  | boolean (b : Bool)
  | vector2 (x y : Single)
  | vector3 (x y z : Single)
  | vector4 (x y z w : Single)
  | string (s : String)
  | filename (s : String)
deriving DecidableEq, Repr

namespace Literal

def readFloat (text : String) : Except LoadError Single :=
  match Single.read? (Text.trim text) with
  | some x => .ok x
  | none => .error (.unsupported ("invalid float: " ++ text))

/-- Reads one component from each piece. What is wrong first from the left is reported, be it a component or the
lack of one; pieces left over are noticed last. -/
def readComponents (wrongCount : LoadError) : (n : Nat) → List String → Except LoadError (Vector Single n)
  | 0, [] => .ok #v[]
  | 0, _ :: _ => .error wrongCount
  | _ + 1, [] => .error wrongCount
  | n + 1, piece :: pieces => do
    let x ← readFloat piece
    let xs ← readComponents wrongCount n pieces
    return xs.insertIdx 0 x

/-- Reads a vector of `n` components with commas between them. -/
def readVector (n : Nat) (text : String) : Except LoadError (Vector Single n) :=
  readComponents (.unsupported ("expected " ++ toString n ++ " components: " ++ text)) n (Text.splitOn ',' text)

def parse (text type : String) : Except LoadError Literal :=
  let text := Text.trim text
  match type with
  | "float" => (readFloat text).map float
  | "integer" =>
    match Number.readInt32? text with
    | some n => .ok (integer n)
    | none => .error (.unsupported ("invalid integer: " ++ text))
  | "boolean" =>
    match text with
    | "true" => .ok (boolean true)
    | "false" => .ok (boolean false)
    | _ => .error (.unsupported ("invalid boolean: " ++ text))
  | "vector2" | "color2" => (readVector 2 text).map fun v => vector2 v[0] v[1]
  | "vector3" | "color3" => (readVector 3 text).map fun v => vector3 v[0] v[1] v[2]
  | "vector4" | "color4" => (readVector 4 text).map fun v => vector4 v[0] v[1] v[2] v[3]
  | "string" => .ok (string text)
  | "filename" => .ok (filename text)
  | other => .error (.unsupported ("failed to parse " ++ text ++ " value: unsupported type - " ++ other))

def broadcast (x : Single) : Float4 := ⟨x, x, x, .zero⟩

/-- Four floats for a number, a truth value or a vector; missing components are zero. Texts have no such form. -/
def toFloat4 : Literal → Option Float4
  | float x => some (broadcast x)
  | integer n => some (broadcast (.ofInt n.toInt))
  | boolean b => some (broadcast (if b then .one else .zero))
  | vector2 x y => some ⟨x, y, .zero, .zero⟩
  | vector3 x y z => some ⟨x, y, z, .zero⟩
  | vector4 x y z w => some ⟨x, y, z, w⟩
  | string _ => none
  | filename _ => none

end Literal

end MaterialGraph
