import MaterialGraph.Build.Part

/-!
# Recipes

Which part stands for a node. A few categories have a part of their own; others have an entry in the mapping table;
all others are expanded to the graph that implements their definition.

* `Recipe.of` is the recipe for a node.
* `Lookup.ofGeomProp` is the quantity that a geometric property means.
-/

namespace MaterialGraph

open Number (Single)

set_option autoImplicit false

/-- How to build the part for a node: as a leaf without a renderer node of its own, as one with a node and its first
settings, or as a composite for the graph that implements the definition. -/
inductive Recipe where
  | forward (role : Role)
  | create (type : NodeType) (role : Role) (settings : List (InputKey × Bound))
  | expand
deriving DecidableEq, Repr

namespace Recipe

def ofLookup (quantity : Lookup) : Recipe :=
  .create .inputLookup .plain [(.value, .word quantity.id)]

def ofMapping (m : Mapping) : Recipe :=
  .create m.type (.mapped m) (m.opcode.toList.map fun opcode => (.op, .word opcode.id))

def exponentHalf : Number.Float4 := ⟨.half, .half, .half, .one⟩

/-- A swizzle, which may select one of the first two components. -/
def ofSwizzle (n : Node) : Except LoadError Recipe :=
  match ((n.input? "channels").filter fun i => i.type = "string").bind Input.value? with
  | none => .error (.malformed ("swizzle " ++ n.name ++ " has no channels"))
  | some "x" => .ok (ofMapping .firstComponent)
  | some "y" => .ok (ofMapping .secondComponent)
  | some other => .error (.unsupported ("swizzle channels " ++ other))

def of (n : Node) : Except LoadError Recipe :=
  match n.category with
  | "surface" => .ok (.forward .surface)
  | "displacement" => .ok (.forward (.displacement n.name))
  | "texcoord" => .ok (ofLookup .uv)
  | "normal" => .ok (ofLookup .n)
  | "sqrt" =>
    .ok (.create .arithmetic (.mapped .squareRoot)
      [(.op, .word Opcode.pow.id), (.color1, .floats exponentHalf)])
  | "image" => .ok (.create Mapping.image.type (.image {}) [])
  | "swizzle" => ofSwizzle n
  | category =>
    match Mapping.entryFor? category n.type with
    | some m => .ok (ofMapping m)
    | none => .ok .expand

end Recipe

def Lookup.ofGeomProp (g : GeomPropDef) : Except LoadError Lookup :=
  if g.geomProp.isEmpty || g.type.isEmpty then .error (.malformed ("invalid geompropdef: " ++ g.name))
  else match g.geomProp with
    | "texcoord" =>
      match g.index.getD "" with
      | "" | "0" => .ok .uv
      | "1" => .ok .uv1
      | other => .error (.unsupported ("texcoord index " ++ other))
    | "normal" =>
      if g.space = some "world" then .ok .n
      else .error (.unsupported ("normal space \"" ++ g.space.getD "" ++ "\""))
    | "position" => .ok (if g.space = some "world" then .p else .pLocal)
    | other => .error (.unsupported ("geom node: " ++ other))

/-- Whether a geometric property gives texture coordinates in a type that is not meant for them. -/
def GeomPropDef.isStrange (g : GeomPropDef) : Bool :=
  g.geomProp = "texcoord" && !g.type.isEmpty && g.type ≠ "vector2"

end MaterialGraph
