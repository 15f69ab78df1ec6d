import MaterialGraph.Renderer.Vocabulary

/-!
# The mapping table

Which renderer node stands for a category of document nodes, which of its inputs stands for which input, and which
opcode it gets if it is an arithmetic node.

* `Mapping.table` lists the categories in the order of their names.
* `Mapping.entryFor?` also knows that a mix of closures is another node than a mix of values.
-/

namespace MaterialGraph

set_option autoImplicit false

/-- What stands for a category. -/
structure Mapping where
  type : NodeType
  inputs : List (String × InputKey)
  opcode : Option Opcode := none
deriving DecidableEq, Repr

namespace Mapping

def key? (m : Mapping) (input : String) : Option InputKey :=
  m.inputs.lookup input

def arithmetic (opcode : Opcode) (inputs : List (String × InputKey)) : Mapping :=
  ⟨.arithmetic, inputs, some opcode⟩

def unary (opcode : Opcode) : Mapping := arithmetic opcode [("in", .color0)]

def binary (opcode : Opcode) : Mapping := arithmetic opcode [("in1", .color0), ("in2", .color1)]

def closureMix : Mapping := ⟨.blend, [("fg", .color1), ("bg", .color0), ("mix", .weight)], none⟩

def squareRoot : Mapping := unary .pow

def firstComponent : Mapping := unary .selectX

def secondComponent : Mapping := unary .selectY

/-- An image. Its other inputs are not bound but kept for whoever loads the image. -/
def image : Mapping := ⟨.imageTexture, [("texcoord", .uv)], none⟩

/-- The categories with their entries, in the order of their names. -/
def table : List (String × Mapping) := [
  ("absval", unary .abs),
  ("acos", unary .acos),
  ("add", binary .add),
  ("asin", unary .asin),
  ("clamp", arithmetic .max [("in", .color0), ("low", .color1)]),
  ("conductor_brdf", ⟨.conductorBrdf, [("weight", .weight), ("reflectivity", .reflectivity),
    ("edge_color", .edgeColor), ("roughness", .roughness), ("normal", .normal), ("tangent", .tangent),
    ("distribution", .distribution)], none⟩),
  ("constant", ⟨.constantTexture, [("value", .value)], none⟩),
  ("convert", ⟨.convert, [("in", .input0)], none⟩),
  ("cos", unary .cos),
  ("crossproduct", binary .cross3),
  ("dielectric_brdf", ⟨.dielectricBrdf, [("weight", .weight), ("tint", .tint), ("ior", .ior),
    ("roughness", .roughness), ("normal", .normal), ("tangent", .tangent), ("distribution", .distribution),
    ("base", .base)], none⟩),
  ("dielectric_btdf", ⟨.dielectricBtdf, [("weight", .weight), ("tint", .color), ("ior", .ior),
    ("roughness", .roughness), ("normal", .normal), ("tangent", .tangent), ("distribution", .distribution),
    ("interior", .interior)], none⟩),
  ("diffuse_brdf", ⟨.diffuseBrdf, [("color", .color), ("weight", .weight), ("roughness", .roughness),
    ("normal", .normal)], none⟩),
  ("diffuse_btdf", ⟨.diffuseBtdf, [("weight", .weight), ("color", .color), ("normal", .normal)], none⟩),
  ("divide", binary .div),
  ("dotproduct", binary .dot3),
  ("floor", unary .floor),
  ("fresnel", ⟨.fresnel, [("ior", .ior), ("normal", .normal), ("viewdirection", .viewDirection)], none⟩),
  ("generalized_schlick_brdf", ⟨.generalizedSchlickBrdf, [("color0", .color0), ("color90", .color1),
    ("exponent", .exponent), ("roughness", .roughness), ("weight", .weight), ("normal", .normal),
    ("tangent", .tangent), ("distribution", .distribution), ("base", .base)], none⟩),
  ("ifgreater", ⟨.ifGreater, [("value1", .input0), ("value2", .input1), ("in1", .color0), ("in2", .color1)],
    none⟩),
  ("invert", arithmetic .sub [("amount", .color0), ("in", .color1)]),
  ("ln", unary .log),
  ("luminance", ⟨.luminance, [("in", .input0), ("lumacoeffs", .lumaCoeff)], none⟩),
  ("max", binary .max),
  ("min", binary .min),
  ("mix", ⟨.blendValue, [("fg", .color1), ("bg", .color0), ("mix", .weight)], none⟩),
  ("modulo", binary .mod),
  ("multiply", binary .mul),
  ("noise3d", ⟨.noise3d, [("amplitude", .amplitude), ("pivot", .pivot), ("position", .position)], none⟩),
  ("normalize", unary .normalize3),
  ("normalmap", ⟨.normalMap, [("in", .color), ("scale", .scale)], none⟩),
  ("position", ⟨.position, [], none⟩),
  ("power", binary .pow),
  ("rotate3d", ⟨.rotate3d, [("in", .input0), ("amount", .amount), ("axis", .axis)], none⟩),
  ("roughness_anisotropy", ⟨.roughnessAnisotropy, [("roughness", .roughness), ("anisotropy", .anisotropic)],
    none⟩),
  ("sheen_brdf", ⟨.sheenBrdf, [("weight", .weight), ("color", .color), ("roughness", .roughness),
    ("normal", .normal), ("base", .base)], none⟩),
  ("sin", unary .sin),
  ("subsurface_brdf", ⟨.subsurfaceBrdf, [("weight", .weight), ("color", .color), ("radius", .radius),
    ("anisotropy", .anisotropic), ("normal", .normal)], none⟩),
  ("subtract", binary .sub),
  ("tan", unary .tan)]

def lookup? (category : String) : Option Mapping :=
  table.lookup category

/-- The entry of a node by its category and the type of its output. -/
def entryFor? (category type : String) : Option Mapping :=
  if category = "mix" ∧ type = "BSDF" then some closureMix else lookup? category

end Mapping

end MaterialGraph
