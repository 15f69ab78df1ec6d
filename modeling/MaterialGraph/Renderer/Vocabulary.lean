/-!
# The vocabulary of renderer nodes

Types of nodes, keys of their inputs, opcodes, and quantities that can be looked up. The renderer knows each by a
number, `id`; a message knows it by a word, `name`.
-/

namespace MaterialGraph

set_option autoImplicit false

/-- A type of renderer nodes. -/
inductive NodeType where
  | blend
  | arithmetic
  | normalMap
  | imageTexture
  | constantTexture
  | inputLookup
  | blendValue
  | passthrough
  | diffuseBrdf
  | dielectricBrdf
  | generalizedSchlickBrdf
  | noise3d
  | position
  | roughnessAnisotropy
  | rotate3d
  | normalize
  | ifGreater
  | sheenBrdf
  | diffuseBtdf
  | convert
  | subsurfaceBrdf
  | dielectricBtdf
  | conductorBrdf
  | fresnel
  | luminance
deriving DecidableEq, Repr

namespace NodeType

def all : List NodeType :=
  [.blend, .arithmetic, .normalMap, .imageTexture, .constantTexture, .inputLookup, .blendValue, .passthrough,
    .diffuseBrdf, .dielectricBrdf, .generalizedSchlickBrdf, .noise3d, .position, .roughnessAnisotropy,
    .rotate3d, .normalize, .ifGreater, .sheenBrdf, .diffuseBtdf, .convert, .subsurfaceBrdf, .dielectricBtdf,
    .conductorBrdf, .fresnel, .luminance]

def id : NodeType → UInt32
  | blend => 0xa
  | arithmetic => 0xb
  | normalMap => 0xd
  | imageTexture => 0xe
  | constantTexture => 0x13
  | inputLookup => 0x14
  | blendValue => 0x16
  | passthrough => 0x17
  | diffuseBrdf => 0x1000
  | dielectricBrdf => 0x1001
  | generalizedSchlickBrdf => 0x1002
  | noise3d => 0x1003
  | position => 0x1006
  | roughnessAnisotropy => 0x1007
  | rotate3d => 0x1008
  | normalize => 0x1009
  | ifGreater => 0x100a
  | sheenBrdf => 0x100b
  | diffuseBtdf => 0x100c
  | convert => 0x100d
  | subsurfaceBrdf => 0x100e
  | dielectricBtdf => 0x100f
  | conductorBrdf => 0x1010
  | fresnel => 0x1011
  | luminance => 0x1012

def name : NodeType → String
  | blend => "Blend"
  | arithmetic => "Arithmetic"
  | normalMap => "NormalMap"
  | imageTexture => "ImageTexture"
  | constantTexture => "ConstantTexture"
  | inputLookup => "InputLookup"
  | blendValue => "BlendValue"
  | passthrough => "Passthrough"
  | diffuseBrdf => "MatxDiffuseBrdf"
  | dielectricBrdf => "MatxDielectricBrdf"
  | generalizedSchlickBrdf => "MatxGeneralizedSchlickBrdf"
  | noise3d => "MatxNoise3d"
  | position => "MatxPosition"
  | roughnessAnisotropy => "MatxRoughnessAnisotropy"
  | rotate3d => "MatxRotate3d"
  | normalize => "MatxNormalize"
  | ifGreater => "MatxIfGreater"
  | sheenBrdf => "MatxSheenBrdf"
  | diffuseBtdf => "MatxDiffuseBtdf"
  | convert => "MatxConvert"
  | subsurfaceBrdf => "MatxSubsurfaceBrdf"
  | dielectricBtdf => "MatxDielectricBtdf"
  | conductorBrdf => "MatxConductorBrdf"
  | fresnel => "MatxFresnel"
  | luminance => "MatxLuminance"

def ofName? (name : String) : Option NodeType :=
  all.find? fun x => x.name = name

end NodeType

/-- An input of renderer nodes. -/
inductive InputKey where
  | color
  | color0
  | color1
  | normal
  | uv
  | roughness
  | ior
  | weight
  | op
  | value
  | scale
  | color2
  | color3
  | anisotropic
  | radius
  | tangent
  | distribution
  | base
  | tint
  | exponent
  | amplitude
  | pivot
  | position
  | amount
  | axis
  | lumaCoeff
  | reflectivity
  | edgeColor
  | viewDirection
  | interior
  | input0
  | input1
deriving DecidableEq, Repr

namespace InputKey

def all : List InputKey :=
  [.color, .color0, .color1, .normal, .uv, .roughness, .ior, .weight, .op, .value, .scale, .color2, .color3,
    .anisotropic, .radius, .tangent, .distribution, .base, .tint, .exponent, .amplitude, .pivot, .position,
    .amount, .axis, .lumaCoeff, .reflectivity, .edgeColor, .viewDirection, .interior, .input0, .input1]

def id : InputKey → UInt32
  | color => 0x0
  | color0 => 0x1
  | color1 => 0x2
  | normal => 0x3
  | uv => 0x4
  | roughness => 0x6
  | ior => 0x7
  | weight => 0xb
  | op => 0xc
  | value => 0xf
  | scale => 0x11
  | color2 => 0x17
  | color3 => 0x18
  | anisotropic => 0x19
  | radius => 0x22
  | tangent => 0x2e
  | distribution => 0x2f
  | base => 0x30
  | tint => 0x31
  | exponent => 0x32
  | amplitude => 0x33
  | pivot => 0x34
  | position => 0x35
  | amount => 0x36
  | axis => 0x37
  | lumaCoeff => 0x38
  | reflectivity => 0x39
  | edgeColor => 0x3a
  | viewDirection => 0x3b
  | interior => 0x3c
  | input0 => 0x10000
  | input1 => 0x10001

def name : InputKey → String
  | color => "Color"
  | color0 => "Color0"
  | color1 => "Color1"
  | normal => "Normal"
  | uv => "Uv"
  | roughness => "Roughness"
  | ior => "Ior"
  | weight => "Weight"
  | op => "Op"
  | value => "Value"
  | scale => "Scale"
  | color2 => "Color2"
  | color3 => "Color3"
  | anisotropic => "Anisotropic"
  | radius => "Radius"
  | tangent => "Tangent"
  | distribution => "Distribution"
  | base => "Base"
  | tint => "Tint"
  | exponent => "Exponent"
  | amplitude => "Amplitude"
  | pivot => "Pivot"
  | position => "Position"
  | amount => "Amount"
  | axis => "Axis"
  | lumaCoeff => "LumaCoeff"
  | reflectivity => "Reflectivity"
  | edgeColor => "EdgeColor"
  | viewDirection => "ViewDirection"
  | interior => "Interior"
  | input0 => "Input0"
  | input1 => "Input1"

def ofName? (name : String) : Option InputKey :=
  all.find? fun x => x.name = name

end InputKey

/-- A function that an arithmetic node computes. -/
inductive Opcode where
  | add
  | sub
  | mul
  | div
  | sin
  | cos
  | tan
  | selectX
  | selectY
  | dot3
  | cross3
  | normalize3
  | pow
  | acos
  | asin
  | min
  | max
  | floor
  | mod
  | abs
  | log
deriving DecidableEq, Repr

namespace Opcode

def all : List Opcode :=
  [.add, .sub, .mul, .div, .sin, .cos, .tan, .selectX, .selectY, .dot3, .cross3, .normalize3, .pow, .acos,
    .asin, .min, .max, .floor, .mod, .abs, .log]

def id : Opcode → UInt32
  | add => 0x0
  | sub => 0x1
  | mul => 0x2
  | div => 0x3
  | sin => 0x4
  | cos => 0x5
  | tan => 0x6
  | selectX => 0x7
  | selectY => 0x8
  | dot3 => 0xb
  | cross3 => 0xc
  | normalize3 => 0xe
  | pow => 0xf
  | acos => 0x10
  | asin => 0x11
  | min => 0x15
  | max => 0x16
  | floor => 0x17
  | mod => 0x18
  | abs => 0x19
  | log => 0x20

def name : Opcode → String
  | add => "Add"
  | sub => "Sub"
  | mul => "Mul"
  | div => "Div"
  | sin => "Sin"
  | cos => "Cos"
  | tan => "Tan"
  | selectX => "SelectX"
  | selectY => "SelectY"
  | dot3 => "Dot3"
  | cross3 => "Cross3"
  | normalize3 => "Normalize3"
  | pow => "Pow"
  | acos => "Acos"
  | asin => "Asin"
  | min => "Min"
  | max => "Max"
  | floor => "Floor"
  | mod => "Mod"
  | abs => "Abs"
  | log => "Log"

def ofName? (name : String) : Option Opcode :=
  all.find? fun x => x.name = name

end Opcode

/-- A quantity of the shaded point. -/
inductive Lookup where
  | uv
  | n
  | p
  | uv1
  | pLocal
deriving DecidableEq, Repr

namespace Lookup

def all : List Lookup :=
  [.uv, .n, .p, .uv1, .pLocal]

def id : Lookup → UInt32
  | uv => 0x0
  | n => 0x1
  | p => 0x2
  | uv1 => 0x5
  | pLocal => 0x6

def name : Lookup → String
  | uv => "Uv"
  | n => "N"
  | p => "P"
  | uv1 => "Uv1"
  | pLocal => "PLocal"

def ofName? (name : String) : Option Lookup :=
  all.find? fun x => x.name = name

end Lookup

end MaterialGraph
