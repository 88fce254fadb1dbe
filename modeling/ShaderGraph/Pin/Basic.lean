import ShaderGraph.Binary64.Basic
import ShaderGraph.OrderedMap

/-!
# Pins

A pin is an input or an output of the graph that is generated for a function. Its kind says what
flows through it, its qualifier whether it is an output or a constant, and its metadata whether it
is exposed as a parameter of the material.
-/

namespace ShaderGraph

/-- What flows through a pin. -/
inductive PinKind where
  | scalar
  | vector2
  | vector3
  | vector4
  | staticBool
  | texture2D
  | textureCube
  | texture2DArray
  | texture3D
  | textureExternal
  | materialAttributes
deriving DecidableEq, Repr, Inhabited

namespace PinKind

/-- The name of a kind in a generated graph. -/
def label : PinKind → String
  | scalar => "SCALAR"
  | vector2 => "VECTOR2"
  | vector3 => "VECTOR3"
  | vector4 => "VECTOR4"
  | staticBool => "STATIC_BOOL"
  | texture2D => "TEXTURE_2D"
  | textureCube => "TEXTURE_CUBE"
  | texture2DArray => "TEXTURE_2D_ARRAY"
  | texture3D => "TEXTURE_3D"
  | textureExternal => "TEXTURE_EXTERNAL"
  | materialAttributes => "MATERIAL_ATTRIBUTES"

def isTexture : PinKind → Bool
  | texture2D | textureCube | texture2DArray | texture3D | textureExternal => true
  | _ => false

/-- The kinds that a material can have parameters of. -/
def isExposable : PinKind → Bool
  | scalar | vector4 => true
  | k => k.isTexture

end PinKind

/-- The type of an additional output of a code node. -/
inductive OutputType where
  | float1
  | float2
  | float3
  | float4
deriving DecidableEq, Repr, Inhabited

/-- The name of an output type in a generated graph. -/
def OutputType.label : OutputType → String
  | float1 => "FLOAT1"
  | float2 => "FLOAT2"
  | float3 => "FLOAT3"
  | float4 => "FLOAT4"

/-- What is written before the type of an argument. -/
inductive Qualifier where
  | plain
  | const
  | output
deriving DecidableEq, Repr, Inhabited

/-- The name of a qualifier. -/
def Qualifier.label : Qualifier → String
  | plain => "NONE"
  | const => "CONST"
  | output => "OUTPUT"

/-- The four components of a default value. -/
structure Quad where
  x : Binary64
  y : Binary64
  z : Binary64
  w : Binary64
deriving DecidableEq, Repr, Inhabited

def Quad.toList (q : Quad) : List Binary64 := [q.x, q.y, q.z, q.w]

/-- The entries before an argument, a flag having an empty value. -/
abbrev Metadata := OrderedMap String String

/-- The metadata key that makes an input a parameter. -/
def exposeKey : String := "Expose"

/-- The metadata key that names the group of a parameter. -/
def categoryKey : String := "Category"

/-- An input or an output of a function. -/
structure Pin where
  name : String
  declaredType : String
  kind : PinKind
  qualifier : Qualifier := .plain
  /-- Whether the pin is a part of an argument and not an argument itself. -/
  isInternal : Bool := false
  metadata : Metadata := []
  tooltip : String := ""
  /-- The default value as it is written, empty without one. -/
  defaultText : String := ""
  defaultVector : Option Quad := none
  defaultBool : Bool := false
  /-- The type of the pin as an output, if it can be one. -/
  outputType : Option OutputType := none
deriving DecidableEq, Repr, Inhabited

namespace Pin

def isConst (p : Pin) : Bool := p.qualifier == .const

def isOutput (p : Pin) : Bool := p.qualifier == .output

/-- Whether the pin is a parameter of the material. -/
def isExposed (p : Pin) : Bool := p.metadata.has exposeKey

def hasDefault (p : Pin) : Bool := !p.defaultText.isEmpty

/-- The name under which the generated code receives the pin. -/
def bindingName (p : Pin) : String := "INTERNAL_IN_" ++ p.name

end Pin

end ShaderGraph
