import ShaderGraph.Failure
import ShaderGraph.Pin.Default
import ShaderGraph.Pin.Metadata
import ShaderGraph.Pin.Spelling
import ShaderGraph.Pin.Tooltip

/-!
# Arguments and their pins

An argument becomes the pin that it spells. Two kinds of arguments become none, since the code node
passes them by itself: the parameters of a material and the samplers of textures. A matrix becomes
four internal pins, its rows, and a declaration that puts them together again.
-/

namespace ShaderGraph

open Text

/-- Why an argument or a return type is refused. -/
inductive PinError where
  | argumentSyntax (raw : String)
  | samplerName (name : String)
  | matrixOutput (name : String)
  | matrixDefault (name : String)
  | matrixNotExposed (name : String)
  | invalidDefault (name typeName text : String)
  | unknownType (typeName : String)
  | outputType (typeName : String)
  | notExposable (typeName : String)
  | returnType
deriving DecidableEq, Repr

namespace PinError

/-- The text of a refusal. -/
def message : PinError → String
  | argumentSyntax raw => "Invalid arguments syntax: " ++ raw
  | samplerName name =>
    "Invalid sampler parameter: " ++ name
      ++ ". Sampler parameters should be named [TextureParameterName]Sampler"
  | matrixOutput name => "Cannot have a float4x4 as output: " ++ name
  | matrixDefault name => "Cannot have a default value for a float4x4 pin: " ++ name
  | matrixNotExposed name => "float4x4 pins must be exposed: " ++ name
  | invalidDefault name typeName text =>
    name ++ ": invalid default value for type " ++ typeName ++ ": " ++ text
  | unknownType typeName => "Invalid argument type: " ++ typeName
  | outputType typeName => "Invalid argument type for an output: " ++ typeName
  | notExposable typeName => "Cannot expose type " ++ typeName ++ " as a parameter"
  | returnType => "Return type needs to be void"

def toFailure (e : PinError) : Failure := ⟨.pin, e.message, none, none⟩

end PinError

/-- What a type that is not `bool` is good for. -/
structure TypeInfo where
  kind : PinKind
  /-- Its type as an output, if it can be one. -/
  output : Option OutputType
  /-- The number of components of its default values, if it can have one. -/
  dimension : Option Dimension
deriving DecidableEq, Repr

/-- The types of arguments other than `bool`. -/
def typeTable : OrderedMap String TypeInfo := [
  ("int", ⟨.scalar, none, some .one⟩),
  ("uint", ⟨.scalar, none, some .one⟩),
  ("float", ⟨.scalar, some .float1, some .one⟩),
  ("float2", ⟨.vector2, some .float2, some .two⟩),
  ("float3", ⟨.vector3, some .float3, some .three⟩),
  ("float4", ⟨.vector4, some .float4, some .four⟩),
  ("Texture2D", ⟨.texture2D, none, none⟩),
  ("TextureCube", ⟨.textureCube, none, none⟩),
  ("Texture2DArray", ⟨.texture2DArray, none, none⟩),
  ("Texture3D", ⟨.texture3D, none, none⟩),
  ("TextureExternal", ⟨.textureExternal, none, none⟩),
  ("MaterialAttributes", ⟨.materialAttributes, none, none⟩)]

/-- The types of the parameters of a material. -/
def contextTypes : List String := ["FMaterialPixelParameters", "FMaterialVertexParameters"]

/-- The pins of an argument, and the declaration that its code needs. -/
structure Resolution where
  pins : List Pin := []
  declaration : String := ""
deriving DecidableEq, Repr, Inhabited

namespace Pin

/-- The default value of a type, if the text spells one. -/
def readVector? (info : TypeInfo) (text : String) : Option Quad :=
  info.dimension.bind fun d => Quad.read? d text

/-- A pin with the kind, the output type and the default value of its declared type. -/
def typed (p : Pin) : Except PinError Pin :=
  let refused := PinError.invalidDefault p.name p.declaredType p.defaultText
  if p.declaredType = "bool" then
    if p.hasDefault then
      if p.defaultText = "true" then .ok { p with kind := .staticBool, defaultBool := true }
      else if p.defaultText = "false" then .ok { p with kind := .staticBool }
      else .error refused
    else .ok { p with kind := .staticBool }
  else
    match typeTable.get? p.declaredType with
    | none => .error (.unknownType p.declaredType)
    | some info =>
      if p.hasDefault then
        match readVector? info p.defaultText with
        | none => .error refused
        | some q =>
          .ok { p with kind := info.kind, outputType := info.output, defaultVector := some q }
      else .ok { p with kind := info.kind, outputType := info.output }

/-- A pin that may be an output and a parameter if it is meant to be one. -/
def checked (p : Pin) : Except PinError Pin :=
  if p.isOutput && p.outputType.isNone then .error (.outputType p.declaredType)
  else if p.isExposed && !p.kind.isExposable then .error (.notExposable p.declaredType)
  else .ok p

/-- A row of a matrix. -/
def row (name : String) (metadata : Metadata) (tooltip : String) (index : Nat) : Pin :=
  { name := name ++ toString index, declaredType := "float4", kind := .vector4, qualifier := .const
    isInternal := true, metadata, tooltip, outputType := some .float4 }

end Pin

/-- The rows of a matrix and the declaration that makes it of them. -/
def matrixResolution (isConst : Bool) (name : String) (metadata : Metadata) (tooltip : String) :
    Resolution :=
  let rows := (List.range 4).map (Pin.row name metadata tooltip)
  let bindings := ", ".intercalate (rows.map (·.bindingName))
  { pins := rows
    declaration := (if isConst then "const " else "") ++ "float4x4 " ++ name ++ " = float4x4("
      ++ bindings ++ ");\n" }

/-- The pins of an argument whose parts are known, `comment` being that of its function. -/
def Spelling.resolve (s : Spelling) (comment : String) : Except PinError Resolution :=
  let typeName := String.ofList s.typeName
  let name := String.ofList s.name
  let metadata := Metadata.parse (String.ofList s.metadata)
  let default := String.ofList s.default
  let tooltip := Tooltip.find name comment
  if typeName ∈ contextTypes ∧ name = "Parameters" then .ok {}
  else if typeName = "SamplerState" then
    if "Sampler".toList.isSuffixOf s.name then .ok {} else .error (.samplerName name)
  else if typeName = "float4x4" then
    if s.qualifier = .output then .error (.matrixOutput name)
    else if s.default ≠ [] then .error (.matrixDefault name)
    else if !metadata.has exposeKey then .error (.matrixNotExposed name)
    else .ok (matrixResolution (s.qualifier = .const) name metadata tooltip)
  else
    let pin : Pin := { name, declaredType := typeName, kind := .scalar, qualifier := s.qualifier
                       metadata, tooltip, defaultText := default }
    match pin.typed with
    | .error e => .error e
    | .ok pin =>
      match pin.checked with
      | .error e => .error e
      | .ok pin => .ok { pins := [pin] }

/-- The pins of an argument of a function with this comment. -/
def resolveArgument (raw comment : String) : Except PinError Resolution :=
  match Spelling.read? raw.toList with
  | some s =>
    if s.typeName = [] ∨ s.name = [] then .error (.argumentSyntax (trim raw)) else s.resolve comment
  | none => .error (.argumentSyntax (trim raw))

end ShaderGraph
