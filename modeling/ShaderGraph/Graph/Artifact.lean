import ShaderGraph.Graph.DecisionTree
import ShaderGraph.Graph.Identifier
import ShaderGraph.Include.Directive
import ShaderGraph.Json.Basic

/-!
# Artifacts

An artifact is the graph generated for one function: its input, parameter and output nodes, one code
node for each variant, and a decision tree for each output.
-/

namespace ShaderGraph

/-- An input of the graph. -/
structure InputNode where
  id : Json
  pinName : String
  /-- The name on the node, with the default value. -/
  displayName : String
  kind : String
  description : String := ""
  sortPriority : Int := 0
  previewValue : Option (List Number) := none
  previewBool : Option Bool := none
deriving Inhabited

/-- A parameter of the material, made of an exposed input. -/
structure ParameterNode where
  id : Json
  parameterName : String
  kind : String
  group : String := ""
  defaultValue : Option (List Number) := none
  sortPriority : Int := 32
deriving Inhabited

/-- An output of the graph. -/
structure OutputNode where
  id : Json
  name : String
  description : String := ""
  sortPriority : Int := 0
deriving Inhabited

/-- An input of a code node and what it is connected to. -/
structure CodeBinding where
  name : String
  source : String
deriving DecidableEq, Repr, Inhabited

/-- The code node for one assignment of the bool inputs. -/
structure Variant where
  index : Int
  boolValues : BoolValues
  code : String
  bindings : List CodeBinding
  /-- The names and types of the outputs of the code. -/
  additionalOutputs : List (String × String)
deriving DecidableEq, Repr, Inhabited

/-- All that is generated for one function. -/
structure Artifact where
  name : String
  fingerprint : String
  /-- The header, which holds the fingerprint. -/
  comment : String
  library : String := ""
  sourceFile : String := ""
  description : String := ""
  categories : List String := []
  inputs : List InputNode := []
  parameters : List ParameterNode := []
  outputs : List OutputNode := []
  variants : List Variant := []
  outputTrees : OrderedMap String (DecisionTree String) := []
  includeFilePaths : List String := []
  additionalDefines : List Define := []
  texCoordinateIndex : Option Int := none
  identifiers : IdentifierTable := {}
deriving Inhabited

/-- The version of stored artifacts and manifests. -/
def formatVersion : Int := 1

end ShaderGraph
