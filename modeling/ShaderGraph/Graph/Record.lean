import ShaderGraph.Graph.Artifact
import ShaderGraph.Json.Shape
import ShaderGraph.Json.Writer

/-!
# Artifacts as documents

An artifact is stored as a JSON object with its fields in order. What a document tells is a record:
only its shape is certain, and its values stand as they are, since a document may be written by hand.
It may leave out fields that have a default and may hold unknown members at the top and in variants,
but not in nodes, bindings, defines and tables. Every artifact has a record, which is read back from
the document it is written to.
-/

namespace ShaderGraph

open Json

/-- The fields of a part of an artifact, in order. -/
abbrev Fields := OrderedMap String Json

namespace InputNode

def fieldNames : List RecordField := [⟨"id", none⟩, ⟨"pin_name", none⟩, ⟨"display_name", none⟩,
  ⟨"kind", none⟩, ⟨"description", some (.string "")⟩, ⟨"sort_priority", some (.int 0)⟩,
  ⟨"preview_value", some .null⟩, ⟨"preview_bool", some .null⟩]

def fields (n : InputNode) : Fields :=
  [("id", n.id), ("pin_name", .string n.pinName), ("display_name", .string n.displayName),
    ("kind", .string n.kind), ("description", .string n.description),
    ("sort_priority", .int n.sortPriority),
    ("preview_value", .optional (fun v => .array (v.map .number)) n.previewValue),
    ("preview_bool", .optional .bool n.previewBool)]

end InputNode

namespace ParameterNode

def fieldNames : List RecordField := [⟨"id", none⟩, ⟨"parameter_name", none⟩, ⟨"kind", none⟩,
  ⟨"group", some (.string "")⟩, ⟨"default_value", some .null⟩, ⟨"sort_priority", some (.int 32)⟩]

def fields (n : ParameterNode) : Fields :=
  [("id", n.id), ("parameter_name", .string n.parameterName), ("kind", .string n.kind),
    ("group", .string n.group),
    ("default_value", .optional (fun v => .array (v.map .number)) n.defaultValue),
    ("sort_priority", .int n.sortPriority)]

end ParameterNode

namespace OutputNode

def fieldNames : List RecordField := [⟨"id", none⟩, ⟨"name", none⟩,
  ⟨"description", some (.string "")⟩, ⟨"sort_priority", some (.int 0)⟩]

def fields (n : OutputNode) : Fields :=
  [("id", n.id), ("name", .string n.name), ("description", .string n.description),
    ("sort_priority", .int n.sortPriority)]

end OutputNode

namespace CodeBinding

def fieldNames : List RecordField := [⟨"name", none⟩, ⟨"source", none⟩]

def fields (b : CodeBinding) : Fields := [("name", .string b.name), ("source", .string b.source)]

end CodeBinding

namespace Define

def fieldNames : List RecordField := [⟨"name", none⟩, ⟨"value", none⟩]

def fields (d : Define) : Fields := [("name", .string d.name), ("value", .string d.value)]

end Define

/-- A variant as a document tells it. -/
structure VariantRecord where
  index : Json
  boolValues : List (Json × Json)
  code : Json
  bindings : List Fields
  additionalOutputs : List (Json × Json)

/-- The record of a variant. -/
def Variant.record (v : Variant) : VariantRecord :=
  { index := .int v.index
    boolValues := v.boolValues.map fun p => (.string p.1, .bool p.2)
    code := .string v.code
    bindings := v.bindings.map (·.fields)
    additionalOutputs := v.additionalOutputs.map fun o => (.string o.1, .string o.2) }

namespace VariantRecord

/-- The text that a value is as a key of an object. -/
def keyText : Json → String
  | .string s => s
  | v => v.renderLine

def toJson (v : VariantRecord) : Json :=
  .object [("index", v.index),
    ("bool_values", .object (v.boolValues.map fun p => (keyText p.1, p.2))), ("code", v.code),
    ("bindings", .array (v.bindings.map .object)),
    ("additional_outputs", .array (v.additionalOutputs.map fun o => .array [o.1, o.2]))]

def ofJson (j : Json) : Except DocumentError VariantRecord := do
  return { index := ← j.require "index"
           boolValues := ← (← j.require "bool_values").keyedValues
           code := ← j.require "code"
           bindings := ← (← j.require "bindings").elementsBy (recordFields CodeBinding.fieldNames)
           additionalOutputs := ← (← j.require "additional_outputs").elementsBy twoParts }

end VariantRecord

namespace DecisionTree

def toJson : DecisionTree Json → Json
  | leaf w => .object [("variant", .int w)]
  | switch pin t f => .object [("switch", pin), ("true", t.toJson), ("false", f.toJson)]

/-- The number of the variant at a leaf. -/
def leafOfJson (j : Json) : Except DocumentError (DecisionTree Json) :=
  match j.require "variant" with
  | .error e => .error e
  | .ok v =>
    match v.toInteger with
    | .ok i => .ok (leaf i)
    | .error .mistyped => .error .mistyped
    | .error .notANumber => .error .notANumber
    | .error .infinite => .error .infiniteNumber

mutual

/-- The tree of a document: a switch if it has that member, else a leaf. -/
def ofJson : Json → Except DocumentError (DecisionTree Json)
  | .object ms =>
    match OrderedMap.get? ms "switch" with
    | none => leafOfJson (.object ms)
    | some pin =>
      match ofMember "true" ms with
      | .error e => .error e
      | .ok t =>
        match ofMember "false" ms with
        | .error e => .error e
        | .ok f => .ok (switch pin t f)
  | j => leafOfJson j

/-- The tree of the first member with a key. -/
def ofMember (key : String) : List (String × Json) → Except DocumentError (DecisionTree Json)
  | [] => .error (.missingKey key)
  | (k, v) :: ms => if k = key then ofJson v else ofMember key ms

end

end DecisionTree

/-- Identifiers as a document tells them. -/
structure TableRecord where
  inputs : Json
  outputs : Json
  parameters : Json

/-- The record of a table. -/
def IdentifierTable.record (t : IdentifierTable) : TableRecord :=
  ⟨.object t.inputs, .object t.outputs, .object t.parameters⟩

namespace TableRecord

def fieldNames : List RecordField := [⟨"inputs", some (.object [])⟩, ⟨"outputs", some (.object [])⟩,
  ⟨"parameters", some (.object [])⟩]

def toJson (t : TableRecord) : Json :=
  .object [("inputs", t.inputs), ("outputs", t.outputs), ("parameters", t.parameters)]

def ofJson (j : Json) : Except DocumentError TableRecord := do
  let fields ← j.recordFields fieldNames
  return ⟨fieldOf fields "inputs", fieldOf fields "outputs", fieldOf fields "parameters"⟩

/-- The table of a record, whose parts have to be objects. -/
def table (t : TableRecord) : Except DocumentError IdentifierTable :=
  return ⟨← t.inputs.members, ← t.outputs.members, ← t.parameters.members⟩

end TableRecord

/-- An artifact as a document tells it. -/
structure ArtifactRecord where
  name : Json
  fingerprint : Json
  comment : Json
  library : Json
  sourceFile : Json
  description : Json
  categories : List Json
  inputs : List Fields
  parameters : List Fields
  outputs : List Fields
  variants : List VariantRecord
  outputTrees : OrderedMap String (DecisionTree Json)
  includeFilePaths : List Json
  additionalDefines : List Fields
  texCoordinateIndex : Json
  identifiers : TableRecord

/-- The record of an artifact. -/
def Artifact.record (a : Artifact) : ArtifactRecord :=
  { name := .string a.name
    fingerprint := .string a.fingerprint
    comment := .string a.comment
    library := .string a.library
    sourceFile := .string a.sourceFile
    description := .string a.description
    categories := a.categories.map .string
    inputs := a.inputs.map (·.fields)
    parameters := a.parameters.map (·.fields)
    outputs := a.outputs.map (·.fields)
    variants := a.variants.map (·.record)
    outputTrees := a.outputTrees.map fun p => (p.1, p.2.map .string)
    includeFilePaths := a.includeFilePaths.map .string
    additionalDefines := a.additionalDefines.map (·.fields)
    texCoordinateIndex := .optional .int a.texCoordinateIndex
    identifiers := a.identifiers.record }

namespace ArtifactRecord

def toJson (a : ArtifactRecord) : Json :=
  .object [("format_version", .int formatVersion), ("name", a.name),
    ("fingerprint", a.fingerprint), ("comment", a.comment), ("library", a.library),
    ("source_file", a.sourceFile), ("description", a.description),
    ("categories", .array a.categories), ("inputs", .array (a.inputs.map .object)),
    ("parameters", .array (a.parameters.map .object)),
    ("outputs", .array (a.outputs.map .object)),
    ("variants", .array (a.variants.map (·.toJson))),
    ("output_trees", .object (a.outputTrees.map fun p => (p.1, p.2.toJson))),
    ("include_file_paths", .array a.includeFilePaths),
    ("additional_defines", .array (a.additionalDefines.map .object)),
    ("tex_coordinate_index", a.texCoordinateIndex), ("identifiers", a.identifiers.toJson)]

/-- The trees of the outputs. -/
def treesOfJson (j : Json) : Except DocumentError (OrderedMap String (DecisionTree Json)) := do
  (← j.members).mapM fun p => (DecisionTree.ofJson p.2).map fun t => (p.1, t)

/-- The records of parts under a key. -/
def partsOf (j : Json) (key : String) (fields : List RecordField) :
    Except DocumentError (List Fields) :=
  (j.memberOr key (.array [])).elementsBy (recordFields fields)

def ofJson (j : Json) : Except DocumentError ArtifactRecord := do
  return { name := ← j.require "name"
           fingerprint := ← j.require "fingerprint"
           comment := ← j.require "comment"
           library := j.memberOr "library" (.string "")
           sourceFile := j.memberOr "source_file" (.string "")
           description := j.memberOr "description" (.string "")
           categories := ← (j.memberOr "categories" (.array [])).elements
           inputs := ← partsOf j "inputs" InputNode.fieldNames
           parameters := ← partsOf j "parameters" ParameterNode.fieldNames
           outputs := ← partsOf j "outputs" OutputNode.fieldNames
           variants := ← (j.memberOr "variants" (.array [])).elementsBy VariantRecord.ofJson
           outputTrees := ← treesOfJson (j.memberOr "output_trees" (.object []))
           includeFilePaths := ← (j.memberOr "include_file_paths" (.array [])).elements
           additionalDefines := ← partsOf j "additional_defines" Define.fieldNames
           texCoordinateIndex := j.memberOr "tex_coordinate_index" .null
           identifiers := ← TableRecord.ofJson (j.memberOr "identifiers" (.object [])) }

/-- Whether an earlier artifact was generated from the content with a fingerprint: its header tells
it. -/
def isCurrent (earlier : Option ArtifactRecord) (tag : String) : Except DocumentError Bool :=
  match earlier with
  | some a => a.comment.includes tag
  | none => .ok false

end ArtifactRecord

end ShaderGraph
