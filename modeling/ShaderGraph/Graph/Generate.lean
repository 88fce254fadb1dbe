import ShaderGraph.Graph.Code
import ShaderGraph.Graph.Description
import ShaderGraph.Graph.TexCoordinate

/-!
# Generating artifacts

The artifact of a function has a node for each pin of its signature, a code node for each assignment
of its bool inputs, and for each output a decision tree over these. Identifiers are taken over from
an earlier artifact for the names that keep their role, and drawn in the order of the pins for the
others, inputs and parameters before outputs.
-/

namespace ShaderGraph

/-- The role of an input. -/
def Pin.inputRole (p : Pin) : Role := if p.isExposed then .parameter else .input

namespace Signature

/-- The names of the inputs that have a role. -/
def inputNames (s : Signature) (r : Role) : List String :=
  (s.inputs.filter fun p => p.inputRole = r).map (·.name)

/-- The roles and names of all pins, in the order in which they are given identifiers. -/
def namedPins (s : Signature) : List (Role × String) :=
  s.inputs.map (fun p => (p.inputRole, p.name)) ++ s.outputs.map fun p => (.output, p.name)

/-- The identifiers of an earlier artifact for the names that keep their role. -/
def kept (s : Signature) : Option IdentifierTable → IdentifierTable
  | none => {}
  | some t =>
    t.restrict (s.inputNames .input) (s.outputs.map (·.name)) (s.inputNames .parameter)

/-- The identifiers of all pins. -/
def naming (s : Signature) (earlier : Option IdentifierTable) (supply : Supply) : Naming :=
  s.namedPins.foldl (fun n p => n.ensure p.1 p.2) ⟨s.kept earlier, supply⟩

end Signature

namespace IdentifierTable

/-- The identifier of a name that has one. -/
def idOf (t : IdentifierTable) (r : Role) (name : String) : Json := (t.get? r name).getD .null

end IdentifierTable

namespace Pin

/-- The components of the default value. -/
def defaultNumbers (p : Pin) : Option (List Number) :=
  p.defaultVector.map fun q => q.toList.map .real

/-- The text that says what the default value is. -/
def defaultLine (p : Pin) : String := "Default Value = " ++ p.defaultText

/-- The tooltip followed by the default value. -/
def describe (p : Pin) : String :=
  if !p.hasDefault then p.tooltip
  else if p.tooltip.isEmpty then p.defaultLine
  else p.tooltip ++ "\n" ++ p.defaultLine

/-- The input node of a pin. -/
def inputNode (p : Pin) (priority : Nat) (t : IdentifierTable) : InputNode :=
  { id := t.idOf .input p.name
    pinName := p.name
    displayName := if p.hasDefault then p.name ++ " ( = " ++ p.defaultText ++ ")" else p.name
    kind := p.kind.label
    description := p.describe
    sortPriority := priority
    previewValue := if p.hasDefault then p.defaultNumbers else none
    previewBool := if p.kind = .staticBool then some p.defaultBool else none }

/-- The parameter node of a pin. -/
def parameterNode (p : Pin) (t : IdentifierTable) : ParameterNode :=
  { id := t.idOf .parameter p.name
    parameterName := p.name
    kind := p.kind.label
    group := (OrderedMap.get? p.metadata categoryKey).getD ""
    defaultValue := p.defaultNumbers }

/-- The output node of a pin. -/
def outputNode (p : Pin) (priority : Nat) (t : IdentifierTable) : OutputNode :=
  { id := t.idOf .output p.name, name := p.name, description := p.tooltip, sortPriority := priority }

end Pin

namespace Signature

/-- The inputs that are not parameters. -/
def hiddenInputs (s : Signature) : List Pin := s.inputs.filter fun p => !p.isExposed

/-- The inputs that are parameters. -/
def exposedInputs (s : Signature) : List Pin := s.inputs.filter fun p => p.isExposed

/-- The bindings of every code node. -/
def bindings (s : Signature) (texCoordinate : Option Nat) : List CodeBinding :=
  (s.inputs.filter fun p => p.kind != .staticBool).map (fun p => ⟨p.bindingName, p.name⟩)
    ++ (texCoordinate.map fun n => ⟨TexCoordinate.bindingName, TexCoordinate.source n⟩).toList

/-- The names and types of the outputs of every code node. -/
def additionalOutputs (s : Signature) : List (String × String) :=
  s.outputs.filterMap fun p => p.outputType.map fun t => (p.name, t.label)

/-- The names of the bool inputs. -/
def boolNames (s : Signature) : List String := s.boolInputs.map (·.name)

end Signature

namespace Artifact

/-- The header of an artifact. -/
def header (context : GenerationContext) (fingerprint : String) : String :=
  "DO NOT MODIFY THIS\nAutogenerated from " ++ context.sourceFile ++ "\nLibrary "
    ++ context.libraryName ++ "\n" ++ fingerprint

/-- The code node with a number. -/
def variant (f : ShaderFunction) (s : Signature) (fingerprint : String)
    (context : GenerationContext) (texCoordinate : Option Nat) (index : Nat) : Variant :=
  let values := ShaderGraph.boolValues s.boolNames index
  { index
    boolValues := values
    code := Code.ofFunction f (Code.declarations s values) fingerprint context
    bindings := s.bindings texCoordinate
    additionalOutputs := s.additionalOutputs }

/-- The artifact of a function whose pins have these identifiers, and whose body reads texture
coordinates up to a number, if any. -/
def withIdentifiers (f : ShaderFunction) (s : Signature) (fingerprint : String)
    (context : GenerationContext) (t : IdentifierTable) (texCoordinate : Option Nat) : Artifact :=
  { name := f.name
    fingerprint
    comment := header context fingerprint
    library := context.libraryName
    sourceFile := context.sourceFile
    description := Description.ofComment f.comment
    categories := context.categories
    inputs := s.hiddenInputs.mapIdx fun i p => p.inputNode i t
    parameters := s.exposedInputs.map fun p => p.parameterNode t
    outputs := s.outputs.mapIdx fun i p => p.outputNode i t
    variants :=
      (List.range (Nat.pow 2 s.boolInputs.length)).map
        (variant f s fingerprint context texCoordinate)
    outputTrees := OrderedMap.ofPairs
      (s.outputs.map fun p => (p.name, DecisionTree.ofPins s.boolNames))
    includeFilePaths := context.includeFilePaths
    additionalDefines := context.additionalDefines
    texCoordinateIndex := texCoordinate.map Int.ofNat
    identifiers := t }

/-- The artifact of a function and what is left of the supply of identifiers. They are drawn even if
the number of a texture coordinate is too long. -/
def generate (f : ShaderFunction) (s : Signature) (fingerprint : String)
    (context : GenerationContext) (earlier : Option IdentifierTable) (supply : Supply) :
    Except NumeralError Artifact × Supply :=
  let n := s.naming earlier supply
  ((TexCoordinate.highest f.body).map (withIdentifiers f s fingerprint context n.table), n.supply)

end Artifact

end ShaderGraph
