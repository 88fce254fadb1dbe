import ShaderGraph.Pin.Argument
import ShaderGraph.Source.Function

/-!
# Signatures

The signature of a function is the pins of its arguments, inputs and outputs apart, each in the
order of the arguments. A function has a signature when it returns nothing and every argument
resolves.
-/

namespace ShaderGraph

/-- The pins of a function. -/
structure Signature where
  inputs : List Pin := []
  outputs : List Pin := []
  /-- The declarations that put matrices together. -/
  declarations : String := ""
deriving DecidableEq, Repr, Inhabited

namespace Signature

/-- The inputs that choose between variants. -/
def boolInputs (s : Signature) : List Pin := s.inputs.filter fun p => p.kind == .staticBool

/-- A signature with the pins of one more argument. -/
def extend (s : Signature) (r : Resolution) : Signature :=
  { inputs := s.inputs ++ r.pins.filter fun p => !p.isOutput
    outputs := s.outputs ++ r.pins.filter fun p => p.isOutput
    declarations := s.declarations ++ r.declaration }

/-- A signature with the pins of arguments to come. -/
def extendAll (s : Signature) (comment : String) : List String → Except PinError Signature
  | [] => .ok s
  | raw :: rest =>
    match resolveArgument raw comment with
    | .error e => .error e
    | .ok r => (s.extend r).extendAll comment rest

end Signature

/-- The signature of a function. -/
def ShaderFunction.signature (f : ShaderFunction) : Except PinError Signature :=
  if f.returnType = "void" then Signature.extendAll {} f.comment f.arguments
  else .error .returnType

end ShaderGraph
