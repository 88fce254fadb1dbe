import ShaderGraph.Yaml.Cursor
import ShaderGraph.Yaml.Scalar

/-!
# Dates in scalars

A date may have a time of the day with a fraction of up to six digits, and an offset from universal
time of less than a day.
-/

namespace ShaderGraph.Yaml.ScalarType.MomentText

open Binary64 (digitsValue)

/-- The number of the first six digits of a fraction. -/
def microsOf (fraction : List Char) : Nat :=
  digitsValue ((fraction ++ List.replicate 6 '0').take 6)

/-- The moment that some parts spell. -/
def moment (m : MomentText) : Moment :=
  { date := ⟨digitsValue m.year, digitsValue m.month, digitsValue m.day⟩
    time := m.time.map fun (h, min, s, f, o) =>
      ⟨digitsValue h, digitsValue min, digitsValue s, microsOf f, o⟩ }

/-- The moment that a scalar spells. -/
def read (content : String) : Except ReadError Moment :=
  match moment? true (dropLastBreak content.toList) with
  | none => .error (.noDate content)
  | some m => if m.moment.isValid then .ok m.moment else .error (.dateOutOfRange content)

end ShaderGraph.Yaml.ScalarType.MomentText
