import ShaderGraph.Binary64.Basic

/-!
# Sums and products

A sum or a product is the exact one, rounded once. Infinity less infinity and zero times infinity
are no numbers, and a sum of zero is positive unless both terms are negative.
-/

namespace ShaderGraph.Binary64

/-- A finite number as a fraction. -/
def fraction (x : Binary64) : Int × Nat :=
  let (m, e) := x.parts
  let n : Int := (m * Nat.pow 2 e.toNat : Nat)
  (if x.isNegative then -n else n, Nat.pow 2 (-e).toNat)

def isFinite (x : Binary64) : Bool := x.magnitude < infinityBits

/-- The product of two numbers. -/
def mul (x y : Binary64) : Binary64 :=
  let negative := x.isNegative != y.isNegative
  if x.isNan || y.isNan then nan
  else if x.isInfinite || y.isInfinite then
    if x.isZero || y.isZero then nan else infinity negative
  else
    let (a, b) := x.fraction
    let (c, d) := y.fraction
    ofRatio negative (a * c).natAbs (b * d)

/-- The sum of two numbers. -/
def add (x y : Binary64) : Binary64 :=
  if x.isNan || y.isNan then nan
  else if x.isInfinite then
    if y.isInfinite && x.isNegative != y.isNegative then nan else x
  else if y.isInfinite then y
  else
    let (a, b) := x.fraction
    let (c, d) := y.fraction
    let sum := a * d + c * b
    ofRatio (if sum = 0 then x.isNegative && y.isNegative else sum < 0) sum.natAbs (b * d)

/-- The number nearest to a whole number, unless that is too large. -/
def ofInt? (i : Int) : Option Binary64 :=
  let x := ofInt i
  if x.isInfinite then none else some x

end ShaderGraph.Binary64
