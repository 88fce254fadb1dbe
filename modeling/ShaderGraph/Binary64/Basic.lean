/-!
# Double precision numbers

A number of IEEE 754 binary64 is its 64 bits. A finite one is a sign, a whole number and a power of
two, and a fraction of whole numbers is rounded to the nearest number, a tie going to the even
significand, by exact arithmetic. So two numbers are equal when their bits are, and reading a
decimal loses nothing before the one rounding.
-/

namespace ShaderGraph

/-- A double precision number, told apart from others by its bits alone. -/
structure Binary64 where
  /-- The sign, the biased exponent and the fraction, from the most significant bit down. -/
  bits : UInt64
deriving DecidableEq, Inhabited, Repr

namespace Binary64

/-- The numbers of significands below the first normal one, `2 ^ 52`. -/
def hidden : Nat := 4503599627370496

/-- The bits of positive infinity. -/
def infinityBits : Nat := 2047 * hidden

/-- A number from its sign and the bits below it, those of infinity when there are more. -/
def ofMagnitude (negative : Bool) (magnitude : Nat) : Binary64 :=
  ⟨UInt64.ofNat ((if negative then 2048 * hidden else 0) + min magnitude infinityBits)⟩

def zero : Binary64 := ⟨0⟩

def infinity (negative : Bool) : Binary64 := ofMagnitude negative infinityBits

/-- The quiet number that is none. -/
def nan : Binary64 := ⟨UInt64.ofNat (infinityBits + hidden / 2)⟩

/-- Whether the sign bit is set. -/
def isNegative (x : Binary64) : Bool := 2048 * hidden ≤ x.bits.toNat

/-- The bits below the sign. -/
def magnitude (x : Binary64) : Nat := x.bits.toNat % (2048 * hidden)

def isNan (x : Binary64) : Bool := infinityBits < x.magnitude

def isInfinite (x : Binary64) : Bool := x.magnitude == infinityBits

def isZero (x : Binary64) : Bool := x.magnitude == 0

/-- The whole number and the power of two whose product is the size of a finite number. -/
def parts (x : Binary64) : Nat × Int :=
  let biased := x.magnitude / hidden
  if biased = 0 then (x.magnitude, -1074)
  else (x.magnitude % hidden + hidden, (biased : Int) - 1075)

/-- The quotient rounded to the nearest whole number, a tie going to the even one. -/
def divRound (num den : Nat) : Nat :=
  let q := num / den
  let r := num % den
  if 2 * r < den then q else if den < 2 * r then q + 1 else q + q % 2

/-- The exponent of two that leaves a quotient a significand of 53 bits, or the least one. -/
def scale (num den : Nat) : Int :=
  let k : Int := (Nat.log2 num : Int) - Nat.log2 den
  let below := if 0 ≤ k then num < den * Nat.pow 2 k.toNat else num * Nat.pow 2 (-k).toNat < den
  max (if below then k - 53 else k - 52) (-1074)

/-- The number nearest to a quotient. -/
def ofRatio (negative : Bool) (num den : Nat) : Binary64 :=
  if num = 0 then ofMagnitude negative 0
  else
    let e := scale num den
    let m :=
      if 0 ≤ e then divRound num (den * Nat.pow 2 e.toNat)
      else divRound (num * Nat.pow 2 (-e).toNat) den
    ofMagnitude negative ((e + 1074).toNat * hidden + m)

/-- The number of decimal digits of a whole number, one for zero. -/
def digitCount (m : Nat) : Nat := (Nat.toDigits 10 m).length

/-- The number nearest to `m` times a power of ten. A power too large or too small to matter is
not computed. -/
def ofDecimal (negative : Bool) (m : Nat) (e : Int) : Binary64 :=
  if m = 0 then ofMagnitude negative 0
  else
    let top := e + digitCount m
    if 400 < top then infinity negative
    else if top < -400 then ofMagnitude negative 0
    else if 0 ≤ e then ofRatio negative (m * Nat.pow 10 e.toNat) 1
    else ofRatio negative m (Nat.pow 10 (-e).toNat)

/-- The number nearest to a whole number. -/
def ofInt (i : Int) : Binary64 := ofRatio (i < 0) i.natAbs 1

/-- Whether a number is the whole number `n`, both zeros being `0`. -/
def equalsNat (x : Binary64) (n : Nat) : Bool :=
  x == ofRatio false n 1 || (n == 0 && x.isZero)

/-- The whole number a finite number is, if it is one. -/
def toInt? (x : Binary64) : Option Int :=
  if infinityBits ≤ x.magnitude then none
  else
    let (m, e) := x.parts
    let sign : Int := if x.isNegative then -1 else 1
    if 0 ≤ e then some (sign * (m * Nat.pow 2 e.toNat : Nat))
    else
      let d := Nat.pow 2 (-e).toNat
      if m % d = 0 then some (sign * (m / d : Nat)) else none

/-- The whole number that a finite number has before its point. -/
def truncate? (x : Binary64) : Option Int :=
  if infinityBits ≤ x.magnitude then none
  else
    let (m, e) := x.parts
    let sign : Int := if x.isNegative then -1 else 1
    if 0 ≤ e then some (sign * (m * Nat.pow 2 e.toNat : Nat))
    else some (sign * (m / Nat.pow 2 (-e).toNat : Nat))

end Binary64

end ShaderGraph
