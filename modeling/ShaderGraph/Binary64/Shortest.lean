import ShaderGraph.Binary64.Basic

/-!
# The shortest decimal of a number

A finite number is written with the fewest decimal digits that read back as that number, and of
these with the digits nearest to it. The numbers that read back fill an interval around the number,
its ends included when the significand is even. For one digit, two digits and so on, the two
neighbours of the number on that decimal grid are tested by exact arithmetic: if a point of the grid
lies in the interval, so does one of the two.
-/

namespace ShaderGraph.Binary64

/-- A positive number and the numbers that read back as it, as fractions of one denominator. -/
structure Interval where
  low : Nat
  value : Nat
  high : Nat
  den : Nat
  /-- Whether the ends read back as the number. -/
  closed : Bool

/-- The interval of a number that is finite and not zero. Quarter steps make every end whole. -/
def interval (x : Binary64) : Interval :=
  let (m, e) := x.parts
  let down := if m = hidden ∧ hidden * 2 ≤ x.magnitude then 1 else 2
  let (up, den) := if 2 ≤ e then (Nat.pow 2 (e - 2).toNat, 1) else (1, Nat.pow 2 (2 - e).toNat)
  ⟨(4 * m - down) * up, 4 * m * up, (4 * m + 2) * up, den, m % 2 = 0⟩

namespace Interval

/-- Whether `d` times a power of ten lies in the interval. -/
def holds (i : Interval) (d : Nat) (p : Int) : Bool :=
  let n := if 0 ≤ p then d * Nat.pow 10 p.toNat * i.den else d * i.den
  let k := if 0 ≤ p then 1 else Nat.pow 10 (-p).toNat
  if i.closed then i.low * k ≤ n && n ≤ i.high * k else i.low * k < n && n < i.high * k

/-- The greatest power of ten that is at most the value. -/
def leading (i : Interval) : Int :=
  let guess : Int := (((Nat.log2 i.value : Int) - Nat.log2 i.den - 1) * 30103).fdiv 100000
  let fits (k : Int) : Bool :=
    if 0 ≤ k then Nat.pow 10 k.toNat * i.den ≤ i.value else i.den ≤ i.value * Nat.pow 10 (-k).toNat
  ([guess + 2, guess + 1, guess].find? fits).getD (guess - 1)

/-- The point of a decimal grid that lies in the interval and is nearest to the value, a tie going
to the even digit. -/
def nearest? (i : Interval) (p : Int) : Option Nat :=
  let num := if 0 ≤ p then i.value else i.value * Nat.pow 10 (-p).toNat
  let den := if 0 ≤ p then i.den * Nat.pow 10 p.toNat else i.den
  let d := num / den
  let twice := 2 * (num % den)
  let first := twice < den || (twice == den && d % 2 == 0)
  let (a, b) := if first then (d, d + 1) else (d + 1, d)
  if i.holds a p then some a else if i.holds b p then some b else none

/-- The first grid from `n` digits on with a point in the interval, and that point; seventeen
digits always do. -/
def search (i : Interval) (top : Int) : Nat → Nat → Nat × Int
  | 0, n => (i.value / i.den, top - n)
  | fuel + 1, n =>
    match i.nearest? (top - n) with
    | some d => (d, top - n)
    | none => search i top fuel (n + 1)

end Interval

/-- Zeros at the end of the digits, moved into the power of ten. -/
def stripZeros : Nat → Nat → Int → Nat × Int
  | 0, d, p => (d, p)
  | fuel + 1, d, p => if d ≠ 0 ∧ d % 10 = 0 then stripZeros fuel (d / 10) (p + 1) else (d, p)

/-- The digits of the shortest decimal of a finite number, and the power of ten of the last. -/
def shortest (x : Binary64) : Nat × Int :=
  if x.isZero then (0, 0)
  else
    let i := x.interval
    let (d, p) := i.search i.leading 18 0
    stripZeros 20 d p

end ShaderGraph.Binary64
