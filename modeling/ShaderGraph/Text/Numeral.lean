import ShaderGraph.Binary64.Text

/-!
# Numerals

A whole number is read and written in decimal digits, at most 4300 of them. A longer numeral is
refused, so that the time for one stays small.
-/

namespace ShaderGraph

/-- What is wrong with a numeral. -/
inductive NumeralError where
  | tooLong
deriving DecidableEq, Repr

namespace Numeral

/-- The most digits that a numeral has. -/
def longest : Nat := 4300

/-- The least number whose numeral would be too long. -/
def limit : Nat := Nat.pow 10 longest

/-- The number that ASCII digits spell. -/
def ofDigits (ds : List Char) : Except NumeralError Nat :=
  if longest < ds.length then .error .tooLong else .ok (Binary64.digitsValue ds)

/-- The numeral of a number. -/
def text? (i : Int) : Option String := if i.natAbs < limit then some (toString i) else none

end Numeral

end ShaderGraph
