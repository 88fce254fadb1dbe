import ShaderGraph.Binary64.Shortest
import ShaderGraph.Text.Word

/-!
# Numbers as text

A number is written with the digits of its shortest decimal. It is positional when its first digit
stands between the fifth place after the point and the seventeenth before it, with a digit on both
sides of the point; otherwise one digit stands before the point and an exponent of at least two
digits with its sign follows.
-/

namespace ShaderGraph

/-- The texts that a format has for the numbers without digits. -/
structure SpecialNames where
  infinity : String
  nan : String

namespace Binary64

/-- `n` zeros. -/
def zeros (n : Nat) : String := String.ofList (List.replicate n '0')

/-- A finite number without its sign. -/
def sizeText (x : Binary64) : String :=
  let (d, p) := x.shortest
  let digits := toString d
  let first : Int := p + digits.length - 1
  if -4 ≤ first ∧ first < 16 then
    if 0 ≤ p then digits ++ zeros p.toNat ++ ".0"
    else if 0 ≤ first then
      let k := (first + 1).toNat
      String.ofList (digits.toList.take k) ++ "." ++ String.ofList (digits.toList.drop k)
    else "0." ++ zeros (-first - 1).toNat ++ digits
  else
    let rest := String.ofList (digits.toList.drop 1)
    let mantissa := String.ofList (digits.toList.take 1) ++ (if rest.isEmpty then "" else "." ++ rest)
    let size := toString first.natAbs
    mantissa ++ (if first < 0 then "e-" else "e+") ++ zeros (2 - size.length) ++ size

/-- A number in the notation of a format. -/
def toText (names : SpecialNames) (x : Binary64) : String :=
  if x.isNan then names.nan
  else (if x.isNegative then "-" else "") ++ (if x.isInfinite then names.infinity else x.sizeText)

/-- The value of a text of ASCII digits. -/
def digitsValue (cs : List Char) : Nat := cs.foldl (fun n c => 10 * n + (c.toNat - '0'.toNat)) 0

/-- The number that digits before and after a point spell, times a power of ten. -/
def ofDigits (negative : Bool) (whole fraction : List Char) (exponent : Int) : Binary64 :=
  ofDecimal negative (digitsValue (whole ++ fraction)) (exponent - fraction.length)

end Binary64

end ShaderGraph
