import ShaderGraph.Binary64.Text
import ShaderGraph.Text.Blank
import ShaderGraph.Text.Digit

/-!
# Numbers from text

A number is spelled with decimal digits of any script, a point and an exponent, of which all but one
digit may be missing, or by the word for infinity or for no number. Blanks may stand around it.
-/

namespace ShaderGraph.Binary64

open Text

/-- Whether a minus sign stands at the head of a text, and what follows the sign, if there is one. -/
def sign (cs : List Char) : Bool × List Char :=
  match cs with
  | '-' :: r => (true, r)
  | '+' :: r => (false, r)
  | r => (false, r)

/-- A whole number with a sign. -/
def signed (negative : Bool) (n : Int) : Int := if negative then -n else n

/-- A digit of any script as an ASCII one, and a capital letter as a small one. -/
def asciiForm (c : Char) : Char :=
  match digitValue? c with
  | some d => Char.ofNat ('0'.toNat + d)
  | none => c.toLower

/-- The number that ASCII digits with a point and an exponent spell. -/
def decimal? (negative : Bool) (cs : List Char) : Option Binary64 :=
  let whole := cs.takeWhile isDigit
  let (fraction, r) := match cs.dropWhile isDigit with
    | '.' :: r => (r.takeWhile isDigit, r.dropWhile isDigit)
    | r => ([], r)
  if whole.isEmpty && fraction.isEmpty then none
  else
    match r with
    | [] => some (.ofDigits negative whole fraction 0)
    | 'e' :: r =>
      let (below, ds) := sign r
      if ds.isEmpty || !ds.all isDigit then none
      else some (.ofDigits negative whole fraction (signed below (digitsValue ds)))
    | _ => none

/-- The number that a text spells, its sign changed if it is `negative`. -/
def read? (negative : Bool) (cs : List Char) : Option Binary64 :=
  let (minus, r) := sign ((trimMargins cs).map asciiForm)
  let negative := negative != minus
  if r = "inf".toList ∨ r = "infinity".toList then some (.infinity negative)
  else if r = "nan".toList then some .nan
  else decimal? negative r

/-- A text without the underscores that stand between two digits. -/
def dropGaps (afterDigit : Bool) : List Char → List Char
  | [] => []
  | '_' :: c :: r =>
    if afterDigit && (digitValue? c).isSome then c :: dropGaps true r else '_' :: dropGaps false (c :: r)
  | c :: r => c :: dropGaps (digitValue? c).isSome r

/-- The number that a text spells, with underscores between digits. -/
def ofText? (text : String) : Option Binary64 := read? false (dropGaps false text.toList)

end ShaderGraph.Binary64
