import ShaderGraph.Text.Numeral
import ShaderGraph.Text.Search

/-!
# Texture coordinates

A body reads the texture coordinates of a material by number. The highest number that it reads
decides how many coordinates the material has to provide.
-/

namespace ShaderGraph.TexCoordinate

open Text

/-- What is written before the number. -/
def opening : List Char := "Parameters.TexCoords[".toList

/-- The numeral of the coordinates read at the head of a text. -/
def reference? (cs : List Char) : Option (List Char) :=
  match dropLiteral? opening cs with
  | none => none
  | some r =>
    match r.takeWhile isDigit, r.dropWhile isDigit with
    | [], _ => none
    | ds, ']' :: _ => some ds
    | _, _ => none

/-- The numerals of all coordinates that a text reads. -/
def references : List Char → List (List Char)
  | [] => []
  | c :: cs => (reference? (c :: cs)).toList ++ references cs

/-- The highest number of coordinates that a body reads. -/
def highest (body : String) : Except NumeralError (Option Nat) :=
  ((references body.toList).mapM Numeral.ofDigits).map (·.max?)

/-- The source of the binding that makes the material provide coordinates. -/
def source (n : Nat) : String := "TexCoord[" ++ toString n ++ "]"

/-- The name of that binding. -/
def bindingName : String := "DUMMY_COORDINATE_INPUT"

end ShaderGraph.TexCoordinate
