import ShaderGraph.Json.Basic
import ShaderGraph.Text.Blank
import ShaderGraph.Text.Digit
import ShaderGraph.Text.Numeral

/-!
# Whole numbers out of JSON values

A value stands for a whole number when it is a number, whose fraction is dropped, a truth value, or
a text of decimal digits of any script with an optional sign, blanks around it and single
underscores between digits.
-/

namespace ShaderGraph.Json

open Text

/-- Why a value stands for no whole number. -/
inductive IntegerError where
  | mistyped
  | notANumber
  | infinite
deriving DecidableEq, Repr

/-- The number of digits, of which single underscores may stand between any two. `after` says that
the character before was a digit. -/
def digitsFrom? (n : Nat) (after : Bool) : List Char → Option Nat
  | [] => if after then some n else none
  | c :: cs =>
    if c = '_' then if after then digitsFrom? n false cs else none
    else
      match digitValue? c with
      | some d => digitsFrom? (10 * n + d) true cs
      | none => none

/-- The number of digits, which are not too many. -/
def wholeOf? (cs : List Char) : Option Nat :=
  if Numeral.longest < (cs.filter (· != '_')).length then none else digitsFrom? 0 false cs

/-- The whole number that a text spells. -/
def integerOfText? (s : String) : Option Int :=
  match trimMargins s.toList with
  | '-' :: cs => (wholeOf? cs).map fun n => -(n : Int)
  | '+' :: cs => (wholeOf? cs).map Int.ofNat
  | cs => (wholeOf? cs).map Int.ofNat

/-- The whole number that a value stands for. -/
def toInteger : Json → Except IntegerError Int
  | number (.whole i) => .ok i
  | number (.real x) =>
    match x.truncate? with
    | some i => .ok i
    | none => if x.isNan then .error .notANumber else .error .infinite
  | bool b => .ok (if b then 1 else 0)
  | string s =>
    match integerOfText? s with
    | some i => .ok i
    | none => .error .notANumber
  | null | array _ | object _ => .error .mistyped

end ShaderGraph.Json
