import ShaderGraph.Binary64.Arithmetic
import ShaderGraph.Binary64.Read
import ShaderGraph.Json.Reader
import ShaderGraph.Text.Numeral
import ShaderGraph.Yaml.Cursor
import ShaderGraph.Yaml.Scalar

/-!
# Numbers in scalars

A whole number is decimal, binary after `0b`, hexadecimal after `0x`, octal after another zero, or in
base sixty with colons between its digits. Underscores are dropped. A number with a point may have an
exponent, or digits in base sixty before the point.
-/

namespace ShaderGraph.Yaml.Number

open Text
open Binary64 (sign signed)

/-- The value of a digit, that of the letters included. -/
def digitOf? (c : Char) : Option Nat :=
  match digitValue? c with
  | some d => some d
  | none => Json.hexValue? c

/-- The letter that marks a base after a zero. -/
def baseMark : Nat → Char
  | 2 => 'b'
  | 8 => 'o'
  | _ => 'x'

/-- The digits after the mark of their base, if they have one. -/
def dropMark (base : Nat) (cs : List Char) : List Char :=
  match cs with
  | '0' :: m :: r => if base ≠ 10 ∧ m = baseMark base then r else cs
  | _ => cs

/-- The number that digits of a base spell; there is at least one, and of a decimal there are not too
many. -/
def digitsOf? (base : Nat) (cs : List Char) : Option Nat :=
  if cs.isEmpty || (base == 10 && Numeral.longest < cs.length) then none
  else cs.foldl (fun acc c => match acc, digitOf? c with
    | some n, some d => if d < base then some (n * base + d) else none
    | _, _ => none) (some 0)

/-- The whole number of a base that a text spells, with blanks around it. -/
def whole? (base : Nat) (cs : List Char) : Option Int :=
  let (negative, r) := sign ((trimMargins cs).map Binary64.asciiForm)
  (digitsOf? base (dropMark base r)).map fun n => signed negative n

/-- The number of digits in base sixty, the most significant first. -/
def sexagesimal (digits : List Int) : Int := digits.foldl (fun n d => n * 60 + d) 0

/-- The whole number that a scalar spells. -/
def readInt (content : String) : Except ReadError Int :=
  let cs := content.toList.filter (· != '_')
  let (negative, r) := sign cs
  let result : Option Int → Except ReadError Int
    | some n => .ok (signed negative n)
    | none => .error (.noNumber content)
  match r with
  | [] => .error .emptyNumber
  | ['0'] => .ok 0
  | '0' :: 'b' :: ds => result (whole? 2 ds)
  | '0' :: 'x' :: ds => result (whole? 16 ds)
  | '0' :: _ => result (whole? 8 r)
  | _ =>
    if r.contains ':' then result (((pieces ':' r).mapM (whole? 10)).map sexagesimal)
    else result (whole? 10 r)

/-- The number of digits in base sixty, the least significant first, after a sum of those before, of
which the next is to be taken `base` times. Every step is rounded. -/
def sexagesimalReal (sum : Binary64) (base : Nat) : List Binary64 → Except ReadError Binary64
  | [] => .ok sum
  | d :: ds =>
    match Binary64.ofInt? base with
    | none => .error .tooLarge
    | some b => sexagesimalReal (sum.add (d.mul b)) (base * 60) ds

/-- A scalar of a number with a point without underscores, in lower case, and whether it has a minus
sign; the sign is dropped. -/
def realForm (content : String) : Bool × List Char :=
  sign ((content.toList.filter (· != '_')).map Char.toLower)

/-- Whether a scalar is the name of the number that is none. -/
def isNanName (content : String) : Bool := (realForm content).2 == ".nan".toList

/-- The number that a scalar spells. -/
def readReal (content : String) : Except ReadError Binary64 :=
  let (negative, r) := realForm content
  if content.toList.all (· == '_') then .error .emptyNumber
  else if r = ".inf".toList then .ok (.infinity negative)
  else if r = ".nan".toList then .ok .nan
  else if r.contains ':' then
    match (pieces ':' r).mapM (Binary64.read? false) with
    | none => .error (.noNumber content)
    | some ds =>
      (sexagesimalReal .zero 1 ds.reverse).map fun x =>
        if negative then (Binary64.ofInt (-1)).mul x else x
  else
    match Binary64.read? negative r with
    | some x => .ok x
    | none => .error (.noNumber content)

end ShaderGraph.Yaml.Number
