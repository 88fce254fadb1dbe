import ShaderGraph.Text.Numeral
import ShaderGraph.Text.Printable
import ShaderGraph.Yaml.Basic

/-!
# Values as they show

A value of a configuration shows as text where an option takes any value, and in messages. Alone, a
text shows as it is; inside of a sequence or a mapping it stands between quotes, single ones unless
it holds single quotes and no double ones. A collection that stands inside of itself shows as dots
there. A value with a number that has no numeral does not show.
-/

namespace ShaderGraph.Yaml

open Text

/-- How numbers without digits show. -/
def displayNames : SpecialNames := ⟨"inf", "nan"⟩

/-- A number as so many hexadecimal digits, letters in lower case. -/
def lowerHex : Nat → Nat → List Char
  | 0, _ => []
  | k + 1, n => lowerHex k (n / 16) ++ [Nat.digitChar (n % 16)]

/-- The escape of a character that has one of its own between quotes. -/
def shortEscape? (quote c : Char) : Option (List Char) :=
  if c = quote ∨ c = '\\' then some ['\\', c]
  else if c = '\n' then some ['\\', 'n']
  else if c = '\r' then some ['\\', 'r']
  else if c = '\t' then some ['\\', 't']
  else none

/-- A character between quotes. -/
def showChar (quote c : Char) : List Char :=
  match shortEscape? quote c with
  | some e => e
  | none =>
    if isPrintable c then [c]
    else
      let n := c.toNat
      if n ≤ 0xFF then '\\' :: 'x' :: lowerHex 2 n
      else if n ≤ 0xFFFF then '\\' :: 'u' :: lowerHex 4 n
      else '\\' :: 'U' :: lowerHex 8 n

/-- A byte between quotes. -/
def showByte (quote : Char) (b : UInt8) : List Char :=
  let c := Char.ofNat b.toNat
  match shortEscape? quote c with
  | some e => e
  | none => if ' ' ≤ c ∧ c ≤ '~' then [c] else '\\' :: 'x' :: lowerHex 2 b.toNat

/-- The quote for a text: a single one unless there are single quotes and no double ones in it. -/
def quoteFor (cs : List Char) : Char := if '\'' ∈ cs ∧ '"' ∉ cs then '"' else '\''

/-- A text between quotes. -/
def showText (s : String) : String :=
  let quote := quoteFor s.toList
  String.ofList (quote :: s.toList.flatMap (showChar quote) ++ [quote])

/-- Bytes between quotes, after a letter that marks them. -/
def showBytes (bs : List UInt8) : String :=
  let quote := quoteFor (bs.map fun b => Char.ofNat b.toNat)
  String.ofList ('b' :: quote :: bs.flatMap (showByte quote) ++ [quote])

/-- What stands between the parts of a collection. -/
def joinParts (parts : List String) : String := ", ".intercalate parts

/-- A collection inside of itself. -/
def showAgain (isSequence : Bool) : String := if isSequence then "[...]" else "\x7b...\x7d"

mutual

/-- A value inside of another one. The knots with some labels are shown around it already. -/
def showWithin (around : List Nat) : Yaml → Option String
  | null => some "None"
  | bool b => some (if b then "True" else "False")
  | int i => Numeral.text? i
  | real x => some (x.toText displayNames)
  | text s => some (showText s)
  | bytes bs => some (showBytes bs)
  | moment m => some m.partsText
  | pair a b => do
    let a ← showWithin around a
    let b ← showWithin around b
    return "(" ++ joinParts [a, b] ++ ")"
  | sequence items => (showItems around items).map fun parts => "[" ++ joinParts parts ++ "]"
  | mapping entries =>
    (showEntries around entries).map fun parts => "\x7b" ++ joinParts parts ++ "\x7d"
  | setOf [] => some "set()"
  | setOf items => (showItems around items).map fun parts => "\x7b" ++ joinParts parts ++ "\x7d"
  | knot label body =>
    if label ∈ around then some (showAgain (body matches sequence _))
    else showWithin (label :: around) body
  | again _ isSequence => some (showAgain isSequence)

def showItems (around : List Nat) : List Yaml → Option (List String)
  | [] => some []
  | v :: vs => do
    let part ← showWithin around v
    return part :: (← showItems around vs)

def showEntries (around : List Nat) : List (Yaml × Yaml) → Option (List String)
  | [] => some []
  | (k, v) :: es => do
    let key ← showWithin around k
    let value ← showWithin around v
    return (key ++ ": " ++ value) :: (← showEntries around es)

end

/-- A value inside of another one. -/
def showInside (v : Yaml) : Option String := showWithin [] v

/-- A value alone. -/
def showAlone : Yaml → Option String
  | text s => some s
  | moment m => some m.text
  | v => v.showInside

end ShaderGraph.Yaml
