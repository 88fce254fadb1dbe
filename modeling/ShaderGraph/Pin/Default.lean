import ShaderGraph.Binary64.Text
import ShaderGraph.Pin.Basic
import ShaderGraph.Text.Blank
import ShaderGraph.Text.Search

/-!
# Default values

A default value is one literal, which all four components take, or a constructor of the type of the
pin with one literal for each of its components. A literal is a sign, digits with an optional point
and an optional `f`, with blanks around it and after its sign.
-/

namespace ShaderGraph

open Text

/-- The number of components of a type. -/
inductive Dimension where
  | one
  | two
  | three
  | four
deriving DecidableEq, Repr, Inhabited

namespace Dimension

def size : Dimension → Nat
  | one => 1
  | two => 2
  | three => 3
  | four => 4

/-- The name of the constructor of a type of vectors. -/
def constructor? : Dimension → Option (List Char)
  | one => none
  | two => some "float2".toList
  | three => some "float3".toList
  | four => some "float4".toList

def ofInt? : Int → Option Dimension
  | 1 => some one
  | 2 => some two
  | 3 => some three
  | 4 => some four
  | _ => none

/-- What is said of a number of components that no type has. -/
def refusal (n : Int) : String := "Invalid default value dimension: " ++ toString n

end Dimension

/-- A number as it is written: its sign and the digits before and after its point. -/
structure Literal where
  negative : Bool
  whole : List Char
  fraction : List Char
deriving DecidableEq, Repr

namespace Literal

/-- The number that a literal spells. -/
def value (l : Literal) : Binary64 := Binary64.ofDigits l.negative l.whole l.fraction 0

/-- The sign at the head of a text and what follows it and its blanks. -/
def readSign : List Char → Bool × List Char
  | '-' :: cs => (true, dropBlanks cs)
  | '+' :: cs => (false, dropBlanks cs)
  | cs => (false, cs)

/-- The digits before and after a point at the head of a text. One side may be empty, and so may
the point be missing after digits. -/
def readDigits? (cs : List Char) : Option (List Char × List Char × List Char) :=
  let whole := cs.takeWhile isDigit
  match cs.dropWhile isDigit with
  | '.' :: r =>
    let fraction := r.takeWhile isDigit
    if whole.isEmpty && fraction.isEmpty then none
    else some (whole, fraction, r.dropWhile isDigit)
  | r => if whole.isEmpty then none else some (whole, [], r)

/-- What follows an optional `f`. -/
def dropSuffix : List Char → List Char
  | 'f' :: cs => cs
  | cs => cs

/-- The literal at the head of a text, and what follows it and its blanks. -/
def read? (cs : List Char) : Option (Literal × List Char) :=
  let (negative, r) := readSign (dropBlanks cs)
  match readDigits? r with
  | some (whole, fraction, r) => some (⟨negative, whole, fraction⟩, dropBlanks (dropSuffix r))
  | none => none

/-- The literals at the head of a text, separated by commas, and what follows them. -/
def readList? : Nat → List Char → Option (List Literal × List Char)
  | 0, _ => none
  | 1, cs => (read? cs).map fun (l, r) => ([l], r)
  | n + 1, cs =>
    match read? cs with
    | some (l, ',' :: r) => (readList? n r).map fun (ls, r) => (l :: ls, r)
    | _ => none

end Literal

namespace Quad

/-- All four components equal. -/
def uniform (v : Binary64) : Quad := ⟨v, v, v, v⟩

/-- The components given, the others zero. -/
def ofList (vs : List Binary64) : Quad :=
  ⟨vs.getD 0 .zero, vs.getD 1 .zero, vs.getD 2 .zero, vs.getD 3 .zero⟩

/-- A text that is one literal. -/
def readScalar? (cs : List Char) : Option Quad :=
  match Literal.read? cs with
  | some (l, []) => some (uniform l.value)
  | _ => none

/-- A text that is a constructor with its literals. -/
def readConstructor? (d : Dimension) (cs : List Char) : Option Quad :=
  match d.constructor? with
  | none => none
  | some name =>
    match (dropLiteral? name (dropBlanks cs)).map dropBlanks with
    | some ('(' :: r) =>
      match Literal.readList? d.size r with
      | some (ls, ')' :: r) => if dropBlanks r = [] then some (ofList (ls.map (·.value))) else none
      | _ => none
    | _ => none

/-- The default value that a text spells for a type of so many components. -/
def read? (d : Dimension) (text : String) : Option Quad :=
  match readScalar? text.toList with
  | some q => some q
  | none => readConstructor? d text.toList

end Quad

end ShaderGraph
