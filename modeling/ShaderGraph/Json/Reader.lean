import ShaderGraph.Json.Basic
import ShaderGraph.Text.Numeral

/-!
# Reading JSON

A document is one value with blanks around it. Besides the numbers of the standard, `NaN`,
`Infinity` and `-Infinity` are read. Of members with one key the last value counts, in the place of
the first. A text holds no control characters; two escapes that make up a surrogate pair are one
character, and a lone surrogate is the replacement character. A whole number has no more digits than
a numeral may have, and arrays and objects stand inside of each other only so deep.
-/

namespace ShaderGraph.Json

/-- Why a text is no document. -/
inductive ReadError where
  | malformed
  /-- a whole number has too many digits -/
  | longNumeral
  /-- arrays and objects stand too deep inside of each other -/
  | tooDeep
deriving DecidableEq, Repr

/-- What is read at the head of a text, and what follows it. -/
abbrev Reading (α : Type) := Except ReadError (α × List Char)

/-- How deep arrays and objects may stand inside of each other. -/
def deepest : Nat := 980

/-- The blanks between the parts of a document. -/
def isGap (c : Char) : Bool := c == ' ' || c == '\t' || c == '\n' || c == '\r'

def dropGaps (cs : List Char) : List Char := cs.dropWhile isGap

/-- The value of a hexadecimal digit. -/
def hexValue? (c : Char) : Option Nat :=
  if '0' ≤ c ∧ c ≤ '9' then some (c.toNat - '0'.toNat)
  else if 'a' ≤ c ∧ c ≤ 'f' then some (c.toNat - 'a'.toNat + 10)
  else if 'A' ≤ c ∧ c ≤ 'F' then some (c.toNat - 'A'.toNat + 10)
  else none

/-- The number that four hexadecimal digits spell, and what follows them. -/
def readUnit? : List Char → Option (Nat × List Char)
  | a :: b :: c :: d :: r =>
    match hexValue? a, hexValue? b, hexValue? c, hexValue? d with
    | some a, some b, some c, some d => some (((a * 16 + b) * 16 + c) * 16 + d, r)
    | _, _, _, _ => none
  | _ => none

/-- The character of a number, that of replacement for a surrogate. -/
def charOf (n : Nat) : Char := if 0xD800 ≤ n ∧ n < 0xE000 then '\ufffd' else Char.ofNat n

/-- The character after `\u`, and what follows it. -/
def readEscape? (cs : List Char) : Option (Char × List Char) :=
  match readUnit? cs with
  | none => none
  | some (high, r) =>
    if 0xD800 ≤ high ∧ high < 0xDC00 then
      match r with
      | '\\' :: 'u' :: t =>
        match readUnit? t with
        | some (low, t) =>
          if 0xDC00 ≤ low ∧ low < 0xE000 then
            some (Char.ofNat (0x10000 + (high - 0xD800) * 0x400 + (low - 0xDC00)), t)
          else some (charOf high, r)
        | none => some (charOf high, r)
      | _ => some (charOf high, r)
    else some (charOf high, r)

/-- The characters that a backslash and a letter stand for. -/
def shortEscape? : Char → Option Char
  | '"' => some '"'
  | '\\' => some '\\'
  | '/' => some '/'
  | 'b' => some '\x08'
  | 'f' => some '\x0c'
  | 'n' => some '\n'
  | 'r' => some '\r'
  | 't' => some '\t'
  | _ => none

/-- The text up to the closing quote, `text` being what is read of it in reverse, and what follows
the quote. -/
def readText? : Nat → List Char → List Char → Option (String × List Char)
  | 0, _, _ => none
  | fuel + 1, text, cs =>
    match cs with
    | '"' :: r => some (String.ofList text.reverse, r)
    | '\\' :: 'u' :: r =>
      match readEscape? r with
      | some (c, r) => readText? fuel (c :: text) r
      | none => none
    | '\\' :: c :: r =>
      match shortEscape? c with
      | some c => readText? fuel (c :: text) r
      | none => none
    | c :: r => if c = '\\' ∨ c.toNat < 32 then none else readText? fuel (c :: text) r
    | [] => none

/-- The exponent at the head of a text, and what follows it. -/
def readExponent? : List Char → Option (Int × List Char)
  | e :: r =>
    if e = 'e' ∨ e = 'E' then
      let (sign, r) : Int × List Char := match r with
        | '-' :: r => (-1, r)
        | '+' :: r => (1, r)
        | r => (1, r)
      match r.takeWhile Text.isDigit with
      | [] => none
      | ds => some (sign * Binary64.digitsValue ds, r.dropWhile Text.isDigit)
    else none
  | [] => none

/-- The digits after a point, and what follows them. -/
def readFraction? : List Char → Option (List Char × List Char)
  | '.' :: r =>
    match r.takeWhile Text.isDigit with
    | [] => none
    | ds => some (ds, r.dropWhile Text.isDigit)
  | _ => none

/-- The digits of a whole number: a zero stands alone. -/
def readWhole? : List Char → Option (List Char × List Char)
  | '0' :: r => some (['0'], r)
  | cs =>
    match cs.takeWhile Text.isDigit with
    | [] => none
    | ds => some (ds, cs.dropWhile Text.isDigit)

/-- The number at the head of a text, and what follows it. -/
def readNumber (negative : Bool) (cs : List Char) : Reading Json :=
  match readWhole? cs with
  | none => .error .malformed
  | some (whole, r) =>
    match readFraction? r, readExponent? r with
    | none, none =>
      match Numeral.ofDigits whole with
      | .error _ => .error .longNumeral
      | .ok n => .ok (int (if negative then -n else n), r)
    | none, some (e, r) => .ok (number (.real (.ofDigits negative whole [] e)), r)
    | some (fraction, r), _ =>
      match readExponent? r with
      | none => .ok (number (.real (.ofDigits negative whole fraction 0)), r)
      | some (e, r) => .ok (number (.real (.ofDigits negative whole fraction e)), r)

/-- The values that are spelled as words. -/
def words : List (List Char × Json) := [
  ("null".toList, null), ("true".toList, bool true), ("false".toList, bool false),
  ("NaN".toList, number (.real .nan)), ("Infinity".toList, number (.real (.infinity false))),
  ("-Infinity".toList, number (.real (.infinity true)))]

/-- The word at the head of a text, and what follows it. -/
def readWord? (cs : List Char) : Option (Json × List Char) :=
  (words.find? fun w => w.1.isPrefixOf cs).map fun w => (w.2, cs.drop w.1.length)

/-- A value without parts at the head of a text, and what follows it. -/
def readScalar (cs : List Char) : Reading Json :=
  match cs with
  | '"' :: r =>
    match readText? (r.length + 1) [] r with
    | some (s, r) => .ok (string s, r)
    | none => .error .malformed
  | _ =>
    match readWord? cs with
    | some found => .ok found
    | none =>
      match cs with
      | '-' :: r => readNumber true r
      | _ => readNumber false cs

mutual

/-- The value at the head of a text, inside of `depth` others, and what follows it. -/
def readValue : Nat → Nat → List Char → Reading Json
  | 0, _, _ => .error .malformed
  | fuel + 1, depth, cs =>
    match cs with
    | '[' :: r =>
      if deepest ≤ depth then .error .tooDeep
      else
        match dropGaps r with
        | ']' :: r => .ok (array [], r)
        | r => (readItems fuel (depth + 1) r).map fun (items, r) => (array items, r)
    | '{' :: r =>
      if deepest ≤ depth then .error .tooDeep
      else
        match dropGaps r with
        | '}' :: r => .ok (object [], r)
        | r => (readMembers fuel (depth + 1) r).map fun (ms, r) => (object (OrderedMap.ofPairs ms), r)
    | cs => readScalar cs

/-- The items of an array from the next one on, and what follows the array. -/
def readItems : Nat → Nat → List Char → Reading (List Json)
  | 0, _, _ => .error .malformed
  | fuel + 1, depth, cs =>
    match readValue fuel depth cs with
    | .error e => .error e
    | .ok (item, r) =>
      match dropGaps r with
      | ']' :: r => .ok ([item], r)
      | ',' :: r => (readItems fuel depth (dropGaps r)).map fun (items, r) => (item :: items, r)
      | _ => .error .malformed

/-- The members of an object from the next one on, and what follows the object. -/
def readMembers : Nat → Nat → List Char → Reading (List (String × Json))
  | 0, _, _ => .error .malformed
  | fuel + 1, depth, cs =>
    match cs with
    | '"' :: r =>
      match readText? (r.length + 1) [] r with
      | none => .error .malformed
      | some (key, r) =>
        match dropGaps r with
        | ':' :: r =>
          match readValue fuel depth (dropGaps r) with
          | .error e => .error e
          | .ok (value, r) =>
            match dropGaps r with
            | '}' :: r => .ok ([(key, value)], r)
            | ',' :: r =>
              (readMembers fuel depth (dropGaps r)).map fun (ms, r) => ((key, value) :: ms, r)
            | _ => .error .malformed
        | _ => .error .malformed
    | _ => .error .malformed

end

/-- The value of a document. -/
def parse (text : String) : Except ReadError Json :=
  let cs := dropGaps text.toList
  match readValue (2 * cs.length + 2) 0 cs with
  | .ok (v, r) => if dropGaps r = [] then .ok v else .error .malformed
  | .error e => .error e

end ShaderGraph.Json
