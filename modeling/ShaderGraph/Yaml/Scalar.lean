import ShaderGraph.Binary64.Text
import ShaderGraph.Text.Search
import ShaderGraph.Yaml.Basic

/-!
# Types of plain scalars

A scalar that is written without quotes has the type that its characters show: a truth value, a
number in one of several notations, a date, one of a few marks, or else a text. A text that looks
like another type therefore has to be quoted.
-/

namespace ShaderGraph.Yaml

open Text

/-- The type of a scalar. -/
inductive ScalarType where
  | null
  | bool
  | int
  | float
  | timestamp
  | merge
  | value
  /-- a lone indicator -/
  | indicator
  | text
deriving DecidableEq, Repr

namespace ScalarType

/-- The words for true and false, in lower case. -/
def truthWords : List (String × Bool) := [
  ("yes", true), ("no", false), ("true", true), ("false", false), ("on", true), ("off", false)]

/-- A word, the word with a capital letter and the word in capitals. -/
def casings (word : String) : List String := [word, word.capitalize, word.toUpper]

def isBool (s : String) : Bool := truthWords.any fun w => s ∈ casings w.1

def isNull (s : String) : Bool := s.isEmpty || s == "~" || s ∈ casings "null"

/-- A digit or an underscore. -/
def isDigitOrGap (c : Char) : Bool := isDigit c || c == '_'

/-- What follows a sign. -/
def dropSign : List Char → List Char
  | '-' :: cs => cs
  | '+' :: cs => cs
  | cs => cs

/-- One or two digits of a number below sixty. -/
def isSexagesimal : List Char → Bool
  | [d] => isDigit d
  | [t, d] => '0' ≤ t && t ≤ '5' && isDigit d
  | _ => false

/-- A digit that `first` accepts, then digits and underscores. -/
def isDigits (first : Char → Bool) : List Char → Bool
  | [] => false
  | c :: cs => first c && cs.all isDigitOrGap

/-- The digits of a base after its mark. -/
def isBased (p : Char → Bool) (cs : List Char) : Bool :=
  !cs.isEmpty && cs.all fun c => p c || c == '_'

def isBinaryDigit (c : Char) : Bool := c == '0' || c == '1'

def isOctalDigit (c : Char) : Bool := '0' ≤ c && c ≤ '7'

def isHexDigit (c : Char) : Bool := isDigit c || ('a' ≤ c && c ≤ 'f') || ('A' ≤ c && c ≤ 'F')

def isPositiveDigit (c : Char) : Bool := '1' ≤ c && c ≤ '9'

def isInt (cs : List Char) : Bool :=
  match dropSign cs with
  | '0' :: 'b' :: r => isBased isBinaryDigit r
  | '0' :: 'x' :: r => isBased isHexDigit r
  | '0' :: r => r.isEmpty || isBased isOctalDigit r
  | r =>
    match pieces ':' r with
    | [ds] => isDigits isPositiveDigit ds
    | ds :: rest => isDigits isPositiveDigit ds && rest.all isSexagesimal
    | [] => false

/-- An exponent with its sign, or nothing. -/
def isExponent : List Char → Bool
  | [] => true
  | e :: s :: ds => (e == 'e' || e == 'E') && (s == '-' || s == '+') && !ds.isEmpty && ds.all isDigit
  | _ => false

/-- Digits and an exponent, of which either may be missing. -/
def isFractionEnd (cs : List Char) : Bool := isExponent (cs.dropWhile isDigitOrGap)

def isFloat (cs : List Char) : Bool :=
  match cs with
  | '.' :: c :: r => (isDigit c && isFractionEnd r)
      || String.ofList (c :: r) ∈ ["inf", "Inf", "INF", "nan", "NaN", "NAN"]
  | _ =>
    let r := dropSign cs
    match r.takeWhile (· != '.'), r.dropWhile (· != '.') with
    | [], '.' :: t => String.ofList t ∈ ["inf", "Inf", "INF"]
    | whole, '.' :: t =>
      match pieces ':' whole with
      | [ds] => isDigits isDigit ds && isFractionEnd t
      | ds :: rest => isDigits isDigit ds && rest.all isSexagesimal && t.all isDigitOrGap
      | [] => false
    | _, _ => false

/-- So many digits and what follows them. -/
def digits? : Nat → List Char → Option (List Char × List Char)
  | 0, cs => some ([], cs)
  | n + 1, c :: cs => if isDigit c then (digits? n cs).map fun (ds, r) => (c :: ds, r) else none
  | _ + 1, [] => none

/-- One or two digits, as many as there are, and what follows them. -/
def oneOrTwo? (cs : List Char) : Option (List Char × List Char) :=
  match digits? 2 cs with
  | some found => some found
  | none => digits? 1 cs

/-- What follows a character. -/
def after? (c : Char) : List Char → Option (List Char)
  | d :: cs => if d = c then some cs else none
  | [] => none

/-- The parts of a date and of the time of the day, as they are written. -/
structure MomentText where
  year : List Char
  month : List Char
  day : List Char
  /-- The hour, the minute, the second, the digits after its point and the offset in minutes. -/
  time : Option (List Char × List Char × List Char × List Char × Option Int) := none

/-- The offset from universal time: a `Z`, or a sign, hours and minutes. -/
def offset? (cs : List Char) : Option (Option Int) :=
  let r := cs.dropWhile fun c => c == ' ' || c == '\t'
  match r with
  | [] => if cs.isEmpty then some none else none
  | ['Z'] => some (some 0)
  | s :: r =>
    if s == '-' || s == '+' then
      let sign : Int := if s == '-' then -1 else 1
      match oneOrTwo? r with
      | some (h, []) => some (some (sign * (Binary64.digitsValue h * 60 : Nat)))
      | some (h, ':' :: r) =>
        match digits? 2 r with
        | some (m, []) =>
          some (some (sign * (Binary64.digitsValue h * 60 + Binary64.digitsValue m : Nat)))
        | _ => none
      | _ => none
    else none

/-- The time of the day after its date. -/
def timeOfDay? (cs : List Char) : Option (List Char × List Char × List Char × List Char × Option Int) :=
  do
    let r ← match cs with
      | 'T' :: r | 't' :: r => some r
      | ' ' :: r | '\t' :: r => some (r.dropWhile fun c => c == ' ' || c == '\t')
      | _ => none
    let (h, r) ← oneOrTwo? r
    let r ← after? ':' r
    let (m, r) ← digits? 2 r
    let r ← after? ':' r
    let (s, r) ← digits? 2 r
    let (f, r) := match r with
      | '.' :: r => (r.takeWhile isDigit, r.dropWhile isDigit)
      | r => ([], r)
    let o ← offset? r
    return (h, m, s, f, o)

/-- The date, with or without a time, that a text spells. A date alone has two digits for the month
and for the day, unless it is `lenient`. -/
def moment? (lenient : Bool) (cs : List Char) : Option MomentText := do
  let (y, r) ← digits? 4 cs
  let r ← after? '-' r
  let (m, r) ← oneOrTwo? r
  let r ← after? '-' r
  let (d, r) ← oneOrTwo? r
  if r.isEmpty then
    if lenient || (m.length == 2 && d.length == 2) then return { year := y, month := m, day := d }
    else none
  else return { year := y, month := m, day := d, time := some (← timeOfDay? r) }

/-- A text without the line feed at its end, unless it is nothing else. -/
def dropLastBreak (cs : List Char) : List Char :=
  match cs.getLast? with
  | some '\n' => if cs.length = 1 then cs else cs.dropLast
  | _ => cs

/-- The type of a scalar without a tag. A line feed at its end makes no difference. -/
def ofPlain (text : String) : ScalarType :=
  let cs := dropLastBreak text.toList
  let s := String.ofList cs
  if isBool s then bool
  else if isFloat cs then float
  else if isInt cs then int
  else if s = "<<" then merge
  else if isNull s then null
  else if (moment? false cs).isSome then timestamp
  else if s = "=" then value
  else if s = "!" ∨ s = "&" ∨ s = "*" then indicator
  else ScalarType.text

end ScalarType

end ShaderGraph.Yaml
