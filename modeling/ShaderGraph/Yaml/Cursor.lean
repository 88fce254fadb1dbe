import ShaderGraph.Text.Word
import ShaderGraph.Yaml.Basic

/-!
# Places in a YAML text

A reader moves over the text one character at a time and keeps count of lines and columns, since
indentation carries meaning. Lines end at line feeds, next lines and the two Unicode separators; a
byte order mark takes no column.
-/

namespace ShaderGraph.Yaml

/-- Why a text holds no value. -/
inductive ReadError where
  /-- the text breaks the rules of the notation, in a line if that is known -/
  | malformed (problem : String) (line : Option Nat)
  /-- an escape names no character -/
  | noCharacter (code : Nat)
  /-- a scalar of a number type spells none -/
  | noNumber (text : String)
  /-- a scalar of a number type has no digits at all -/
  | emptyNumber
  /-- a scalar of the truth type is no word for a truth value -/
  | noTruthValue (text : String)
  /-- a scalar of the date type does not have the form of a date -/
  | noDate (text : String)
  /-- a date that no calendar has -/
  | dateOutOfRange (text : String)
  /-- a date is spelled by a collection -/
  | dateInParts
  /-- a number in base sixty has too many digits -/
  | tooLarge
  /-- a number has no numeral -/
  | unshownNumber
  /-- collections stand too deep inside of each other -/
  | tooDeep
deriving DecidableEq, Repr

namespace ReadError

/-- What is wrong with a text. -/
def text : ReadError → String
  | malformed problem (some line) => problem ++ " in line " ++ toString (line + 1)
  | malformed problem none => problem
  | noCharacter code => "no character has the number " ++ toString code
  | noNumber s => "invalid number: " ++ s
  | emptyNumber => "number without digits"
  | noTruthValue s => "invalid truth value: " ++ s
  | noDate s => "invalid date: " ++ s
  | dateOutOfRange s => "date out of range: " ++ s
  | dateInParts => "a date is no collection"
  | tooLarge => "number too large"
  | unshownNumber => "number with too many digits"
  | tooDeep => "nesting too deep"

end ReadError

/-- The characters that end a line. -/
def isBreak (c : Char) : Bool :=
  c == '\n' || c == '\x85' || c.toNat == 0x2028 || c.toNat == 0x2029

/-- The text of a line end: all but the Unicode separators count as a line feed. -/
def breakText (c : Char) : Char := if c == '\x85' then '\n' else c

/-- Whether a blank or the end of the text comes next. -/
def isGapNext : List Char → Bool
  | [] => true
  | c :: _ => c == ' ' || c == '\t' || isBreak c

/-- Whether a space, a line end or the end of the text comes next. -/
def isSpaceNext : List Char → Bool
  | [] => true
  | c :: _ => c == ' ' || isBreak c

/-- Whether a line end or the end of the text comes next. -/
def isBreakNext : List Char → Bool
  | [] => true
  | c :: _ => isBreak c

/-- Whether a given character comes next. -/
def isNext (c : Char) : List Char → Bool
  | [] => false
  | d :: _ => d == c

/-- A place in a text: what follows, and the characters, lines and columns before it. -/
structure Cursor where
  rest : List Char
  index : Nat := 0
  line : Nat := 0
  column : Nat := 0
deriving Repr, Inhabited

namespace Cursor

/-- The place after the next character. -/
def next (c : Cursor) : Cursor :=
  match c.rest with
  | [] => c
  | d :: rest =>
    if isBreak d then ⟨rest, c.index + 1, c.line + 1, 0⟩
    else ⟨rest, c.index + 1, c.line, if d == '\ufeff' then c.column else c.column + 1⟩

/-- The place after so many characters. -/
def skip (c : Cursor) : Nat → Cursor
  | 0 => c
  | n + 1 => c.next.skip n

/-- The characters up to the first that `p` refuses, and the place after them. -/
def takeWhile (p : Char → Bool) (c : Cursor) : List Char × Cursor :=
  let cs := c.rest.takeWhile p
  (cs, c.skip cs.length)

/-- The place after the characters that `p` accepts. -/
def dropWhile (p : Char → Bool) (c : Cursor) : Cursor := (c.takeWhile p).2

/-- The place after spaces. -/
def dropSpaces (c : Cursor) : Cursor := c.dropWhile (· == ' ')

/-- The place at the end of the line. -/
def dropLine (c : Cursor) : Cursor := c.dropWhile fun d => !isBreak d

/-- The line end that comes next, if one does, and the place after it. -/
def lineEnd (c : Cursor) : List Char × Cursor :=
  match c.rest with
  | d :: _ => if isBreak d then ([breakText d], c.next) else ([], c)
  | [] => ([], c)

/-- Whether a line that separates documents starts here. -/
def atSeparator (c : Cursor) : Bool :=
  match c.rest with
  | '-' :: '-' :: '-' :: r => isGapNext r
  | '.' :: '.' :: '.' :: r => isGapNext r
  | _ => false

/-- A fault at a place. -/
def fail {α : Type} (c : Cursor) (problem : String) : Except ReadError α :=
  .error (.malformed problem (some c.line))

/-- The place after spaces and a comment up to the next line, when nothing else is there. -/
def endLine (c : Cursor) : Except ReadError Cursor :=
  let c := c.dropSpaces
  let c := if isNext '#' c.rest then c.dropLine else c
  if isBreakNext c.rest then .ok c.lineEnd.2 else c.fail "expected a comment or a line break"

end Cursor

end ShaderGraph.Yaml
