import ShaderGraph.Pin.Basic
import ShaderGraph.Text.Blank
import ShaderGraph.Text.Word

/-!
# The spelling of an argument

An argument is written as metadata in square brackets, a qualifier, a type with an ignored template,
a name and a default value, of which only type and name have to be there. The metadata reaches up
to the last closing bracket after which the rest can still be read. A word is taken for a qualifier
first and for a type only when nothing else reads; blanks may stand for a missing type or name,
which are then empty.
-/

namespace ShaderGraph

open Text

/-- The parts of an argument as they are written. -/
structure Spelling where
  metadata : List Char := []
  qualifier : Qualifier := .plain
  typeName : List Char
  name : List Char
  /-- The default value without the blanks around it, empty without one. -/
  default : List Char := []
deriving DecidableEq, Repr

namespace Spelling

/-- What follows a template, a word in angle brackets, at the head of a text. -/
def dropTemplate? : List Char → Option (List Char)
  | '<' :: cs =>
    match word? cs with
    | some (_, '>' :: r) => some r
    | _ => none
  | _ => none

/-- The default value that a text holds, empty when the text is blank. -/
def readDefault? (cs : List Char) : Option (List Char) :=
  match dropBlanks cs with
  | [] => some []
  | '=' :: c :: r => some (trimChars (c :: r))
  | _ => none

/-- A type, blanks, a name and a default value, which make up a whole text. -/
def readTyped? (q : Qualifier) (cs : List Char) : Option Spelling :=
  let afterType := cs.dropWhile isWord
  let gap := (dropTemplate? (dropBlanks afterType)).getD afterType
  match gap with
  | [] => none
  | c :: _ =>
    if isBlank c then
      let r := dropBlanks gap
      (readDefault? (r.dropWhile isWord)).map fun d =>
        { qualifier := q, typeName := cs.takeWhile isWord, name := r.takeWhile isWord, default := d }
    else none

/-- An argument after a word that qualifies it, if it starts with that word and a blank. When
nothing reads after all the blanks, all but the first of them are read as a missing type. -/
def readAfter? (word : List Char) (q : Qualifier) (cs : List Char) : Option Spelling :=
  if word.isPrefixOf cs then
    match cs.drop word.length with
    | [] => none
    | c :: r =>
      if isBlank c then
        match readTyped? q (dropBlanks r) with
        | some s => some s
        | none => readTyped? q r
      else none
  else none

/-- An argument without its metadata. -/
def readQualified? (cs : List Char) : Option Spelling :=
  let start := dropBlanks cs
  match readAfter? "const".toList .const start with
  | some s => some s
  | none =>
    match readAfter? "out".toList .output start with
    | some s => some s
    | none =>
      match readTyped? .plain start with
      | some s => some s
      | none => readTyped? .plain cs

/-- An argument after its opening bracket, `before` being the text read of the metadata in
reverse: the last closing bracket counts after which the rest reads. -/
def readBracketed? (before : List Char) : List Char → Option Spelling
  | [] => none
  | c :: cs =>
    match readBracketed? (c :: before) cs with
    | some s => some s
    | none =>
      if c = ']' then (readQualified? cs).map fun s => { s with metadata := before.reverse }
      else none

/-- The parts of an argument, if it can be read. -/
def read? (cs : List Char) : Option Spelling :=
  match dropBlanks cs with
  | '[' :: r => readBracketed? [] r
  | _ => readQualified? cs

end Spelling

end ShaderGraph
