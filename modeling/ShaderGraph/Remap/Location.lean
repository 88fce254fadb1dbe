import ShaderGraph.Text.Numeral
import ShaderGraph.Text.Search
import ShaderGraph.Text.Word

/-!
# Locations in compiler messages

After the path of a file, a message says where the error is: `(line,column)` or
`(line,column-column)`, or else `(line): ` with perhaps a column in parentheses. The first place of
the message that has one of these forms counts, the forms with a comma before the others, and what
follows it up to the end of its line is the rest of the message.
-/

namespace ShaderGraph.Remap

open Text

/-- A location as it is written, with what follows it. A part that is not written is empty. -/
structure Location where
  line : List Char
  first : List Char
  last : List Char
  rest : List Char
deriving DecidableEq, Repr

/-- The digits at the head of a text, and what follows them. -/
def digits (cs : List Char) : List Char × List Char := (cs.takeWhile isDigit, cs.dropWhile isDigit)

/-- The text up to the end of its line. -/
def lineOf (cs : List Char) : List Char := cs.takeWhile (· != '\n')

/-- `(line,column)` or `(line,column-column)` at the head of a text. -/
def columns? : List Char → Option Location
  | '(' :: cs =>
    match digits cs with
    | (line, ',' :: cs) =>
      match digits cs with
      | (first, ')' :: cs) => some ⟨line, first, [], lineOf cs⟩
      | (first, '-' :: cs) =>
        match digits cs with
        | (last, ')' :: cs) => some ⟨line, first, last, lineOf cs⟩
        | _ => none
      | _ => none
    | _ => none
  | _ => none

/-- A column in parentheses, if the text starts with one, and what follows. -/
def column (cs : List Char) : List Char × List Char :=
  match cs with
  | '(' :: t =>
    match digits t with
    | (first, ')' :: t) => (first, t)
    | _ => ([], cs)
  | _ => ([], cs)

/-- `(line): ` at the head of a text, perhaps with a column. -/
def lineOnly? : List Char → Option Location
  | '(' :: cs =>
    match digits cs with
    | (line, ')' :: ':' :: ' ' :: cs) => some ⟨line, (column cs).1, [], lineOf (column cs).2⟩
    | _ => none
  | _ => none

/-- What `read?` finds at the first place where it finds something. -/
def search? {α : Type} (read? : List Char → Option α) : List Char → Option α
  | [] => read? []
  | c :: cs =>
    match read? (c :: cs) with
    | some a => some a
    | none => search? read? cs

/-- The location in a text. -/
def location? (cs : List Char) : Option Location :=
  match search? columns? cs with
  | some l => some l
  | none => search? lineOnly? cs

/-- The number that some digits spell, if there are any. -/
def number : List Char → Except NumeralError (Option Nat)
  | [] => .ok none
  | d :: ds => (Numeral.ofDigits (d :: ds)).map some

end ShaderGraph.Remap
