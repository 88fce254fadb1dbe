import ShaderGraph.Text.Blank
import ShaderGraph.Text.Search

/-!
# Tooltips

A comment documents a pin in a line with `@param`, in any case of its letters, then blanks or tabs
and the name of the pin. The tooltip is the rest of that line. The first such line of a name counts.
-/

namespace ShaderGraph.Tooltip

open Text

/-- A blank or a tab. -/
def isGap (c : Char) : Bool := c == ' ' || c == '\t'

/-- What follows the word `param`, whatever the case of its letters. -/
def dropParam? (cs : List Char) : Option (List Char) :=
  dropLiteral? "param".toList ((cs.take 5).map Char.toLower ++ cs.drop 5)

/-- The name and the text that a tag at the head of a text documents. -/
def readTag? : List Char → Option (List Char × List Char)
  | '@' :: cs =>
    match dropParam? cs with
    | some (c :: r) =>
      if isGap c then
        let r := r.dropWhile isGap
        let name := r.takeWhile fun c => !isBlank c
        if name.isEmpty then none
        else
          let rest := (r.dropWhile fun c => !isBlank c).dropWhile isGap
          some (name, rest.takeWhile (· != '\n'))
      else none
    | _ => none
  | _ => none

/-- The tags of a comment, as the names and the texts that they document. Past a tag the rest of
its line, `inLine`, holds no other tag. -/
def tags (inLine : Bool) : List Char → List (List Char × List Char)
  | [] => []
  | c :: cs =>
    if inLine then tags (c != '\n') cs
    else
      match readTag? (c :: cs) with
      | some tag => tag :: tags true cs
      | none => tags false cs

/-- The text that a comment has for a name, empty without one. -/
def find (name comment : String) : String :=
  match (tags false comment.toList).find? fun t => t.1 = name.toList with
  | some t => String.ofList (trimChars t.2)
  | none => ""

end ShaderGraph.Tooltip
