/-!
# Pages

The text of a YAML document while it is written. A page knows how long its last line is, whether a
space separates what comes next from what is there, and whether only indentation stands on the line.
-/

namespace ShaderGraph.Yaml

/-- A text under construction. -/
structure Page where
  text : String := ""
  /-- The number of characters of the last line. -/
  column : Nat := 0
  /-- Whether what comes next needs no space before it. -/
  apart : Bool := true
  /-- Whether nothing but indentation and entry marks stands on the last line. -/
  fresh : Bool := true

namespace Page

/-- The length past which a line is broken. -/
def bestWidth : Nat := 80

/-- Whether the last line is too long. -/
def isFull (p : Page) : Bool := bestWidth < p.column

/-- The page with a text on its last line. -/
def put (p : Page) (s : String) : Page :=
  { p with text := p.text ++ s, column := p.column + s.length }

/-- The page with some characters on its last line. -/
def putChars (p : Page) (cs : List Char) : Page := p.put (String.ofList cs)

/-- The page with a new line. -/
def breakLine (p : Page) : Page := ⟨p.text.push '\n', 0, true, true⟩

/-- The page with its last line filled up to a column, a new line if it has reached further. -/
def indentTo (p : Page) (indent : Nat) : Page :=
  let p := if !p.fresh || indent < p.column || (p.column == indent && !p.apart)
    then p.breakLine else p
  if p.column < indent then
    { p.putChars (List.replicate (indent - p.column) ' ') with apart := true }
  else p

/-- The page with a mark, after a space if it needs one. `apart` says that what follows the mark
needs no space, and `entry` that the mark leaves a fresh line fresh. -/
def mark (p : Page) (s : String) (needsSpace : Bool) (apart entry : Bool := false) : Page :=
  let p := if p.apart || !needsSpace then p.put s else p.put (" " ++ s)
  { p with apart, fresh := p.fresh && entry }

/-- The page with its marks forgotten inside of a scalar. -/
def inScalar (p : Page) : Page := { p with apart := false, fresh := false }

end Page

end ShaderGraph.Yaml
