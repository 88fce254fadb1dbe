import ShaderGraph.Text.Blank

/-!
# Line breaks

Three notions of a line break meet in a library source. Files are read with universal line ends,
where a carriage return, alone or before a line feed, is a line feed. The scanner ends a line at a
line feed, a carriage return, a vertical tab or a form feed, once a carriage return before a line
feed has been dropped. A comment or a compiler log is cut into lines at every line boundary of
Unicode.
-/

namespace ShaderGraph.Text

/-- A text with each carriage return before a line feed dropped. -/
def joinCrLf : List Char → List Char
  | [] => []
  | '\r' :: '\n' :: cs => '\n' :: joinCrLf cs
  | c :: cs => c :: joinCrLf cs

/-- A text with each carriage return, alone or before a line feed, made a line feed. -/
def universalNewlines : List Char → List Char
  | [] => []
  | '\r' :: '\n' :: cs => '\n' :: universalNewlines cs
  | c :: cs => (if c == '\r' then '\n' else c) :: universalNewlines cs

/-- The characters that end a line for the scanner. -/
def isLineBreak (c : Char) : Bool := c == '\n' || c == '\r' || c == '\x0b' || c == '\x0c'

theorem isBlank_of_isLineBreak {c : Char} (h : isLineBreak c = true) : isBlank c = true := by
  simp only [isLineBreak, Bool.or_eq_true, beq_iff_eq] at h
  rcases h with ((rfl | rfl) | rfl) | rfl <;> decide

/-- The number of line breaks of a text. -/
def lineBreaks (cs : List Char) : Nat := cs.countP isLineBreak

/-- The characters that end a line of a comment or a log. -/
def isLineBoundary (c : Char) : Bool :=
  isLineBreak c || c == '\x1c' || c == '\x1d' || c == '\x1e' || c == '\x85'
    || c.toNat == 0x2028 || c.toNat == 0x2029

/-- The lines of a text, `line` being the start of the first in reverse: each is ended by a
boundary, a carriage return before a line feed counting once, or by the end of the text. -/
def linesFrom (line : List Char) : List Char → List (List Char)
  | [] => if line.isEmpty then [] else [line.reverse]
  | '\r' :: '\n' :: cs => line.reverse :: linesFrom [] cs
  | c :: cs =>
    if isLineBoundary c then line.reverse :: linesFrom [] cs else linesFrom (c :: line) cs

/-- The lines of a text, without what ends them. -/
def splitLines (s : String) : List String := (linesFrom [] s.toList).map String.ofList

end ShaderGraph.Text
