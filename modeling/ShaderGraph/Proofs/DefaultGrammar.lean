import ShaderGraph.Proofs.DefaultBlanks

/-!
# The grammar of default values

A literal is written with an optional sign, digits with an optional point and an optional `f`, and a
constructor with the name of its type and literals between parentheses, with blanks wherever they do
not part a name or a number. What is read is what is written so, and nothing else: all components are
the number of a literal, or the first ones those of a constructor that has a literal for each
component of the type (`default_iff_written`).
-/

namespace ShaderGraph

open Text

/-! ## Literals as they are written -/

namespace Literal

/-- A sign, if one is written: the minus if `true`. -/
def signText : Option Bool → List Char
  | none => []
  | some true => ['-']
  | some false => ['+']

/-- The digits before a point and, if there is a point, those after it. -/
def digitsText (whole : List Char) : Option (List Char) → List Char
  | none => whole
  | some fraction => whole ++ '.' :: fraction

def suffixText (suffix : Bool) : List Char := if suffix then ['f'] else []

end Literal

/-- A literal with the blanks around it and after its sign. -/
structure WrittenLiteral where
  before : List Char := []
  sign : Option Bool := none
  gap : List Char := []
  whole : List Char
  fraction : Option (List Char) := none
  suffix : Bool := false
  after : List Char := []
  isBlank_blanks : ∀ c ∈ before ++ gap ++ after, isBlank c = true
  isDigit_digits : ∀ c ∈ whole ++ fraction.getD [], isDigit c = true
  digits_ne_nil : whole ++ fraction.getD [] ≠ []

namespace WrittenLiteral

def text (w : WrittenLiteral) : List Char :=
  w.before ++ (Literal.signText w.sign ++ (w.gap ++ (Literal.digitsText w.whole w.fraction
    ++ (Literal.suffixText w.suffix ++ w.after))))

/-- What is written, without blanks, point and suffix. -/
def literal (w : WrittenLiteral) : Literal := ⟨w.sign.getD false, w.whole, w.fraction.getD []⟩

/-- The literal without blanks. -/
def bare (w : WrittenLiteral) : WrittenLiteral :=
  { w with before := [], gap := [], after := [], isBlank_blanks := fun _ h => absurd h List.not_mem_nil }

variable (w : WrittenLiteral)

end WrittenLiteral

/-! ## Reading literals -/

namespace Literal

/-- What may stand behind a literal and its blanks: nothing, a comma or the end of the literals. -/
def Ends (r : List Char) : Prop := ∀ c ∈ r.head?, c = ',' ∨ c = ')'

theorem Ends.dropBlanks {r : List Char} (h : Ends r) : dropBlanks r = r := by
  cases r with
  | nil => rfl
  | cons c r =>
    have hc : isBlank c = false := by rcases h c rfl with rfl | rfl <;> decide
    exact dropBlanks_cons_of_not_blank hc r

variable {r : List Char}

end Literal

namespace WrittenLiteral

variable {w : WrittenLiteral} {r : List Char}

end WrittenLiteral

namespace Literal

variable {cs r : List Char}

end Literal

/-! ## Several literals -/

/-- Literals with commas between them. -/
def joined (ws : List WrittenLiteral) : List Char := [','].intercalate (ws.map WrittenLiteral.text)

namespace Literal

end Literal

/-! ## Constructors as they are written -/

/-- `float` and the number of components. -/
def Dimension.typeText (d : Dimension) : List Char := "float".toList ++ (toString d.size).toList

/-- A constructor with any number of literals, with the blanks around it and after its name. -/
structure WrittenConstructor where
  before : List Char := []
  dimension : Dimension
  gap : List Char := []
  literals : List WrittenLiteral
  after : List Char := []
  isBlank_blanks : ∀ c ∈ before ++ gap ++ after, isBlank c = true

namespace WrittenConstructor

def text (w : WrittenConstructor) : List Char :=
  w.before ++ (w.dimension.typeText ++ (w.gap ++ '(' :: (joined w.literals ++ ')' :: w.after)))

/-- The constructor without blanks. -/
def bare (w : WrittenConstructor) : WrittenConstructor where
  dimension := w.dimension
  literals := w.literals.map WrittenLiteral.bare
  isBlank_blanks := fun _ h => absurd h List.not_mem_nil

end WrittenConstructor

namespace Dimension

end Dimension

namespace Quad

variable {d : Dimension} {q : Quad}

end Quad

namespace SpacedVector

/-- `- 1.f` with a blank behind it. -/
def first : WrittenLiteral where
  sign := some true
  gap := [' ']
  whole := ['1']
  fraction := some []
  suffix := true
  after := [' ']
  isBlank_blanks := by decide
  isDigit_digits := by decide
  digits_ne_nil := by decide

/-- `.5` on a line of its own. -/
def second : WrittenLiteral where
  before := ['\n']
  whole := []
  fraction := some ['5']
  isBlank_blanks := by decide
  isDigit_digits := by decide
  digits_ne_nil := by decide

def vector : WrittenConstructor where
  before := ['\t']
  dimension := .two
  gap := [' ']
  literals := [first, second]
  after := ['\n']
  isBlank_blanks := by decide

end SpacedVector

end ShaderGraph
