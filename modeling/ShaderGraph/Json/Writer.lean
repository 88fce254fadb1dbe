import ShaderGraph.Binary64.Text
import ShaderGraph.Json.Basic

/-!
# Writing JSON

A document is written in ASCII: any other character, and the delete character, is escaped, beyond
the basic plane as a surrogate pair. With an indent every item and member has a line of its own;
without one the document is one line.
-/

namespace ShaderGraph.Json

/-- A number as four hexadecimal digits after `\u`. -/
def unitEscape (n : Nat) : List Char :=
  '\\' :: 'u' :: [n / 4096 % 16, n / 256 % 16, n / 16 % 16, n % 16].map Nat.digitChar

/-- A character inside a text. -/
def escapeChar (c : Char) : List Char :=
  match c with
  | '"' => ['\\', '"']
  | '\\' => ['\\', '\\']
  | '\n' => ['\\', 'n']
  | '\r' => ['\\', 'r']
  | '\t' => ['\\', 't']
  | '\x0c' => ['\\', 'f']
  | '\x08' => ['\\', 'b']
  | c =>
    let n := c.toNat
    if 32 ≤ n ∧ n < 127 then [c]
    else if n < 0x10000 then unitEscape n
    else unitEscape (0xD800 + (n - 0x10000) / 0x400) ++ unitEscape (0xDC00 + (n - 0x10000) % 0x400)

/-- A text between quotes. -/
def quoted (s : String) : String := "\"" ++ String.ofList (s.toList.flatMap escapeChar) ++ "\""

/-- How numbers without digits are written. -/
def specialNames : SpecialNames := ⟨"Infinity", "NaN"⟩

/-- A number. -/
def numberText : Number → String
  | .whole i => toString i
  | .real x => x.toText specialNames

/-- How the parts of a document are set apart. -/
structure Layout where
  /-- The spaces of one level, if every part has a line of its own. -/
  indent : Option Nat
  /-- What stands between the parts on one line. -/
  comma : String
  colon : String

/-- One part a line, indented by two spaces a level. -/
def Layout.indented : Layout := ⟨some 2, ",", ": "⟩

/-- All on one line, without spaces. -/
def Layout.compact : Layout := ⟨none, ",", ":"⟩

/-- The break before a part at a level. -/
def Layout.lineStart (l : Layout) (level : Nat) : String :=
  match l.indent with
  | some n => "\n" ++ String.ofList (List.replicate (n * level) ' ')
  | none => ""

mutual

/-- A value at a level. -/
def write (l : Layout) (level : Nat) : Json → String
  | null => "null"
  | bool b => if b then "true" else "false"
  | number n => numberText n
  | string s => quoted s
  | array [] => "[]"
  | array (v :: vs) =>
    "[" ++ l.lineStart (level + 1) ++ write l (level + 1) v ++ writeItems l (level + 1) vs
      ++ l.lineStart level ++ "]"
  | object [] => "\x7b\x7d"
  | object ((k, v) :: ms) =>
    "\x7b" ++ l.lineStart (level + 1) ++ quoted k ++ l.colon ++ write l (level + 1) v
      ++ writeMembers l (level + 1) ms ++ l.lineStart level ++ "\x7d"

/-- The items after the first of an array. -/
def writeItems (l : Layout) (level : Nat) : List Json → String
  | [] => ""
  | v :: vs => l.comma ++ l.lineStart level ++ write l level v ++ writeItems l level vs

/-- The members after the first of an object. -/
def writeMembers (l : Layout) (level : Nat) : List (String × Json) → String
  | [] => ""
  | (k, v) :: ms =>
    l.comma ++ l.lineStart level ++ quoted k ++ l.colon ++ write l level v
      ++ writeMembers l level ms

end

/-- A document with one part a line. -/
def render (v : Json) : String := write .indented 0 v ++ "\n"

/-- A document on one line. -/
def renderLine (v : Json) : String := write .compact 0 v

end ShaderGraph.Json
