/-!
# Styles in text

A terminal is told how to show a text by sequences in it: an escape character and a bracket, then
digits, semicolons and question marks, and a letter. A text that is not for a screen goes without
them.
-/

namespace ShaderGraph.Text

/-- Whether a character may stand between the bracket and the letter of a sequence. -/
def isStyleArgument (c : Char) : Bool := c.isDigit || c == ';' || c == '?'

/-- The number of characters of the sequence at the head of a text. -/
def styleLength? : List Char → Option Nat
  | '\x1b' :: '[' :: cs =>
    match cs.dropWhile isStyleArgument with
    | c :: _ => if c.isAlpha then some ((cs.takeWhile isStyleArgument).length + 3) else none
    | [] => none
  | _ => none

/-- A text without sequences, the first `n` characters of which belong to one. -/
def dropStyles : Nat → List Char → List Char
  | _, [] => []
  | n + 1, _ :: cs => dropStyles n cs
  | 0, c :: cs =>
    match styleLength? (c :: cs) with
    | some n => dropStyles (n - 1) cs
    | none => c :: dropStyles 0 cs

/-- A text without the sequences that style it. -/
def withoutStyles (s : String) : String := String.ofList (dropStyles 0 s.toList)

theorem dropStyles_of_no_escape (cs : List Char) (h : '\x1b' ∉ cs) : dropStyles 0 cs = cs := by
  induction cs with
  | nil => rfl
  | cons c cs ih =>
    simp only [List.mem_cons, not_or] at h
    have : styleLength? (c :: cs) = none := by
      rw [styleLength?]
      intro _ he
      simp only [List.cons.injEq] at he
      exact h.1 he.1.symm
    rw [dropStyles, this, ih h.2]

end ShaderGraph.Text
