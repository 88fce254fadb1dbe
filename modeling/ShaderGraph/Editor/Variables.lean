import ShaderGraph.Text.Word

/-!
# Environment variables in a text

A variable is a word between percent signs. It stands for its value, or for nothing when it is not
set; a percent sign that starts no variable counts as itself. Values are not looked at again.
-/

namespace ShaderGraph.Variables

open Text

/-- A part of a text. -/
inductive Part where
  | char (c : Char)
  | variable (name : String)
deriving DecidableEq, Repr

/-- The variable at the head of a text, and what follows it. -/
def reference? : List Char → Option (String × List Char)
  | '%' :: cs =>
    match word? cs with
    | some (name, '%' :: rest) => some (String.ofList name, rest)
    | _ => none
  | _ => none

theorem reference?_length_lt {cs rest : List Char} {name : String}
    (h : reference? cs = some (name, rest)) : rest.length < cs.length := by
  unfold reference? at h
  split at h
  · split at h
    · rename_i cs w r hw
      have := word?_length_lt hw
      cases h
      simp only [List.length_cons] at *
      omega
    · cases h
  · cases h

/-- The parts of a text, in order. -/
def parts : List Char → List Part
  | [] => []
  | c :: cs =>
    match _h : reference? (c :: cs) with
    | some (name, rest) => .variable name :: parts rest
    | none => .char c :: parts cs
termination_by cs => cs.length
decreasing_by
  · exact reference?_length_lt _h
  · simp

/-- The text of a part, `value?` giving the values of the variables. -/
def Part.expand {m : Type → Type} [Monad m] (value? : String → m (Option String)) :
    Part → m String
  | .char c => pure c.toString
  | .variable name => do return (← value? name).getD ""

/-- A text with the values of its variables. -/
def expand {m : Type → Type} [Monad m] (value? : String → m (Option String)) (text : String) :
    m String := do
  return String.join (← (parts text.toList).mapM (Part.expand value?))

end ShaderGraph.Variables
