import ShaderGraph.Proofs.Balance
import ShaderGraph.Source.Function
import ShaderGraph.Text.Lines

/-!
# Functions whose parts can be told apart

A function can be written down and found again when its parts do not run into each other: the return
type ends at a blank and the name at a parenthesis, the commas between arguments are the only ones
outside of brackets, and the body closes its braces. These are also the functions that a scan finds.
-/

namespace ShaderGraph

open Text

/-- A text that is one argument: a comma in it is inside parentheses, or where square brackets are
open or were closed too often. -/
structure IsArgument (a : List Char) : Prop where
  parens : Balanced '(' ')' a
  commas : ∀ p, p ++ [','] <+: a → 0 < net '(' ')' p ∨ net '[' ']' p ≠ 0

/-- Texts that are the arguments of one list. The last one may leave square brackets open, and a
list of one blank text is none. -/
structure IsArgumentList (as : List (List Char)) : Prop where
  arguments : ∀ a ∈ as, IsArgument a
  brackets : ∀ a ∈ as.dropLast, net '[' ']' a = 0
  not_blank : as.length = 1 → ∀ a ∈ as, a.all isBlank = false

/-- A function whose parts can be told apart. -/
structure ShaderFunction.Legible (f : ShaderFunction) : Prop where
  opening : f.returnType.toList.head? ∉ [none, some '#', some '/', some '}']
  returnType : ∀ c ∈ f.returnType.toList, isBlank c = false
  name : ∀ c ∈ f.name.toList, isBlank c = false ∧ c ≠ '('
  arguments : IsArgumentList (f.arguments.map String.toList)
  body : Balanced '{' '}' f.body.toList

theorem isArgument_iff {a : List Char} :
    IsArgument a ↔ Balanced '(' ')' a ∧ ∀ p ∈ a.inits,
      p ++ [','] <+: a → 0 < net '(' ')' p ∨ net '[' ']' p ≠ 0 := by
  refine ⟨fun h => ⟨h.parens, fun p _ => h.commas p⟩, fun h => ⟨h.1, fun p hp => ?_⟩⟩
  exact h.2 p (List.mem_inits _ _ |>.2 ((List.prefix_append p [',']).trans hp)) hp

instance (a : List Char) : Decidable (IsArgument a) := decidable_of_iff' _ isArgument_iff

instance (as : List (List Char)) : Decidable (IsArgumentList as) :=
  decidable_of_iff ((∀ a ∈ as, IsArgument a) ∧ (∀ a ∈ as.dropLast, net '[' ']' a = 0)
      ∧ (as.length = 1 → ∀ a ∈ as, a.all isBlank = false))
    ⟨fun h => ⟨h.1, h.2.1, h.2.2⟩, fun h => ⟨h.arguments, h.brackets, h.not_blank⟩⟩

instance (f : ShaderFunction) : Decidable f.Legible :=
  decidable_of_iff (f.returnType.toList.head? ∉ [none, some '#', some '/', some '}']
      ∧ (∀ c ∈ f.returnType.toList, isBlank c = false)
      ∧ (∀ c ∈ f.name.toList, isBlank c = false ∧ c ≠ '(')
      ∧ IsArgumentList (f.arguments.map String.toList) ∧ Balanced '{' '}' f.body.toList)
    ⟨fun h => ⟨h.1, h.2.1, h.2.2.1, h.2.2.2.1, h.2.2.2.2⟩,
      fun h => ⟨h.opening, h.returnType, h.name, h.arguments, h.body⟩⟩

/-- The text of comment lines, each from its slash to a line feed. -/
def commentText (lines : List (List Char)) : List Char := lines.flatMap fun l => '/' :: l ++ ['\n']

/-- A text that is made of comment lines. -/
def IsComment (t : List Char) : Prop :=
  ∃ lines, (∀ l ∈ lines, ∀ c ∈ l, isLineBreak c = false) ∧ t = commentText lines

theorem commentText_append (ls ms : List (List Char)) :
    commentText (ls ++ ms) = commentText ls ++ commentText ms :=
  List.flatMap_append

theorem commentText_singleton (l : List Char) : commentText [l] = '/' :: l ++ ['\n'] :=
  List.flatMap_singleton _ _

theorem commentText_cons (l : List Char) (ls : List (List Char)) :
    commentText (l :: ls) = '/' :: (l ++ '\n' :: commentText ls) := by
  rw [commentText, List.flatMap_cons, List.append_assoc]
  rfl

theorem isComment_nil : IsComment [] := ⟨[], by simp, rfl⟩

theorem IsComment.append_line {t l : List Char} (h : IsComment t)
    (hl : ∀ c ∈ l, isLineBreak c = false) : IsComment (t ++ ('/' :: l ++ ['\n'])) := by
  obtain ⟨lines, hlines, rfl⟩ := h
  refine ⟨lines ++ [l], List.forall_mem_append.2 ⟨hlines, by simpa using hl⟩, ?_⟩
  rw [commentText_append, commentText_singleton]

end ShaderGraph
