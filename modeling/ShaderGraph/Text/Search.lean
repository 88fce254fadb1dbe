/-!
# Searching and replacing

Finding a fixed text inside another one: cutting at its first occurrence, replacing every
occurrence from left to right, and joining pieces with a separator.
-/

namespace ShaderGraph.Text

/-- What follows `p` at the head of a text, if the text starts with `p`. -/
def dropLiteral? : List Char → List Char → Option (List Char)
  | [], cs => some cs
  | _ :: _, [] => none
  | p :: ps, c :: cs => if p = c then dropLiteral? ps cs else none

theorem dropLiteral?_eq_some_iff {p cs r : List Char} : dropLiteral? p cs = some r ↔ cs = p ++ r := by
  induction p generalizing cs with
  | nil => simp [dropLiteral?, eq_comm]
  | cons a p ih =>
    cases cs with
    | nil => simp [dropLiteral?]
    | cons c cs =>
      by_cases h : a = c
      · simp [dropLiteral?, h, ih]
      · simp [dropLiteral?, h, Ne.symm h]

/-- Whether `s` starts with `p`. -/
def beginsWith (s p : String) : Bool := p.toList.isPrefixOf s.toList

/-- Whether `s` ends with `p`. -/
def finishesWith (s p : String) : Bool := p.toList.isSuffixOf s.toList

/-- The text before the first occurrence of `p`, and the text after it. -/
def cutAt? (p : List Char) : List Char → Option (List Char × List Char)
  | [] => (dropLiteral? p []).map fun r => ([], r)
  | c :: cs =>
    match dropLiteral? p (c :: cs) with
    | some r => some ([], r)
    | none => (cutAt? p cs).map fun (a, b) => (c :: a, b)

/-- Whether `p` occurs in a text. -/
def occursIn (p cs : List Char) : Bool := (cutAt? p cs).isSome

/-- Every occurrence of `p` replaced by `q`, from left to right; of an occurrence just replaced
`skip` characters are still to be dropped. -/
def replaceFrom (p q : List Char) (skip : Nat) : List Char → List Char
  | [] => []
  | c :: cs =>
    match skip with
    | k + 1 => replaceFrom p q k cs
    | 0 =>
      if p.isPrefixOf (c :: cs) then q ++ replaceFrom p q (p.length - 1) cs
      else c :: replaceFrom p q 0 cs

/-- Every occurrence of a text that is not empty replaced by another one. -/
def replaceChars (p q cs : List Char) : List Char := replaceFrom p q 0 cs

/-- Every occurrence of a text that is not empty replaced by another one. -/
def replace (s p q : String) : String := String.ofList (replaceChars p.toList q.toList s.toList)

/-- The text before the first occurrence of `p`, and the text after it. -/
def cut? (p s : String) : Option (String × String) :=
  (cutAt? p.toList s.toList).map fun (a, b) => (String.ofList a, String.ofList b)

/-- Whether `p` occurs in `s`. -/
def contains (s p : String) : Bool := occursIn p.toList s.toList

/-- The pieces of a text between the places where `sep` stands; one more than there are places. -/
def pieces (sep : Char) : List Char → List (List Char)
  | [] => [[]]
  | c :: cs =>
    if c = sep then [] :: pieces sep cs
    else
      match pieces sep cs with
      | [] => [[c]]
      | p :: ps => (c :: p) :: ps

/-- A text followed by `n` spaces less its length, so that columns line up. -/
def padRight (n : Nat) (s : String) : String := s ++ String.ofList (List.replicate (n - s.length) ' ')

end ShaderGraph.Text
