import ShaderGraph.Text.Lines
import ShaderGraph.Text.Search

/-!
# Descriptions

The description of a function is its comment without the comment marks, without the `@param` tags
and with each run of spaces made one.
-/

namespace ShaderGraph.Description

open Text

/-- A line of a comment without its marks. -/
def plainLine (line : String) : String :=
  trim (String.ofList ((trimChars line.toList).dropWhile (· = '/')))

/-- A text with each run of spaces made one; `after` says that a space stands before it. -/
def collapseSpaces (after : Bool) : List Char → List Char
  | [] => []
  | c :: cs =>
    if c = ' ' then if after then collapseSpaces true cs else ' ' :: collapseSpaces true cs
    else c :: collapseSpaces false cs

/-- The description that a comment gives. -/
def ofComment (comment : String) : String :=
  let lines := "\n".intercalate ((splitLines comment).map plainLine)
  let plain := replace lines "@param " ""
  trim (String.ofList (collapseSpaces false plain.toList))

end ShaderGraph.Description
