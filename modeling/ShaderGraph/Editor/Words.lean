/-!
# Words of a command line

A command line is cut into words at blanks, tabs and line ends. Quotes keep them together: between
single quotes every character counts as itself, between double quotes a backslash escapes a double
quote or a backslash only, and elsewhere it escapes any character. Quotes may start and end inside of
a word, and a pair of quotes with nothing between them is an empty word.
-/

namespace ShaderGraph.CommandLine

/-- Why a command line has no words. -/
inductive WordError where
  | unclosedQuote
  | trailingBackslash
deriving DecidableEq, Repr

/-- What the next character of a command line stands in. -/
inductive Place where
  | plain
  | singleQuotes
  | doubleQuotes
  /-- after a backslash outside of quotes -/
  | escape
  /-- after a backslash between double quotes -/
  | quotedEscape
deriving DecidableEq, Repr

/-- The characters between words. -/
def isGap (c : Char) : Bool := c == ' ' || c == '\t' || c == '\r' || c == '\n'

/-- The word that has been read, its characters latest first, if one has been started. -/
def finished : Option (List Char) → List String
  | some cs => [String.ofList cs.reverse]
  | none => []

/-- A word with one more character. -/
def extend (word : Option (List Char)) (c : Char) : Option (List Char) := some (c :: word.getD [])

/-- A word that is started, if it was not yet. -/
def start (word : Option (List Char)) : Option (List Char) := some (word.getD [])

/-- The words of the rest of a command line, from the one being read on. -/
def wordsFrom (word : Option (List Char)) : Place → List Char → Except WordError (List String)
  | .plain, [] => .ok (finished word)
  | .singleQuotes, [] | .doubleQuotes, [] => .error .unclosedQuote
  | .escape, [] | .quotedEscape, [] => .error .trailingBackslash
  | .plain, c :: cs =>
    if isGap c then (wordsFrom none .plain cs).map (finished word ++ ·)
    else if c = '\'' then wordsFrom (start word) .singleQuotes cs
    else if c = '"' then wordsFrom (start word) .doubleQuotes cs
    else if c = '\\' then wordsFrom word .escape cs
    else wordsFrom (extend word c) .plain cs
  | .singleQuotes, c :: cs =>
    if c = '\'' then wordsFrom word .plain cs else wordsFrom (extend word c) .singleQuotes cs
  | .doubleQuotes, c :: cs =>
    if c = '"' then wordsFrom word .plain cs
    else if c = '\\' then wordsFrom word .quotedEscape cs
    else wordsFrom (extend word c) .doubleQuotes cs
  | .escape, c :: cs => wordsFrom (extend word c) .plain cs
  | .quotedEscape, c :: cs =>
    if c = '"' ∨ c = '\\' then wordsFrom (extend word c) .doubleQuotes cs
    else wordsFrom (extend (extend word '\\') c) .doubleQuotes cs

/-- The words of a command line. -/
def words (text : String) : Except WordError (List String) := wordsFrom none .plain text.toList

end ShaderGraph.CommandLine
