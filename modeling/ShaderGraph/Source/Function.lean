/-!
# Functions of a library source

A library is a source file of shader functions. Of each function only its frame is understood: the
comment before it, the return type, the name, the arguments and where the body starts. Arguments
and body are kept as they are written.
-/

namespace ShaderGraph

/-- One function as it stands in its source. -/
structure ShaderFunction where
  /-- The number of line breaks before the opening brace. -/
  startLine : Int := 0
  /-- The comment lines before the function, each ended by a line feed. -/
  comment : String := ""
  returnType : String := "void"
  name : String
  /-- What is written between the parentheses, cut at the commas between arguments. -/
  arguments : List String := []
  /-- What is written between the outermost braces. -/
  body : String := ""
deriving DecidableEq, Repr, Inhabited

end ShaderGraph
