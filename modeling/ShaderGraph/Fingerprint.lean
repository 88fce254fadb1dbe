import ShaderGraph.Digest
import ShaderGraph.Include.Directive
import ShaderGraph.Source.Function

/-!
# Fingerprints

The fingerprint of a function is a tag with the digest of all that its generated code depends on:
its own text, its place when compiler errors are to point at it, the options of its library, and the
includes and defines of its file. A function whose tag is found again is not generated again.
-/

namespace ShaderGraph.Fingerprint

/-- The version of the generated code, changed when the same input gives other code. -/
def codeVersion : String := "1"

/-- What a tag starts with. -/
def mark : String := "HLSL Hash: "

/-- The digests of what all functions of a file depend on: the texts of its includes, then the names
and values of its defines. -/
def ofDependencies (includes : List String) (defines : List Define) : String :=
  String.join (includes.map Digest.hash)
    ++ String.join (defines.map fun d => Digest.hash d.name ++ Digest.hash d.value)

/-- The text that is digested for a function. -/
def content (f : ShaderFunction) (dependencies : String) (accurateErrors : Bool)
    (options : String) : String :=
  codeVersion ++ " " ++ (if accurateErrors then toString f.startLine else "") ++ " " ++ f.comment
    ++ " " ++ options ++ " " ++ f.returnType ++ " " ++ f.name ++ "("
    ++ ",".intercalate f.arguments ++ ")" ++ f.body ++ dependencies

/-- The tag of a function. -/
def ofFunction (f : ShaderFunction) (dependencies : String) (accurateErrors : Bool)
    (options : String) : String :=
  mark ++ Digest.hash (content f dependencies accurateErrors options)

end ShaderGraph.Fingerprint
