import ShaderGraph.Graph.Artifact
import ShaderGraph.Pin.Signature
import ShaderGraph.Text.Word

/-!
# Code of a variant

The code of a variant is the body of its function after declarations that give each argument a
value: the constant of a bool input in this variant, the binding of any other input. A code node
returns a number that is not used, so every `return` of the body returns zero. When compiler errors
are to point at the source, a line directive before the body says where it comes from.
-/

namespace ShaderGraph

open Text

/-- What all functions of a library are generated with. -/
structure GenerationContext where
  /-- The source, as line directives and headers name it. -/
  sourceFile : String
  libraryName : String := ""
  /-- Whether line directives point at the source. -/
  accurateErrors : Bool := true
  categories : List String := []
  includeFilePaths : List String := []
  additionalDefines : List Define := []
deriving DecidableEq, Repr, Inhabited

namespace Code

/-- What a line directive writes before the path of the source. -/
def pathStart : String := "[hlsl2mat]"

/-- What a line directive writes after the path of the source. -/
def pathEnd : String := "[/hlsl2mat]"

/-- The line that errors after the body are reported at. -/
def trailingLine : Nat := 10000

/-- The declaration of an input that is bound. -/
def inputDeclaration (p : Pin) : String :=
  let const := if p.isConst then "const " else ""
  let typed := const ++ p.declaredType ++ " " ++ p.name ++ " = "
  if p.kind.isTexture then
    const ++ "SamplerState " ++ p.name ++ "Sampler = " ++ p.bindingName ++ "Sampler;\n"
      ++ typed ++ "(" ++ p.bindingName ++ ");\n"
  else if p.kind = .materialAttributes then typed ++ "(" ++ p.bindingName ++ ");\n"
  else typed ++ p.declaredType ++ "(" ++ p.bindingName ++ ");\n"

/-- The declaration of an input in a variant; a part of a matrix has none. -/
def declaration (values : BoolValues) (p : Pin) : String :=
  if p.isInternal then ""
  else if p.kind = .staticBool then
    "const bool " ++ p.name ++ " = "
      ++ (if (OrderedMap.get? values p.name).getD false then "true" else "false") ++ ";\n"
  else inputDeclaration p

/-- The declarations before the body of a variant. -/
def declarations (s : Signature) (values : BoolValues) : String :=
  s.declarations ++ String.join (s.inputs.map (declaration values))

/-- A word of a body in the code. -/
def codeWord (w : List Char) : List Char := if w = "return".toList then "return 0.f".toList else w

/-- A body with its words changed; `word` is the start of the present word in reverse. -/
def mapWordsFrom (f : List Char → List Char) (word : List Char) : List Char → List Char
  | [] => f word.reverse
  | c :: cs =>
    if isWord c then mapWordsFrom f (c :: word) cs
    else f word.reverse ++ c :: mapWordsFrom f [] cs

/-- A body that returns zero wherever it returns. -/
def returningZero (body : String) : String :=
  String.ofList (mapWordsFrom codeWord [] body.toList)

/-- The message at errors that are not in the body. -/
def trailingHint (libraryName : String) : String :=
  "Error occurred outside of the function body, line numbers are not accurate. "
    ++ "Disable accurate_errors on library " ++ libraryName ++ " to find it"

/-- A body between the directives that place it in its source. -/
def placed (f : ShaderFunction) (context : GenerationContext) (code : String) : String :=
  "#line " ++ toString (f.startLine + 1) ++ " \"" ++ pathStart ++ context.sourceFile ++ pathEnd
    ++ "\"\n" ++ code ++ "\n#line " ++ toString trailingLine ++ " \""
    ++ trailingHint context.libraryName ++ "\""

/-- The code of a variant. -/
def ofFunction (f : ShaderFunction) (declarations fingerprint : String)
    (context : GenerationContext) : String :=
  let code := returningZero f.body
  let code := if context.accurateErrors then placed f context code else code
  "// START " ++ f.name ++ "\n\n" ++ declarations ++ "\n" ++ code ++ "\n\n// END " ++ f.name
    ++ "\n\nreturn 0.f;\n//" ++ fingerprint ++ "\n"

end Code

end ShaderGraph
