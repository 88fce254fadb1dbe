import ShaderGraph.Diagnostic
import ShaderGraph.Include.Roots
import ShaderGraph.Text.Blank
import ShaderGraph.Text.Word

/-!
# Include and define directives

A directive stands at the start of a line, after blanks or tabs. The path of an include stands in
double quotes and may reach over several lines; the value of a define is the rest of its line. A
relative include is seen from the virtual folder of its source, if that lies under a virtual root.
-/

namespace ShaderGraph

open Text

/-- A file that a source includes. -/
structure Include where
  virtualPath : String
  /-- The file, if the virtual path lies under a root. -/
  diskPath : Option String := none
deriving DecidableEq, Repr, Inhabited

/-- A name that is defined for the preprocessor. -/
structure Define where
  name : String
  value : String
deriving DecidableEq, Repr, Inhabited

namespace Directive

/-- A blank or a tab. -/
def isGap (c : Char) : Bool := c == ' ' || c == '\t'

/-- What follows the end of the line. -/
def afterLine (cs : List Char) : List Char := (cs.dropWhile (· != '\n')).drop 1

/-- What follows the word of a directive at the start of a line. -/
def afterWord? (word : List Char) (cs : List Char) : Option (List Char) :=
  dropLiteral? word (cs.dropWhile isGap)

/-- The path of an include at the start of a line, and what follows it. -/
def include? (cs : List Char) : Option (List Char × List Char) :=
  match (afterWord? "#include".toList cs).map (·.dropWhile isGap) with
  | some ('"' :: r) =>
    match r.dropWhile (· != '"') with
    | '"' :: rest => if r.takeWhile (· != '"') = [] then none else some (r.takeWhile (· != '"'), rest)
    | _ => none
  | _ => none

/-- The rest of a define after the word and at least one blank. -/
def afterGap? : List Char → Option (List Char)
  | c :: r => if isGap c then some (r.dropWhile isGap) else none
  | [] => none

/-- The name and the value of a define at the start of a line. -/
def define? (cs : List Char) : Option Define :=
  match (afterWord? "#define".toList cs).bind afterGap? with
  | none => none
  | some r =>
    match word? r with
    | none => none
    | some (name, r) =>
      (afterGap? r).map fun r =>
        ⟨String.ofList name, String.ofList (trimChars (r.takeWhile (· != '\n')))⟩

/-- Directives looked for at the start of each line, at most `n` lines: `read?` gives what it found
and what follows it. -/
def collect {α : Type} (read? : List Char → Option (α × List Char)) : Nat → List Char → List α
  | 0, _ => []
  | n + 1, cs =>
    match read? cs with
    | some (a, rest) => a :: collect read? n (afterLine rest)
    | none => collect read? n (afterLine cs)

/-- The number of lines of a text. -/
def lineCount (cs : List Char) : Nat := cs.count '\n' + 1

/-- The paths that a source includes, as they are written. -/
def includePaths (text : String) : List String :=
  (collect include? (lineCount text.toList) text.toList).map String.ofList

/-- The defines of a source, in order. -/
def defines (text : String) : List Define :=
  collect (fun cs => (define? cs).map fun d => (d, cs)) (lineCount text.toList) text.toList

end Directive

namespace Include

/-- An include as it is written in a source of the virtual folder `folder`, empty without one. -/
def virtualPathOf (folder path : String) : String :=
  if beginsWith path "/" || folder.isEmpty then path
  else PathText.normal (PathText.join folder path)

/-- The virtual folder of a file, empty outside of the roots. -/
def folderOf (roots : VirtualRoots) (current file : DiskPath) : Except PathError String :=
  (roots.toVirtual? current file).map fun path => (path.map PathText.folder).getD ""

/-- The includes of a source in a virtual folder, in order. -/
def ofText (roots : VirtualRoots) (folder text : String) : List Include :=
  (Directive.includePaths text).map fun path =>
    let path := virtualPathOf folder path
    ⟨path, (roots.toDisk? path).map (·.toText)⟩

/-- The includes of a source, in order. -/
def ofSource (roots : VirtualRoots) (current file : DiskPath) (text : String) :
    Except PathError (List Include) :=
  (folderOf roots current file).map fun folder => ofText roots folder text

/-- The warning for an include that lies under no root. -/
def warning (i : Include) : String := "Failed to map include " ++ i.virtualPath

/-- The warnings for the includes that lie under no root. -/
def warnings (file : String) (includes : List Include) : List Diagnostic :=
  (includes.filter fun i => i.diskPath.isNone).map fun i => ⟨.warning, i.warning, some file⟩

end Include

end ShaderGraph
