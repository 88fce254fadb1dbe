/-!
# Failures

What goes wrong while libraries are read, checked and generated. A failure has a kind, a message
and, when they are known, the file and the line it is about; its text names the file by its last
component only.
-/

namespace ShaderGraph

/-- What a failure is about. -/
inductive FailureKind where
  /-- no particular part of the work -/
  | general
  /-- the nesting of braces and parentheses in a source, fatal for the whole file -/
  | scanning
  /-- the signature of one function, fatal for that function only -/
  | pin
  /-- an include that is not found, never fatal -/
  | dependency
  /-- a source file that is not readable -/
  | reading
  /-- the project configuration -/
  | configuration
  /-- the start of the external editor -/
  | launching
deriving DecidableEq, Repr, Inhabited

/-- A failure and where it happened. -/
structure Failure where
  kind : FailureKind
  message : String
  /-- The source file, if it is known. -/
  file : Option String := none
  /-- The line of that file, counted from one, if it is known. -/
  line : Option Int := none
deriving DecidableEq, Repr, Inhabited

/-- What follows the last slash of a path. -/
def baseName (path : String) : String :=
  String.ofList ((path.toList.reverse.takeWhile (· != '/')).reverse)

namespace Failure

/-- The place of a failure, as a phrase after its message. -/
def place (f : Failure) : String :=
  (match f.file with
    | some path => if path.isEmpty then "" else " in " ++ baseName path
    | none => "")
  ++ (match f.line with
    | some n => " at line " ++ toString n
    | none => "")

/-- The message and the place of a failure. -/
def text (f : Failure) : String := f.message ++ f.place

/-- The same failure, in another file. -/
def inFile (f : Failure) (path : String) : Failure := { f with file := some path }

end Failure

end ShaderGraph
