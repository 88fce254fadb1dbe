/-!
# Diagnostics

The messages that an update reports to its user, in the order in which they were reported.
-/

namespace ShaderGraph

/-- How serious a message is. -/
inductive Severity where
  | info
  | warning
  | error
deriving DecidableEq, Repr, Inhabited

/-- The name of a severity, as logs show it. -/
def Severity.label : Severity → String
  | .info => "INFO"
  | .warning => "WARNING"
  | .error => "ERROR"

/-- A message about a source file. -/
structure Diagnostic where
  severity : Severity
  message : String
  /-- The file the message is about, if there is one. -/
  file : Option String := none
deriving DecidableEq, Repr, Inhabited

namespace Diagnostic

/-- The message after the file it is about. -/
def text (d : Diagnostic) : String :=
  match d.file with
  | some path => if path.isEmpty then d.message else path ++ ": " ++ d.message
  | none => d.message

/-- The messages of one severity, in order. -/
def ofSeverity (s : Severity) (ds : List Diagnostic) : List Diagnostic :=
  ds.filter fun d => d.severity == s

end Diagnostic

end ShaderGraph
