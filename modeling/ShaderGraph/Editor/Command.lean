import ShaderGraph.Editor.Variables
import ShaderGraph.Editor.Words
import ShaderGraph.Project.Basic
import ShaderGraph.Remap.Message

/-!
# Editor commands

The command that opens a location in the external editor: the executable with its environment
variables, then the words of the arguments. The placeholders are replaced before the arguments are
cut into words, so that quotes in the template keep a path with blanks together.
-/

namespace ShaderGraph

namespace EditorSettings

open Text

/-- The arguments for a location; an unknown column is 0. -/
def argumentsFor (s : EditorSettings) (e : LocatedError) : String :=
  let text := replace s.arguments "%FILE%" e.file.toText
  let text := replace text "%LINE%" (toString e.line)
  replace text "%CHAR%" (toString (e.first.getD 0))

/-- The command line that opens a location, `value?` giving the values of environment variables. -/
def command {m : Type → Type} [Monad m] (value? : String → m (Option String)) (s : EditorSettings)
    (e : LocatedError) : m (Except CommandLine.WordError (List String)) := do
  let executable ← Variables.expand value? s.path
  return (CommandLine.words (s.argumentsFor e)).map (executable :: ·)

end EditorSettings

end ShaderGraph
