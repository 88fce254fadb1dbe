import ShaderGraph.Editor.Command
import ShaderGraph.Host

/-!
# Remapping compiler errors

A message that names a file of a project is changed to point at it, if the file is there; files
that exist only for the compiler are not worth opening. The location is then opened in the editor of
the project.
-/

namespace ShaderGraph

/-- The file that a message is about, if its virtual path lies under a root. -/
def Project.fileOf? (p : Project) (current : DiskPath) :
    Remap.Target → Except PathError (Option DiskPath)
  | .source path => .ok (some (p.resolve path))
  | .virtual path => (p.roots current).map fun roots => roots.toDisk? path

/-- The place that a message points at, if it names a file that is there and a line of it. -/
def Project.remap? {m : Type → Type} [Monad m] [MonadExceptOf Fault m] [Sources m] (p : Project)
    (message : String) : m (Option LocatedError) := do
  match Remap.cut? message with
  | none => return none
  | some c =>
    match ← orFault .path (p.fileOf? (← Sources.current) c.target) with
    | none => return none
    | some file => if ← Sources.isFile file then orFault .numeral (c.locate file) else return none

/-- Opens a place in the editor. -/
def EditorSettings.openAt {m : Type → Type} [Monad m] [MonadExceptOf Fault m] [Journal m]
    [Environment m] (s : EditorSettings) (e : LocatedError) : m Unit := do
  match ← s.command Environment.value? e with
  | .error w => throw (.words w)
  | .ok command =>
    logInfo ("Opening " ++ e.location ++ ": " ++ " ".intercalate command)
    match ← Environment.launch command with
    | .ok () => return
    | .error reason =>
      throw (.failure ⟨.launching, "Failed to start " ++ command.headD "" ++ ": " ++ reason, none, none⟩)

end ShaderGraph
