import ShaderGraph.Store.Documents
import ShaderGraph.Update.Library

/-!
# Updates of projects

The libraries of a project are brought up to date one after the other, all of them or those with some
names. Nothing is done when a name is that of no library.
-/

namespace ShaderGraph.Project

/-- The store of a library. -/
def store {m : Type → Type} [Monad m] [MonadExceptOf Fault m] [Disk m] [Journal m] [Clock m]
    (p : Project) (l : Library) : ArtifactStore m :=
  DocumentStore.store ⟨p.outputDirectory l, p.manifestDirectory⟩

/-- The libraries with some names, in their order, or all of them. -/
def selected (p : Project) : Option (List String) → Except ConfigError (List Library)
  | none => .ok p.libraries
  | some names => names.mapM p.library

/-- Libraries are brought up to date. -/
def updateAll {m : Type → Type} [Monad m] [MonadExceptOf Fault m] [Disk m] [Journal m] [Clock m]
    [MonadStateOf Supply m] (p : Project) (libraries : List Library) : m (List UpdateReport) :=
  libraries.mapM fun l => l.update p (p.store l)

end ShaderGraph.Project
