import ShaderGraph.Path.Text
import ShaderGraph.Project.Basic
import ShaderGraph.Update.Report

/-!
# Change handlers

Each watched library has a handler that knows the files the library depends on. A change of one of
them raises a flag, and the next look at the handler takes it down, so that several changes in a row
are one reason for an update. The watches of the observer are for directories, not for files.
-/

namespace ShaderGraph

/-- Texts in increasing order, each once. -/
def sortedSet (ss : List String) : List String := ss.eraseDups.mergeSort fun a b => decide (a ≤ b)

/-- A change of a file. -/
inductive FileEvent where
  | modified (path : String)
  | created (path : String)
  | moved (source destination : String)
deriving DecidableEq, Repr

/-- The file that has new content. Editors often save by moving a file over another one. -/
def FileEvent.path : FileEvent → String
  | modified p => p
  | created p => p
  | moved _ p => p

/-- What is known of a watched library. -/
structure Handler where
  library : Library
  /-- the files it depends on, as absolute paths -/
  files : List String := []
  /-- whether one of them has changed -/
  pending : Bool := false
  /-- the numbers of its watches -/
  watches : List Nat := []
deriving Repr

namespace Handler

/-- Whether an event is about a file of the handler. -/
def concerns (h : Handler) (path : String) : Bool := path ∈ h.files

/-- The handler after a change of a file. -/
def notice (h : Handler) (path : String) : Handler :=
  if h.concerns path then { h with pending := true } else h

/-- The handler once its flag has been looked at. -/
def poll (h : Handler) : Handler := { h with pending := false }

end Handler

/-- The files whose changes are a reason for an update: the source, and the includes of the last
update that are on the disk. -/
def Project.watchedFiles (p : Project) (current : DiskPath) (l : Library)
    (includes : Option (List Include)) : Except PathError (List DiskPath) := do
  let source ← if l.updateOnFileChange then (current.resolve (p.sourcePath l)).map ([·]) else .ok []
  return source
    ++ (if l.updateOnIncludeChange then
        (includes.getD []).filterMap fun i =>
          i.diskPath.bind fun path => if path.isEmpty then none else some (DiskPath.ofString path)
      else [])

end ShaderGraph
