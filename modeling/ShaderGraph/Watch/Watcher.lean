import ShaderGraph.Update.Project
import ShaderGraph.Watch.Handler

/-!
# Watching projects

A watcher updates each library once and then again whenever a file that it depends on has changed.
After each update the files and the watches of the library are established anew, since its includes
may be others. An observer reports the changes in the watched directories.
-/

namespace ShaderGraph

/-- What a watcher asks of its observer. Watches are numbered from 1. -/
inductive ObserverCall where
  | schedule (watch : Nat) (library directory : String)
  | unschedule (watch : Nat)
  | start
  | stop
  | join
deriving DecidableEq, Repr

class Observer (m : Type → Type) where
  call : ObserverCall → m Unit

instance {m n : Type → Type} [MonadLift m n] [Observer m] : Observer n where
  call c := liftM (Observer.call c : m Unit)

/-- A watcher of a project. -/
structure Watcher where
  project : Project
  /-- the handlers by the names of their libraries -/
  handlers : OrderedMap String Handler := []
  /-- how many watches there have been -/
  scheduled : Nat := 0
deriving Repr

namespace Watcher

/-- The handler of a library, a new one if it has none. -/
def handler (w : Watcher) (l : Library) : Handler := (w.handlers.get? l.name).getD { library := l }

/-- The numbers of so many new watches. -/
def newWatches (w : Watcher) (n : Nat) : List Nat := (List.range n).map (w.scheduled + 1 + ·)

/-- The watcher with another handler for a library. -/
def withHandler (w : Watcher) (l : Library) (h : Handler) : Watcher :=
  { w with handlers := w.handlers.insert l.name h }

/-- The watcher once the watches of a library are given up. -/
def released (w : Watcher) (l : Library) : Watcher :=
  w.withHandler l { w.handler l with watches := [] }

/-- What the observer has to do for that. -/
def releaseCalls (w : Watcher) (l : Library) : List ObserverCall :=
  (w.handler l).watches.map .unschedule

/-- The watcher once the files of a library are known. -/
def withFiles (w : Watcher) (l : Library) (files : List String) : Watcher :=
  w.withHandler l { w.handler l with files := files }

/-- The watcher with watches of directories for a library. -/
def watching (w : Watcher) (l : Library) (directories : List String) : Watcher :=
  { w.withHandler l { w.handler l with watches := w.newWatches directories.length } with
    scheduled := w.scheduled + directories.length }

/-- What the observer has to do for that. -/
def watchCalls (w : Watcher) (l : Library) (directories : List String) : List ObserverCall :=
  ((w.newWatches directories.length).zip directories).map fun (n, d) => .schedule n l.name d

/-- Whether the flag of a library is raised. -/
def isPending (w : Watcher) (name : String) : Bool := (w.handlers.get? name).any (·.pending)

/-- The watcher after a change of the handler of a library. -/
def adjust (w : Watcher) (name : String) (f : Handler → Handler) : Watcher :=
  match w.handlers.get? name with
  | some h => { w with handlers := w.handlers.insert name (f h) }
  | none => w

/-- Takes down the flag of a library, and tells whether it was raised. -/
def poll (w : Watcher) (name : String) : Bool × Watcher := (w.isPending name, w.adjust name Handler.poll)

/-- The watcher after a change of a file, given by its absolute path, that came to the handler of a
library, and whether it is one of its files. -/
def receive (w : Watcher) (name path : String) : Bool × Watcher :=
  ((w.handlers.get? name).any (·.concerns path), w.adjust name (·.notice path))

section

variable {m : Type → Type} [Monad m] [MonadStateOf Watcher m]

/-- An event goes to the handler of a library. -/
def handle [Sources m] [Journal m] (e : FileEvent) (name : String) : m Unit := do
  let current ← Sources.current
  let path := PathText.absolute current.toText e.path
  if ← modifyGetThe Watcher (·.receive name path) then logInfo ("Detected changes in " ++ path)

/-- An event goes to every handler. -/
def deliver [Sources m] [Journal m] (e : FileEvent) : m Unit := do
  (← getThe Watcher).handlers.keys.forM (handle e)

variable [MonadExceptOf Fault m] [Disk m] [Journal m] [Clock m] [MonadStateOf Supply m] [Observer m]

/-- The directories of some files that are there. -/
def directoriesOf (files : List DiskPath) : m (List String) := do
  let parents ← (files.map (·.parent)).filterM fun d => Sources.isDirectory d
  return sortedSet (parents.map (·.toText))

/-- Gives up the watches of a library, and finds out the files that it now depends on. -/
def settle (l : Library) (r : UpdateReport) : m (List DiskPath) := do
  let given ← modifyGetThe Watcher fun w => (w.releaseCalls l, w.released l)
  given.forM Observer.call
  let project := (← getThe Watcher).project
  let current ← Sources.current
  let files ← orFault .path (project.watchedFiles current l (some r.includes))
  modifyThe Watcher fun w =>
    w.withFiles l (sortedSet (files.map fun f => PathText.absolute current.toText f.toText))
  return files

/-- Watches the directories of some files for a library. -/
def watch (l : Library) (files : List DiskPath) : m Unit := do
  let directories ← directoriesOf files
  let asked ← modifyGetThe Watcher fun w => (w.watchCalls l directories, w.watching l directories)
  asked.forM Observer.call

/-- Establishes the watches of a library anew, after an update. The earlier watches are given up
first, and the files are known before the directories are watched. -/
def refresh (l : Library) (r : UpdateReport) : m Unit := do
  let files ← settle l r
  watch l files

/-- Brings a library of the project up to date. -/
def bring (l : Library) : m UpdateReport := do
  let w ← getThe Watcher
  l.update w.project (w.project.store l)

/-- Updates a library and establishes its watches anew. -/
def update (l : Library) : m UpdateReport := do
  let r ← bring l
  refresh l r
  return r

/-- Updates each library that is to be watched, and starts the observer. -/
def start : m (List UpdateReport) := do
  let w ← getThe Watcher
  let watched := w.project.libraries.filter fun l => l.updateOnFileChange || l.updateOnIncludeChange
  let reports ← watched.mapM update
  Observer.call .start
  return reports

/-- Looks at the handler of a library, and updates it if its flag was raised. -/
def turn (name : String) : m (Option UpdateReport) := do
  if ← modifyGetThe Watcher (·.poll name) then
    match (← getThe Watcher).handlers.get? name with
    | some h => return some (← update h.library)
    | none => return none
  else return none

/-- Updates the libraries whose files have changed since the last time. -/
def tick : m (List UpdateReport) := do
  let names := (← getThe Watcher).handlers.keys
  return (← names.mapM turn).filterMap id

def stop : m Unit := do
  Observer.call .stop
  Observer.call .join

/-- Ticks, each with a pause after it, and a last one that is interrupted. -/
def ticks (pauses : List (m Unit)) : m Unit := do
  for pause in pauses do
    let _ ← tick
    pause
  let _ ← tick
  logInfo "Keyboard interrupt received, stopping..."

/-- Watches until the pauses are over; the observer is stopped in any case. -/
def run [MonadFinally m] (pauses : List (m Unit)) : m Unit := do
  let _ ← start
  logInfo "Watching for changes (press Ctrl+C to exit)..."
  try ticks pauses finally stop

end

end Watcher

end ShaderGraph
