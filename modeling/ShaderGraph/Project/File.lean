import ShaderGraph.Host
import ShaderGraph.Project.Document
import ShaderGraph.Yaml.Reader

/-!
# Configuration files

A project is loaded from a YAML file, and its root is the directory of that file. An empty file is an
empty mapping.
-/

namespace ShaderGraph

/-- Whether a value counts as missing. -/
def Yaml.isVoid : Yaml → Bool
  | null => true
  | bool b => !b
  | int i => i == 0
  | real x => x.isZero
  | text s => s.isEmpty
  | sequence items => items.isEmpty
  | mapping entries => entries.isEmpty
  | setOf items => items.isEmpty
  | bytes bs => bs.isEmpty
  | _ => false

/-- The entries of a configuration, if it is a mapping. -/
def Yaml.entries? (v : Yaml) : Option (List (Yaml × Yaml)) :=
  match v.unfold with
  | mapping entries => some entries
  | v => if v.isVoid then some [] else none

namespace Project

/-- The project of a text, the configuration file of which is at a path. -/
def ofText (root path : DiskPath) (text : String) : Except Fault (Except ConfigError Project) :=
  match Yaml.read text with
  | .error (.malformed problem line) =>
    .ok (.error (.malformed path.toText (Yaml.ReadError.malformed problem line).text))
  | .error e => .error (.value e)
  | .ok v =>
    match v.entries? with
    | some entries =>
      match ofEntries root entries with
      | .error (.version none) => .error (.value .unshownNumber)
      | result => .ok result
    | none => .ok (.error (.noMapping path.toText))

section

variable {m : Type → Type} [Monad m] [MonadExceptOf Fault m]

/-- Loads a project. -/
def load [Sources m] (path : DiskPath) : m (Except ConfigError Project) := do
  match ← Sources.readText path with
  | .error (.refused _ reason) => return .error (.unreadable path.toText reason)
  | .error e => throw (.file e)
  | .ok text =>
    let place ← orFault .path ((← Sources.current).resolve path)
    match ofText place.parent path text with
    | .ok result => return result
    | .error fault => throw fault

/-- Saves a project, and makes the directory of its file. -/
def save [Disk m] (p : Project) (path : DiskPath) : m Unit := do
  Disk.makeDirectory path.parent
  Disk.writeText path p.render

end

end Project

end ShaderGraph
