import ShaderGraph.Host
import ShaderGraph.Store.Basic
import ShaderGraph.Yaml.Display

/-!
# Stores on a disk

Every artifact is a document `<name>.json` in one directory, every manifest a document
`<library>.library.json` in another. A document is first written under another name and then put in
its place, so that a failure leaves the earlier one. A document that is no JSON, or lacks a member,
or has a value of the wrong type, counts as missing, with a warning; what else is wrong with one is a
fault.
-/

namespace ShaderGraph

/-- Why a document is not readable. -/
inductive DocumentFault where
  /-- the text is no JSON -/
  | unreadable (e : Json.ReadError)
  | content (e : DocumentError)
deriving DecidableEq, Repr

namespace DocumentFault

/-- What is wrong with a document. -/
def text : DocumentFault → String
  | unreadable .malformed => "no JSON document"
  | unreadable .longNumeral => "number with too many digits"
  | unreadable .tooDeep => "nesting too deep"
  | content (.missingKey key) => "missing key " ++ key
  | content .mistyped => "value of the wrong type"
  | content .noMembers => "value without members"
  | content .notANumber => "value that is no number"
  | content .infiniteNumber => "infinite number"
  | content .notAPair => "value that is no pair"

/-- The fault that a document is, if it does not count as missing. -/
def fault? : DocumentFault → Option Fault
  | unreadable .malformed => none
  | unreadable e => some (.json e)
  | content (.missingKey _) => none
  | content .mistyped => none
  | content e => some (.document e)

end DocumentFault

/-- The directories of a store. -/
structure DocumentStore where
  artifacts : DiskPath
  manifests : DiskPath

namespace DocumentStore

/-- The name of what a value names: the value as it shows. -/
def nameText (j : Json) : String := (Yaml.ofJson j).showAlone.getD ""

def artifactPath (s : DocumentStore) (name : Json) : DiskPath :=
  s.artifacts.child (nameText name ++ ".json")

def manifestPath (s : DocumentStore) (library : Json) : DiskPath :=
  s.manifests.child (nameText library ++ ".library.json")

/-- What a text holds. -/
def decode {α : Type} (read : Json → Except DocumentError α) (text : String) :
    Except DocumentFault α :=
  match Json.parse text with
  | .error e => .error (.unreadable e)
  | .ok j => (read j).mapError .content

section

variable {m : Type → Type} [Monad m] [MonadExceptOf Fault m] [Disk m]

/-- Writes a document, and makes its directory. -/
def write (path : DiskPath) (j : Json) : m Unit := do
  Disk.makeDirectory path.parent
  let draft := path.withName (path.name ++ ".tmp")
  Disk.writeText draft j.render
  Disk.rename draft path

/-- Reads a document, a `kind` of thing, if there is one. -/
def read [Journal m] {α : Type} (kind : String) (decoder : Json → Except DocumentError α)
    (path : DiskPath) : m (Option α) := do
  if !(← Disk.isThere path) then return none
  match ← Sources.readText path with
  | .error e => throw (.file e)
  | .ok text =>
    match decode decoder text with
    | .ok a => return some a
    | .error e =>
      match e.fault? with
      | some fault => throw fault
      | none =>
        Journal.log .warning
          ("Ignoring unreadable " ++ kind ++ " " ++ path.toText ++ ": " ++ e.text)
        return none

/-- The manifest of a library, an empty one if there is none. -/
def loadManifest [Journal m] (s : DocumentStore) (library : String) : m Manifest := do
  let path := s.manifestPath (.string library)
  return (← read "manifest" Manifest.ofJson path).getD { library := .string library }

/-- Saves a manifest with the time of the day. -/
def saveManifest [Clock m] (s : DocumentStore) (a : Manifest) : m Unit := do
  let now ← Clock.now
  write (s.manifestPath a.library) { a with updated := .string now.iso }.toJson

/-- The operations of a store. -/
def store [Journal m] [Clock m] (s : DocumentStore) : ArtifactStore m :=
  { load := fun name => read "artifact" ArtifactRecord.ofJson (s.artifactPath (.string name))
    save := fun a => write (s.artifactPath a.name) a.toJson
    loadManifest := s.loadManifest
    saveManifest := s.saveManifest }

end

end DocumentStore

end ShaderGraph
