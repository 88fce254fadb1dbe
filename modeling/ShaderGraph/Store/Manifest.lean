import ShaderGraph.Graph.Artifact
import ShaderGraph.Json.Shape

/-!
# Manifests

A manifest lists the functions generated from one library. Its values stand as a document tells
them. Functions are added to a list only, and those that are no longer in the source are taken out of
any value that has parts.
-/

namespace ShaderGraph

open Json

/-- The functions generated from one library. -/
structure Manifest where
  library : Json
  /-- The source, as the configuration names it. -/
  sourceFile : Json := .string ""
  functions : Json := .array []
  /-- The time of the last save. -/
  updated : Json := .string ""
  version : Json := .int formatVersion
deriving Inhabited

namespace Manifest

def fieldNames : List RecordField := [⟨"library", none⟩, ⟨"source_file", some (.string "")⟩,
  ⟨"functions", some (.array [])⟩, ⟨"updated", some (.string "")⟩,
  ⟨"version", some (.int formatVersion)⟩]

def toJson (m : Manifest) : Json :=
  .object [("library", m.library), ("source_file", m.sourceFile), ("functions", m.functions),
    ("updated", m.updated), ("version", m.version)]

def ofJson (j : Json) : Except DocumentError Manifest := do
  let fields ← j.recordFields fieldNames
  return { library := fieldOf fields "library"
           sourceFile := fieldOf fields "source_file"
           functions := fieldOf fields "functions"
           updated := fieldOf fields "updated"
           version := fieldOf fields "version" }

/-- Whether the manifest is about a source. -/
def isOf (m : Manifest) (source : String) : Bool := isEqual m.sourceFile (.string source)

/-- The manifest with one more function, if it does not list it yet. -/
def add? (m : Manifest) (name : String) : Except DocumentError (Option Manifest) := do
  if ← m.functions.includes name then return none
  match m.functions with
  | .array items => return some { m with functions := .array (items ++ [.string name]) }
  | _ => .error .noMembers

/-- Whether a listed function is one of some names. -/
def isAmong (names : List String) (f : Json) : Bool := names.any fun n => isEqual f (.string n)

/-- The listed functions that are not among some names. -/
def others (m : Manifest) (names : List String) : Except DocumentError (List Json) := do
  let listed ← m.functions.elements
  if listed.all isFixed then return listed.filter fun f => !isAmong names f else .error .mistyped

/-- The manifest with those of its functions that are among some names. -/
def keep (m : Manifest) (names : List String) : Manifest :=
  { m with functions := .array ((m.functions.elements?.getD []).filter (isAmong names)) }

end Manifest

end ShaderGraph
