import ShaderGraph.Fingerprint
import ShaderGraph.Graph.Generate
import ShaderGraph.Host
import ShaderGraph.Project.Document
import ShaderGraph.Source.Scan
import ShaderGraph.Store.Basic
import ShaderGraph.Update.Report

/-!
# Updates of libraries

An update scans the source of a library and generates each function whose fingerprint is not found in
its earlier artifact. A function with an invalid signature is reported and the others go on; a source
or an include that is not readable, or that does not scan, ends the update before anything is saved.
The manifest follows the functions of the source, and is saved last, if it has changed or an artifact
was saved.
-/

namespace ShaderGraph

/-- What an update knows once all is read. -/
structure UpdateInputs where
  functions : List ShaderFunction
  context : GenerationContext
  /-- the digests of the includes and defines -/
  dependencies : String
  /-- the options that enter every fingerprint -/
  options : String

/-- The fingerprint of a function. -/
def UpdateInputs.tag (u : UpdateInputs) (f : ShaderFunction) : String :=
  Fingerprint.ofFunction f u.dependencies u.context.accurateErrors u.options

/-- The context of the functions of a library. -/
def Library.context (l : Library) (includes : List Include) (defines : List Define) :
    GenerationContext :=
  { sourceFile := (DiskPath.ofString l.file).toText
    libraryName := l.name
    accurateErrors := l.accurateErrors
    categories := l.categories
    includeFilePaths := l.includeFilePaths ++ includes.map (·.virtualPath)
    additionalDefines := l.additionalDefines ++ defines }

/-- What an update of a library needs: its functions, the directives of its source and the texts of
its includes. -/
def Library.inputs (l : Library) (functions : List ShaderFunction) (includes : List Include)
    (defines : List Define) (texts : List String) : UpdateInputs :=
  { functions := functions
    context := l.context includes defines
    dependencies := Fingerprint.ofDependencies texts defines
    options := l.metadata }

/-- How far an update has come. -/
structure Progress where
  report : UpdateReport
  manifest : Manifest
  /-- whether the manifest is to be saved -/
  changed : Bool

namespace Progress

/-- A manifest before the functions, for a source. -/
def start (report : UpdateReport) (manifest : Manifest) (source : String) : Progress :=
  ⟨report, { manifest with sourceFile := .string source }, !manifest.isOf source⟩

/-- A function is listed in the manifest. -/
def register (p : Progress) (name : String) : Except DocumentError Progress := do
  match ← p.manifest.add? name with
  | some manifest => return { p with manifest := manifest, changed := true }
  | none => return p

def skipped (p : Progress) (name : String) : Progress :=
  { p with report.skipped := p.report.skipped ++ [name] }

def failed (p : Progress) (name message : String) : Progress :=
  { p with report.failed := p.report.failed.insert name message }

def updated (p : Progress) (name : String) : Progress :=
  { p with report.updated := p.report.updated ++ [name], changed := true }

/-- Functions that are no longer in the source leave the manifest. -/
def removeOthers (p : Progress) (names : List String) : Except DocumentError Progress := do
  match ← p.manifest.others names with
  | [] => return p
  | removed => return { p with report.removed := removed, manifest := p.manifest.keep names, changed := true }

end Progress

section

variable {m : Type → Type} [Monad m] [MonadExceptOf Fault m] [Journal m]

/-- One function is brought up to date. `source` is the source as diagnostics name it. -/
def updateFunction [MonadStateOf Supply m] (store : ArtifactStore m) (u : UpdateInputs)
    (source : String) (p : Progress) (f : ShaderFunction) : m Progress := do
  let p ← orFault .document (p.register f.name)
  let tag := u.tag f
  let earlier ← store.load f.name
  if ← orFault .document (ArtifactRecord.isCurrent earlier tag) then
    logInfo (f.name ++ " already up to date")
    return p.skipped f.name
  match f.signature with
  | .error e =>
    let message := "Function " ++ f.name ++ ": " ++ e.toFailure.text
    report ⟨.error, message, some source⟩
    return p.failed f.name message
  | .ok signature =>
    let identifiers ← orFault .document (earlier.mapM fun a => a.identifiers.table)
    let generated ← modifyGetThe Supply fun supply =>
      Artifact.generate f signature tag u.context identifiers supply
    let artifact ← orFault .numeral generated
    store.save artifact.record
    logInfo (f.name ++ " updated")
    return p.updated f.name

/-- All functions are brought up to date, and the manifest follows them. -/
def updateFunctions [MonadStateOf Supply m] (store : ArtifactStore m) (u : UpdateInputs)
    (source : String) (r : UpdateReport) : m UpdateReport := do
  let manifest ← store.loadManifest r.library
  let p ← u.functions.foldlM (updateFunction store u source)
    (.start r manifest u.context.sourceFile)
  let p ← orFault .document (p.removeOthers (u.functions.map (·.name)))
  if p.changed then store.saveManifest p.manifest
  return p.report

/-- The report of an update that ends with an error of the whole source. -/
def UpdateReport.abort (r : UpdateReport) (source : DiskPath) (message : String) : m UpdateReport := do
  report ⟨.error, message, some source.toText⟩
  return { r with error := some message }

/-- The texts of includes, in order, or the first failure to read one. -/
def readIncludes [Sources m] : List Include → m (Except Failure (List String))
  | [] => return .ok []
  | i :: rest => do
    match i.diskPath with
    | none => readIncludes rest
    | some path =>
      match ← readSource (.ofString path) with
      | .error e => return .error e
      | .ok text => return (← readIncludes rest).map (text :: ·)

/-- A library is brought up to date. -/
def Library.update [Sources m] [MonadStateOf Supply m] (l : Library) (p : Project)
    (store : ArtifactStore m) : m UpdateReport := do
  let r : UpdateReport := { library := l.name }
  let source := p.sourcePath l
  if !(← Sources.isFile source) then
    return ← r.abort source (l.name ++ ": invalid path " ++ l.file)
  match ← readSource source with
  | .error e => r.abort source e.text
  | .ok text =>
    match ShaderFunction.scan text with
    | .error e => r.abort source (e.toFailure.inFile source.toText).text
    | .ok functions =>
      let current ← Sources.current
      let roots ← orFault .path (p.roots current)
      let includes ← orFault .path (Include.ofSource roots current source text)
      (Include.warnings source.toText includes).forM report
      let r := { r with includes := includes }
      match ← readIncludes includes with
      | .error e => r.abort source e.text
      | .ok texts =>
        updateFunctions store (l.inputs functions includes (Directive.defines text) texts)
          source.toText r

end

end ShaderGraph
