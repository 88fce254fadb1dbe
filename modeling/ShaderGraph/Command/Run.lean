import ShaderGraph.Command.Basic
import ShaderGraph.Project.File
import ShaderGraph.Remap.Project
import ShaderGraph.Text.Lines
import ShaderGraph.Text.Style
import ShaderGraph.Update.Project
import ShaderGraph.Watch.Watcher

/-!
# Running commands

A command prints its result and gives its exit status: 0 when all went well and 1 when something was
wrong with its files. Messages go to the journal.
-/

namespace ShaderGraph.Command

/-- The version of the program. -/
def programVersion : String := "0.1.0"

section

variable {m : Type → Type} [Monad m] [Journal m]

/-- A failure ends a command. -/
def failWith (f : Failure) : m Nat := do
  Journal.log .error f.text
  return 1

variable [MonadExceptOf Fault m] [Disk m] [Terminal m]

/-- Prints a line, without what styles it. -/
def say (line : String) : m Unit := Terminal.printLine (Text.withoutStyles line)

/-- Goes on with a project that is loaded. -/
def withProject (config : String) (k : Project → m Nat) : m Nat := do
  match ← Project.load (.ofString config) with
  | .ok p => k p
  | .error e => failWith e.toFailure

/-- The lines for a report. -/
def reportLines (r : UpdateReport) : List String :=
  match r.error with
  | some e => [r.library ++ ": " ++ e]
  | none =>
    (r.library ++ ": " ++ toString r.updated.length ++ " updated, " ++ toString r.skipped.length
        ++ " up to date, " ++ toString r.failed.length ++ " failed")
      :: r.failed.map fun f => "  " ++ f.2

/-- The lines for a pin. -/
def inputLine (p : Pin) : String :=
  "  in  " ++ Text.padRight 20 p.kind.label ++ " " ++ p.name
    ++ (if p.hasDefault then " = " ++ p.defaultText else "")
    ++ (if p.isExposed then " [exposed]" else "")

def outputLine (p : Pin) : String := "  out " ++ Text.padRight 20 p.kind.label ++ " " ++ p.name

/-- The lines for the signature of a function. -/
def signatureLines (s : Signature) : List String :=
  s.inputs.map inputLine ++ s.outputs.map outputLine
    ++ ["  variants: " ++ toString (Nat.pow 2 s.boolNames.length)]

/-- The lines for a function. -/
def functionLines (f : ShaderFunction) (accurateErrors : Bool) : List String :=
  ["", f.name ++ " (" ++ Fingerprint.ofFunction f "" accurateErrors "" ++ ")"]
    ++ (match f.signature with
      | .error e => ["  error: " ++ e.toFailure.text]
      | .ok s => signatureLines s)

/-- Makes a configuration with one library. -/
def runInit (config library file outputDir : String) (force : Bool) : m Nat := do
  let path := DiskPath.ofString config
  if (← Disk.isThere path) && !force then
    failWith ⟨.general, path.toText ++ " already exists, use --force to overwrite it", none, none⟩
  else
    let place ← orFault .path ((← Sources.current).resolve path)
    let project : Project :=
      { root := place.parent, outputDir := outputDir
        libraries := [{ name := library, file := file }] }
    project.save path
    say ("Created " ++ path.toText)
    return 0

/-- Shows the functions of a source, their pins and their fingerprints. -/
def runInspect [Clock m] (source : String) (accurateErrors : Bool) : m Nat := do
  let path := DiskPath.ofString source
  match ← readSource path with
  | .error e => failWith e
  | .ok text =>
    match ShaderFunction.scan text with
    | .error e => failWith (e.toFailure.inFile path.toText)
    | .ok functions =>
      say ("// hlsl2mat v" ++ programVersion ++ ", " ++ (← Clock.now).readable)
      say
        ("// " ++ path.toText ++ ": " ++ toString functions.length ++ " functions")
      for f in functions do
        (functionLines f accurateErrors).forM say
      return if functions.all fun f => f.signature matches .ok _ then 0 else 1

/-- Generates libraries of a project. -/
def runGenerate [Clock m] [MonadStateOf Supply m] (names : Option (List String)) (p : Project) :
    m Nat := do
  match p.selected names with
  | .error e => failWith e.toFailure
  | .ok libraries =>
    let reports ← p.updateAll libraries
    (reports.flatMap reportLines).forM say
    return if reports.all (·.isOk) then 0 else 1

/-- Remaps the messages of a text, and gives the first that points at a place. -/
def remapLines (p : Project) : List String → m (Option LocatedError)
  | [] => return none
  | line :: rest => do
    match ← p.remap? line with
    | none =>
      say line
      remapLines p rest
    | some e =>
      say e.text
      let _ ← remapLines p rest
      return some e

/-- Remaps compiler messages, and opens the first place in the editor if that is asked for. -/
def runRemap [Environment m] (logFile : Option String) (openFirst : Bool) (p : Project) : m Nat := do
  let text ← match logFile with
    | none => Terminal.readInput
    | some file =>
      match ← Sources.readText (.ofString file) with
      | .ok text => pure text
      | .error e => throw (.file e)
  match ← remapLines p (Text.splitLines text) with
  | none => return 0
  | some e =>
    if !openFirst then return 0
    try
      p.editor.openAt e
      return 0
    catch
      | .failure f => failWith f
      | fault => throw fault

/-- Runs a command; `watch` watches a project. -/
def run [Clock m] [Environment m] [MonadStateOf Supply m] (watch : Project → Binary64 → m Unit) :
    Command → m Nat
  | .init config library file outputDir force => runInit config library file outputDir force
  | .generate config names => withProject config (runGenerate names)
  | .watch config interval => withProject config fun p => do
    watch p interval
    return 0
  | .inspect source accurateErrors => runInspect source accurateErrors
  | .remapErrors config logFile openFirst => withProject config (runRemap logFile openFirst)

/-- Runs the words of a command line; 2 is the status of one that is no command. -/
def runWords [Clock m] [Environment m] [MonadStateOf Supply m]
    (watch : Project → Binary64 → m Unit) (words : List String) : m Nat := do
  match parse words with
  | .error e =>
    Journal.log .error e.message
    return 2
  | .ok .help =>
    usage.forM say
    return 0
  | .ok (.run c) => run watch c

end

end ShaderGraph.Command
