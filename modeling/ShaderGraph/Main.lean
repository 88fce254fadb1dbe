import ShaderGraph.Command.Run
import ShaderGraph.Digest
import ShaderGraph.Text.Lines
import Std.Time.DateTime

/-!
# The program

Commands run on the real disk, with messages on the error output. Identifiers are made of a random
seed, and watched files are looked at in turn, a change of their content being an event. Other
programs are not started.
-/

namespace ShaderGraph

/-- Identifiers in the shape of random ones, made of a seed. -/
def Supply.ofSeed (seed : String) : Supply :=
  let draw (n : Nat) :=
    let digits := (Digest.hash (seed ++ toString n)).toList.map Char.toLower
    let group (a b : Nat) := String.ofList ((digits.drop a).take b)
    "-".intercalate [group 0 8, group 8 4, "4" ++ group 13 3, "8" ++ group 17 3, group 20 12]
  ⟨draw, 0⟩

/-- A program on the real disk. -/
abbrev Shell := ExceptT Fault IO

/-- A program that draws identifiers and may watch a project. -/
abbrev Program := StateT Watcher (StateT Supply Shell)

namespace Shell

/-- Whether an error has a number, which some operations give with a minus sign. -/
def hasNumber (n code : UInt32) : Bool := code == n || code == 0 - n

/-- Why the system refuses an operation. -/
def causeOf : IO.Error → DiskError
  | .noFileOrDirectory _ _ _ => .notFound
  | .alreadyExists _ _ _ => .alreadyExists
  | .inappropriateType _ code _ => if hasNumber 21 code then .isADirectory else .notADirectory
  | .otherError code _ => if hasNumber 36 code then .nameTooLong else .other
  | _ => .other

/-- The outcome of an operation of the system. -/
def outcome {α : Type} (x : IO α) : IO (Except FileError α) := do
  match ← x.toBaseIO with
  | .ok a => return .ok a
  | .error e => return .error (.refused (causeOf e) (toString e))

/-- An operation of the system, or a fault. -/
def orFault {α : Type} (x : IO α) : Shell α := do
  match ← outcome x with
  | .ok a => return a
  | .error e => throw (.file e)

/-- What stands at a path, told by reading it. -/
def kindOf (path : DiskPath) : IO (Option Bool) := do
  match ← outcome (IO.FS.readBinFile path.toText) with
  | .ok _ => return some true
  | .error (.refused .isADirectory _) => return some false
  | .error _ => return none

def readText (path : DiskPath) : IO (Except FileError String) := do
  match ← outcome (IO.FS.readBinFile path.toText) with
  | .error e => return .error e
  | .ok bytes =>
    match String.fromUTF8? bytes with
    | some s => return .ok (String.ofList (Text.universalNewlines s.toList))
    | none => return .error (.undecodable "the file is no text in UTF-8")

/-- Makes a directory, given by its names in reverse, after those it is in. -/
def makeDirectories (anchor : Anchor) : List String → Shell Unit
  | [] => return
  | name :: names => do
    makeDirectories anchor names
    let path : DiskPath := ⟨anchor, (name :: names).reverse⟩
    if (← kindOf path) != some false then orFault (IO.FS.createDir path.toText)

/-- All lines that are typed in. -/
partial def readLines (input : IO.FS.Stream) (s : String) : IO String := do
  let line ← input.getLine
  if line.isEmpty then return s else readLines input (s ++ line)

end Shell

instance : Disk Shell where
  current := return .ofString (← Shell.orFault IO.currentDir).toString
  isFile p := return (← Shell.kindOf p) == some true
  isDirectory p := return (← Shell.kindOf p) == some false
  isThere p := return (← Shell.kindOf p).isSome
  readText p := Shell.readText p
  pause := IO.sleep 100
  makeDirectory p := Shell.makeDirectories p.anchor p.names.reverse
  writeText p s := Shell.orFault (IO.FS.writeFile p.toText s)
  rename p q := Shell.orFault (IO.FS.rename p.toText q.toText)

instance : Journal Shell where
  log severity message := IO.eprintln (Text.padRight 8 severity.label ++ " " ++ message)
  keep _ := return

instance : Clock Shell where
  now := do
    let t ← Shell.orFault Std.Time.Timestamp.now
    return ⟨t.toNanosecondsSinceUnixEpoch.toInt.toNat / 1000⟩

instance : Environment Shell where
  value? name := IO.getEnv name
  launch _ := return .error "programs are not started"

instance : Terminal Shell where
  printLine line := IO.println line
  readInput := do Shell.readLines (← IO.getStdin) ""

instance : Observer Shell where
  call _ := return

/-- The contents of the watched files. -/
def watchedContents : Program (List (String × Option String)) := do
  let files := (← getThe Watcher).handlers.flatMap fun h => h.2.files
  files.mapM fun f => do
    match ← Shell.readText (.ofString f) with
    | .ok s => return (f, some s)
    | .error _ => return (f, none)

/-- Looks at the watched files again and again. -/
partial def watchFrom (millis : UInt32) (seen : List (String × Option String)) : Program Unit := do
  IO.sleep millis
  let found ← watchedContents
  for (file, content) in found do
    if seen.lookup file != some content && content.isSome then Watcher.deliver (.modified file)
  let _ ← Watcher.tick (m := Program)
  let watched ← watchedContents
  watchFrom millis (watched.map fun (file, content) => (file, (found.lookup file).getD content))

/-- Watches a project. -/
def watchProject (p : Project) (interval : Binary64) : Program Unit := do
  set ({ project := p } : Watcher)
  let _ ← Watcher.start (m := Program)
  logInfo "Watching for changes (press Ctrl+C to exit)..."
  let millis := (Float.ofBits interval.bits * 1000).toUInt32
  watchFrom millis (← watchedContents)

/-- The words for a fault. -/
def Fault.text : Fault → String
  | .file e => e.reason
  | .path .unusableName => "path with an unusable name"
  | .numeral .tooLong => "number with too many digits"
  | .json e => (DocumentFault.unreadable e).text
  | .document e => (DocumentFault.content e).text
  | .words .unclosedQuote => "No closing quotation"
  | .words .trailingBackslash => "No escaped character"
  | .value e => e.text
  | .failure f => f.text

end ShaderGraph

open ShaderGraph

def main (words : List String) : IO UInt32 := do
  let seed ← IO.getRandomBytes 20
  let program : Program Nat := Command.runWords watchProject words
  let watcher : Watcher := { project := { root := .fileSystem } }
  match ← ((program.run' watcher).run' (Supply.ofSeed (toString seed.toList))).run with
  | .ok status => return status.toUInt32
  | .error fault =>
    IO.eprintln (Text.padRight 8 Severity.error.label ++ " " ++ fault.text)
    return 1
