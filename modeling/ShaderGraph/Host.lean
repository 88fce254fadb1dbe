import ShaderGraph.Diagnostic
import ShaderGraph.Editor.Words
import ShaderGraph.Failure
import ShaderGraph.Instant
import ShaderGraph.Json.Reader
import ShaderGraph.Json.Shape
import ShaderGraph.Path.Basic
import ShaderGraph.Yaml.Cursor

/-!
# The surroundings of a program

What an update, a watch or a command needs of its surroundings, a class for each: the sources it
reads, the disk it writes, the journal of its messages, the clock, the environment and the terminal.
A monad offers them, so that one program runs on a disk in memory and on a real one.
-/

namespace ShaderGraph

/-- Why an operation on the disk is refused. -/
inductive DiskError where
  | notFound
  | notADirectory
  | isADirectory
  | alreadyExists
  | nameTooLong
  /-- a path holds a character that no name may hold -/
  | unusableName
  | other
deriving DecidableEq, Repr, Inhabited

/-- Why a file is not read or written, with the words of the system for it. -/
inductive FileError where
  | refused (cause : DiskError) (reason : String)
  /-- the bytes of the file are no text -/
  | undecodable (reason : String)
deriving DecidableEq, Repr

/-- The words of the system for an error. -/
def FileError.reason : FileError → String
  | refused _ reason => reason
  | undecodable reason => reason

/-- What stops a program. -/
inductive Fault where
  | file (e : FileError)
  | path (e : PathError)
  | numeral (e : NumeralError)
  | json (e : Json.ReadError)
  | document (e : DocumentError)
  | words (e : CommandLine.WordError)
  | value (e : Yaml.ReadError)
  | failure (f : Failure)
deriving DecidableEq, Repr

/-- The files that a program reads. -/
class Sources (m : Type → Type) where
  /-- the directory that relative paths are seen from -/
  current : m DiskPath
  isFile : DiskPath → m Bool
  isDirectory : DiskPath → m Bool
  /-- the text of a file, with universal line ends -/
  readText : DiskPath → m (Except FileError String)
  /-- waits a moment, for an editor that is still writing -/
  pause : m Unit

/-- A disk that a program writes to. -/
class Disk (m : Type → Type) extends Sources m where
  isThere : DiskPath → m Bool
  /-- makes a directory, and those it is in, unless it is there -/
  makeDirectory : DiskPath → m Unit
  writeText : DiskPath → String → m Unit
  /-- puts a file in the place of another one -/
  rename : DiskPath → DiskPath → m Unit

/-- The messages of a program. -/
class Journal (m : Type → Type) where
  log : Severity → String → m Unit
  /-- keeps a diagnostic, for those who ask for it later -/
  keep : Diagnostic → m Unit

class Clock (m : Type → Type) where
  now : m Instant

class Environment (m : Type → Type) where
  value? : String → m (Option String)
  /-- starts another program, or tells why it does not start -/
  launch : List String → m (Except String Unit)

class Terminal (m : Type → Type) where
  printLine : String → m Unit
  readInput : m String

section

/-! A program that adds something to another kind of program meets the same surroundings. -/

variable {m n : Type → Type} [MonadLift m n]

instance [Sources m] : Sources n where
  current := liftM (Sources.current : m DiskPath)
  isFile p := liftM (Sources.isFile p : m Bool)
  isDirectory p := liftM (Sources.isDirectory p : m Bool)
  readText p := liftM (Sources.readText p : m (Except FileError String))
  pause := liftM (Sources.pause : m Unit)

instance [Disk m] : Disk n where
  isThere p := liftM (Disk.isThere p : m Bool)
  makeDirectory p := liftM (Disk.makeDirectory p : m Unit)
  writeText p s := liftM (Disk.writeText p s : m Unit)
  rename p q := liftM (Disk.rename p q : m Unit)

instance [Journal m] : Journal n where
  log severity message := liftM (Journal.log severity message : m Unit)
  keep d := liftM (Journal.keep d : m Unit)

instance [Clock m] : Clock n where
  now := liftM (Clock.now : m Instant)

instance [Environment m] : Environment n where
  value? name := liftM (Environment.value? name : m (Option String))
  launch command := liftM (Environment.launch command : m (Except String Unit))

instance [Terminal m] : Terminal n where
  printLine line := liftM (Terminal.printLine line : m Unit)
  readInput := liftM (Terminal.readInput : m String)

end

/-- A result, or a fault. -/
def orFault {m : Type → Type} [Monad m] [MonadExceptOf Fault m] {ε α : Type} (fault : ε → Fault) :
    Except ε α → m α
  | .ok a => return a
  | .error e => throw (fault e)

/-- Keeps a diagnostic and logs it. -/
def report {m : Type → Type} [Monad m] [Journal m] (d : Diagnostic) : m Unit := do
  Journal.keep d
  Journal.log d.severity d.text

/-- Logs a message that is no diagnostic. -/
def logInfo {m : Type → Type} [Journal m] (message : String) : m Unit := Journal.log .info message

/-- Reads a source, once more after a moment if it is not readable. -/
def readSource {m : Type → Type} [Monad m] [Sources m] (path : DiskPath) :
    m (Except Failure String) := do
  let failed (e : FileError) : Failure :=
    ⟨.reading, "Failed to read " ++ path.toText ++ ": " ++ e.reason, none, none⟩
  match ← Sources.readText path with
  | .ok s => return .ok s
  | .error _ =>
    Sources.pause
    return (← Sources.readText path).mapError failed

end ShaderGraph
