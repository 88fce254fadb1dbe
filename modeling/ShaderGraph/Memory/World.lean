import ShaderGraph.Memory.Disk
import ShaderGraph.Text.Lines
import ShaderGraph.Watch.Watcher

/-!
# Worlds in memory

A world holds all that a program meets: a disk, the environment, a clock, a supply of identifiers,
and a record of what the program has said, printed, started and asked of its observer. Programs that
run in a world are functions, so that what they do can be computed and reasoned about.
-/

namespace ShaderGraph

/-- The surroundings of a program. -/
structure World where
  disk : MemoryDisk := {}
  /-- the directory that relative paths are seen from -/
  current : DiskPath := .fileSystem
  environment : OrderedMap String String := []
  /-- what is typed in -/
  input : String := ""
  /-- why no program starts, if none does -/
  launchRefusal : Option String := none
  /-- the words for a refusal of the disk -/
  refusal : String := "refused"
  /-- the words for bytes that are no text -/
  noText : String := "no text"
  supply : Supply := .counting
  /-- how often the clock was read -/
  reads : Nat := 0
  /-- the messages of the log -/
  messages : List (Severity × String) := []
  diagnostics : List Diagnostic := []
  /-- the lines that were printed -/
  lines : List String := []
  /-- the command lines of programs that were started -/
  launched : List (List String) := []
  watcher : Watcher := { project := { root := .fileSystem } }
  /-- what the observer was asked to do -/
  calls : List ObserverCall := []

/-- A program that runs in a world. What it did before a fault remains. -/
abbrev InWorld := ExceptT Fault (StateM World)

namespace World

/-- The next reading of the clock, one second after the last. -/
def readClock (w : World) : Instant × World :=
  (.ofSeconds (w.reads + 1), { w with reads := w.reads + 1 })

/-- What a refusal of the disk is to a program. -/
def fault (w : World) (e : DiskError) : Fault := .file (.refused e w.refusal)

/-- A file as text with universal line ends. A name that no file may have is a fault, not a file
that is not readable. -/
def readText (w : World) (p : DiskPath) : Except Fault (Except FileError String) :=
  match w.disk.read (w.current.join p) with
  | .error .unusableName => .error (w.fault .unusableName)
  | .error e => .ok (.error (.refused e w.refusal))
  | .ok bytes =>
    match String.fromUTF8? bytes with
    | some s => .ok (.ok (String.ofList (Text.universalNewlines s.toList)))
    | none => .ok (.error (.undecodable w.noText))

end World

namespace InWorld

/-- What a world tells about a path. -/
def ask (question : MemoryDisk → DiskPath → Except DiskError Bool) (p : DiskPath) : InWorld Bool := do
  let w ← getThe World
  match question w.disk (w.current.join p) with
  | .ok answer => return answer
  | .error e => throw (w.fault e)

/-- A change of the disk, or a fault. -/
def change (f : MemoryDisk → Except DiskError MemoryDisk) : InWorld Unit := do
  let w ← getThe World
  match f w.disk with
  | .ok disk => set { w with disk := disk }
  | .error e => throw (w.fault e)

end InWorld

instance : Disk InWorld where
  current := return (← getThe World).current
  isFile := InWorld.ask fun d p => d.holds p Entry.isFile
  isDirectory := InWorld.ask fun d p => d.holds p Entry.isDirectory
  isThere := InWorld.ask fun d p => d.holds p fun _ => true
  readText p := do
    match (← getThe World).readText p with
    | .ok r => return r
    | .error fault => throw fault
  pause := return
  makeDirectory p := do
    let w ← getThe World
    let (disk, result) := w.disk.makeAll (w.current.join p).names.reverse
    set { w with disk := disk }
    match result with
    | .ok () => return
    | .error e => throw (w.fault e)
  writeText p text := do
    let current := (← getThe World).current
    InWorld.change fun d => d.write (current.join p) text.toUTF8
  rename p q := do
    let current := (← getThe World).current
    InWorld.change fun d => d.rename (current.join p) (current.join q)

instance : Journal InWorld where
  log severity message := modifyThe World fun w =>
    { w with messages := w.messages ++ [(severity, message)] }
  keep d := modifyThe World fun w => { w with diagnostics := w.diagnostics ++ [d] }

instance : Clock InWorld where
  now := modifyGetThe World World.readClock

instance : Environment InWorld where
  value? name := return (← getThe World).environment.get? name
  launch command := do
    match (← getThe World).launchRefusal with
    | some reason => return .error reason
    | none =>
      modifyThe World fun w => { w with launched := w.launched ++ [command] }
      return .ok ()

instance : Terminal InWorld where
  printLine line := modifyThe World fun w => { w with lines := w.lines ++ [line] }
  readInput := return (← getThe World).input

instance : Observer InWorld where
  call c := modifyThe World fun w => { w with calls := w.calls ++ [c] }

instance : MonadStateOf Supply InWorld where
  get := return (← getThe World).supply
  set supply := modifyThe World fun w => { w with supply := supply }
  modifyGet f := modifyGetThe World fun w => ((f w.supply).1, { w with supply := (f w.supply).2 })

instance : MonadStateOf Watcher InWorld where
  get := return (← getThe World).watcher
  set watcher := modifyThe World fun w => { w with watcher := watcher }
  modifyGet f := modifyGetThe World fun w => ((f w.watcher).1, { w with watcher := (f w.watcher).2 })

end ShaderGraph
