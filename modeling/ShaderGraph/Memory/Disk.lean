import ShaderGraph.Host
import ShaderGraph.OrderedMap

/-!
# Disks in memory

A disk is a tree of directories and files. A path is followed name by name, each from a directory
that is there, so that even `..` needs one; what is found at the end may be missing. An operation
that is refused leaves the disk as it was, except that the directories made on the way remain.
-/

namespace ShaderGraph

/-- What stands at a place of a disk. -/
inductive Entry where
  | directory
  | file (bytes : ByteArray)

namespace Entry

def isFile : Entry → Bool
  | file _ => true
  | directory => false

def isDirectory : Entry → Bool
  | file _ => false
  | directory => true

end Entry

/-- A disk. A place is given by the names that lead to it, the last one first. -/
structure MemoryDisk where
  entries : OrderedMap (List String) Entry := []

namespace MemoryDisk

/-- What stands at a place. The root is always a directory. -/
def lookup (d : MemoryDisk) (place : List String) : Option Entry :=
  if place = [] then some .directory else d.entries.get? place

/-- The disk with an entry at a place. -/
def put (d : MemoryDisk) (place : List String) (e : Entry) : MemoryDisk :=
  ⟨d.entries.insert place e⟩

theorem lookup_put (d : MemoryDisk) (place other : List String) (e : Entry) (h : other ≠ []) :
    (d.put place e).lookup other = if other = place then some e else d.lookup other := by
  simp only [lookup, put, if_neg h, OrderedMap.get?_insert]

/-- The bytes that a name has at most. -/
def nameLimit : Nat := 255

/-- The bytes that a path has at most. -/
def pathLimit : Nat := 4095

/-- The place of a name, looked up from another place. -/
def step (d : MemoryDisk) (place : List String) (name : String) : Except DiskError (List String) :=
  match d.lookup place with
  | none => .error .notFound
  | some (.file _) => .error .notADirectory
  | some .directory =>
    if nameLimit < name.utf8ByteSize then .error .nameTooLong else .ok (DiskPath.walk place name)

/-- The place that a path from the root leads to. -/
def locate (d : MemoryDisk) (p : DiskPath) : Except DiskError (List String) :=
  if p.names.any fun n => '\x00' ∈ n.toList then .error .unusableName
  else if pathLimit < p.toText.utf8ByteSize then .error .nameTooLong
  else p.names.foldlM d.step []

/-- What stands where a path leads. -/
def find (d : MemoryDisk) (p : DiskPath) : Except DiskError Entry :=
  match d.locate p with
  | .error e => .error e
  | .ok place =>
    match d.lookup place with
    | some e => .ok e
    | none => .error .notFound

/-- Whether something of a kind stands where a path leads. A path that leads nowhere is no error,
unless it is too long. -/
def holds (d : MemoryDisk) (p : DiskPath) (kind : Entry → Bool) : Except DiskError Bool :=
  match d.find p with
  | .ok e => .ok (kind e)
  | .error .nameTooLong => .error .nameTooLong
  | .error _ => .ok false

/-- The bytes of a file. -/
def read (d : MemoryDisk) (p : DiskPath) : Except DiskError ByteArray :=
  match d.find p with
  | .ok (.file bytes) => .ok bytes
  | .ok .directory => .error .isADirectory
  | .error e => .error e

/-- The disk after a file is written. -/
def write (d : MemoryDisk) (p : DiskPath) (bytes : ByteArray) : Except DiskError MemoryDisk :=
  match d.locate p with
  | .error e => .error e
  | .ok place =>
    match d.lookup place with
    | some .directory => .error .isADirectory
    | _ =>
      match d.lookup (place.drop 1) with
      | some .directory => .ok (d.put place (.file bytes))
      | some (.file _) => .error .notADirectory
      | none => .error .notFound

/-- The disk after one directory is made, unless it is there. -/
def makeOne (d : MemoryDisk) (p : DiskPath) : Except DiskError MemoryDisk :=
  match d.locate p with
  | .error e => .error e
  | .ok place =>
    match d.lookup place with
    | some .directory => .ok d
    | some (.file _) => .error .alreadyExists
    | none => .ok (d.put place .directory)

/-- The disk after a directory is made, given by its names in reverse. When the one that it is in is
missing, that one is made first. -/
def makeAll (d : MemoryDisk) : List String → MemoryDisk × Except DiskError Unit
  | [] => (d, .ok ())
  | name :: names =>
    let path : DiskPath := ⟨.root, (name :: names).reverse⟩
    match d.makeOne path with
    | .ok d => (d, .ok ())
    | .error .notFound =>
      match makeAll d names with
      | (d, .error e) => (d, .error e)
      | (d, .ok ()) =>
        match d.makeOne path with
        | .ok d => (d, .ok ())
        | .error e => (d, .error e)
    | .error e => (d, .error e)

/-- The disk without what stands at a place and below it. -/
def removeAt (d : MemoryDisk) (place : List String) : MemoryDisk :=
  ⟨d.entries.filter fun e => !place.isSuffixOf e.1⟩

/-- The disk after a file is put in the place of another one, or where nothing is. -/
def rename (d : MemoryDisk) (p q : DiskPath) : Except DiskError MemoryDisk :=
  match d.read p, d.locate p with
  | .error e, _ => .error e
  | _, .error e => .error e
  | .ok bytes, .ok place => (d.removeAt place).write q bytes

/-- The disk after a file, or a directory with all that is in it, is removed. -/
def remove (d : MemoryDisk) (p : DiskPath) : MemoryDisk :=
  match d.locate p with
  | .ok place => d.removeAt place
  | .error _ => d

/-- The files below a directory, as paths from there. -/
def filesBelow (d : MemoryDisk) (directory : DiskPath) : List String :=
  (d.entries.filter fun e =>
      e.2.isFile && directory.names.isPrefixOf e.1.reverse).map fun e =>
    "/".intercalate (e.1.reverse.drop directory.names.length)

end MemoryDisk

end ShaderGraph
