import ShaderGraph.Text.Search

/-!
# Paths

A path is a list of names below the root of the file system or below the current directory. Slashes
that follow each other count once and a name `.` is dropped when a path is read, except that two
slashes at its start are kept apart from one. A name `..` is kept; only resolving a path takes it
away, together with the name before it. A path with a name that no file may have is not resolved.
-/

namespace ShaderGraph

open Text

/-- Where a path starts. -/
inductive Anchor where
  /-- in the current directory -/
  | here
  | root
  /-- after two slashes -/
  | doubleRoot
deriving DecidableEq, Repr, Inhabited

/-- A path as a list of names. -/
structure DiskPath where
  anchor : Anchor
  names : List String
deriving DecidableEq, Repr, Inhabited

/-- Why a path is not resolved. -/
inductive PathError where
  /-- a name holds a character that no name may hold -/
  | unusableName
deriving DecidableEq, Repr

namespace Anchor

/-- The slashes that a path starts with. -/
def text : Anchor → String
  | here => ""
  | root => "/"
  | doubleRoot => "//"

/-- Where a text starts as a path. -/
def ofChars : List Char → Anchor
  | '/' :: '/' :: '/' :: _ => root
  | '/' :: '/' :: _ => doubleRoot
  | '/' :: _ => root
  | _ => here

end Anchor

namespace DiskPath

/-- The root of the file system. -/
def fileSystem : DiskPath := ⟨.root, []⟩

/-- The names of a text, without those that stay where they are. -/
def namesOf (cs : List Char) : List String :=
  ((pieces '/' cs).filter fun n => n ≠ [] ∧ n ≠ ['.']).map String.ofList

/-- The path that a text spells. -/
def ofString (s : String) : DiskPath := ⟨.ofChars s.toList, namesOf s.toList⟩

/-- A path as text; the current directory is a point. -/
def toText (p : DiskPath) : String :=
  if p.names = [] ∧ p.anchor = .here then "."
  else p.anchor.text ++ "/".intercalate p.names

def isAbsolute (p : DiskPath) : Bool := p.anchor != .here

/-- The path `q` seen from `p`. -/
def join (p q : DiskPath) : DiskPath :=
  if q.isAbsolute then q else ⟨p.anchor, p.names ++ q.names⟩

/-- The path of a name in a directory. -/
def child (p : DiskPath) (name : String) : DiskPath := p.join (ofString name)

/-- The directory that a path is in. -/
def parent (p : DiskPath) : DiskPath := ⟨p.anchor, p.names.dropLast⟩

/-- The last name of a path, empty without one. -/
def name (p : DiskPath) : String := p.names.getLast?.getD ""

/-- The path with the last name changed. -/
def withName (p : DiskPath) (name : String) : DiskPath := ⟨p.anchor, p.names.dropLast ++ [name]⟩

/-- Whether every name may be that of a file: it holds no null character. -/
def isUsable (p : DiskPath) : Bool := p.names.all fun n => '\x00' ∉ n.toList

/-- The names that remain after one more, the latest first, when `..` takes a name away. -/
def walk (latest : List String) (name : String) : List String :=
  if name = ".." then latest.drop 1 else name :: latest

/-- The path from the root of the file system without any `..`, seen from a directory. -/
def resolve (directory p : DiskPath) : Except PathError DiskPath :=
  if (directory.join p).isUsable then
    .ok ⟨.root, ((directory.join p).names.foldl walk []).reverse⟩
  else .error .unusableName

/-- Whether a path is a directory or lies below it. -/
def isWithin (p directory : DiskPath) : Bool :=
  p.anchor = directory.anchor && directory.names.isPrefixOf p.names

/-- The number of names of a path, its root counting as one. -/
def depth (p : DiskPath) : Nat := p.names.length + (if p.isAbsolute then 1 else 0)

end DiskPath

end ShaderGraph
