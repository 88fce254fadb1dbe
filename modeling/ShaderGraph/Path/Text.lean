import ShaderGraph.Path.Basic

/-!
# Paths as text

Virtual paths are not paths of a file system, so they are handled as text: joined to a folder,
cut at their last slash and brought to a normal form without empty names, `.` and `..`.
-/

namespace ShaderGraph.PathText

open Text

/-- A text without its trailing slashes. -/
def dropTrailingSlashes (s : String) : String :=
  String.ofList (s.toList.reverse.dropWhile (· = '/')).reverse

/-- A text without its leading slashes. -/
def dropLeadingSlashes (s : String) : String := String.ofList (s.toList.dropWhile (· = '/'))

/-- The path `q` seen from the folder `p`. -/
def join (p q : String) : String :=
  if beginsWith q "/" then q
  else if p.isEmpty || finishesWith p "/" then p ++ q
  else p ++ "/" ++ q

/-- The folder of a path: what stands before its last slash, or the slashes it consists of. -/
def folder (p : String) : String :=
  let head := String.ofList (p.toList.reverse.dropWhile (· != '/')).reverse
  if head.toList.all (· = '/') then head else dropTrailingSlashes head

/-- The names that remain after one more, the latest first. A `..` takes a name away if there is
one to take; at the start it stays, but not below the root. -/
def walk (rooted : Bool) (latest : List String) (name : String) : List String :=
  if name = ".." then
    match latest with
    | [] => if rooted then [] else [".."]
    | n :: r => if n = ".." then ".." :: latest else r
  else name :: latest

/-- The normal form of a path. -/
def normal (p : String) : String :=
  let anchor := Anchor.ofChars p.toList
  let names := ((DiskPath.namesOf p.toList).foldl (walk (anchor != .here)) []).reverse
  if anchor = .here ∧ names = [] then "." else anchor.text ++ "/".intercalate names

/-- The normal form of a path seen from a directory. -/
def absolute (directory p : String) : String :=
  normal (if beginsWith p "/" then p else join directory p)

end ShaderGraph.PathText
