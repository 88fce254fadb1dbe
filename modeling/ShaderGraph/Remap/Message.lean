import ShaderGraph.Graph.Code
import ShaderGraph.Path.Basic
import ShaderGraph.Remap.Location

/-!
# Compiler messages

A message about generated code names its library source between the two marks that the code carries.
A message about a shader file has a bracketed note, a virtual path and a location. Either is cut
into what stands before the path, the path, and what follows it. Once the file is known and the
location is read, the message points at a place that an editor can open.
-/

namespace ShaderGraph

/-- A compiler error that points at a file on disk. -/
structure LocatedError where
  /-- the text before the location -/
  before : String
  /-- the file, as the message names it -/
  path : String
  file : DiskPath
  line : Nat
  first : Option Nat := none
  last : Option Nat := none
  /-- the text after the location -/
  rest : String := ""
deriving DecidableEq, Repr

namespace LocatedError

/-- The location as editors write it. -/
def location (e : LocatedError) : String :=
  e.path ++ ":" ++ toString e.line ++ ":" ++ (e.first.map toString).getD ""
    ++ (match e.last with
      | some n => "-" ++ toString n
      | none => "")

/-- The message with its location as editors write it. -/
def text (e : LocatedError) : String := e.before ++ e.location ++ e.rest

end LocatedError

namespace Remap

open Text

/-- The file that a message names. -/
inductive Target where
  /-- a library source, seen from the root of the project -/
  | source (path : String)
  | virtual (path : String)
deriving DecidableEq, Repr

/-- The path as it is written. -/
def Target.path : Target → String
  | source p => p
  | virtual p => p

/-- A message around its path. -/
structure Cut where
  before : String
  target : Target
  after : String
deriving DecidableEq, Repr

/-- What `read?` finds at the last place where it finds something, and the text before it. -/
def searchLast? {α : Type} (read? : List Char → Option α) : List Char → Option (List Char × α)
  | [] => none
  | c :: cs =>
    match searchLast? read? cs with
    | some (before, a) => some (c :: before, a)
    | none => (read? (c :: cs)).map fun a => ([], a)

/-- The end of a note with the path after it, which reaches to the first parenthesis, and the rest
of the line, which has a closing parenthesis and a colon. -/
def pathAfterNote? (cs : List Char) : Option (List Char × List Char) :=
  match dropLiteral? "] /".toList cs with
  | none => none
  | some r =>
    match r.dropWhile (· != '(') with
    | [] => none
    | _ :: t =>
      if occursIn "): ".toList t then some ('/' :: r.takeWhile (· != '('), '(' :: t) else none

/-- A line from its first bracket on, cut around a virtual path. -/
def cutLine? (line : List Char) : Option Cut :=
  match line.dropWhile (· != '[') with
  | [] => none
  | _ :: note =>
    (searchLast? pathAfterNote? note).map fun (note, path, after) =>
      ⟨String.ofList ('[' :: note ++ "] ".toList), .virtual (String.ofList path), String.ofList after⟩

/-- A message cut around the path it names. -/
def cut? (message : String) : Option Cut :=
  match Text.cut? Code.pathStart message with
  | some (before, r) =>
    (Text.cut? Code.pathEnd r).map fun (path, after) => ⟨before, .source path, after⟩
  | none => (pieces '\n' message.toList).findSome? cutLine?

/-- The place that a message points at when its path is that of a file. -/
def Cut.locate (c : Cut) (file : DiskPath) : Except NumeralError (Option LocatedError) := do
  match location? c.after.toList with
  | none => return none
  | some l =>
    match ← number l.line with
    | none => return none
    | some line =>
      return some
        { before := c.before, path := c.target.path, file := file, line := line
          first := ← number l.first, last := ← number l.last, rest := String.ofList l.rest }

end Remap

end ShaderGraph
