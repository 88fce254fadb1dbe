import ShaderGraph.Json.Reader
import ShaderGraph.Yaml.Cursor

/-!
# Quoted scalars

Between single quotes, two single quotes stand for one. Between double quotes, a backslash starts an
escape, or joins lines when it stands at the end of one. In both, a line break with the blanks around
it counts as a space, and of several line breaks the first is dropped.
-/

namespace ShaderGraph.Yaml

/-- The escapes of one letter. -/
def shortEscapes : List (Char × Char) := [
  ('0', '\x00'), ('a', '\x07'), ('b', '\x08'), ('t', '\t'), ('\t', '\t'), ('n', '\n'),
  ('v', '\x0b'), ('f', '\x0c'), ('r', '\r'), ('e', '\x1b'), (' ', ' '), ('"', '"'), ('\\', '\\'),
  ('/', '/'), ('N', '\x85'), ('_', '\xa0'), ('L', '\u2028'), ('P', '\u2029')]

/-- The escapes with a number, and how many hexadecimal digits it has. -/
def longEscapes : List (Char × Nat) := [('x', 2), ('u', 4), ('U', 8)]

/-- The number that so many hexadecimal digits spell. -/
def hexNumber? (n : Nat) (cs : List Char) : Option Nat :=
  if (cs.take n).length = n then
    (cs.take n).foldl (fun acc c => match acc, Json.hexValue? c with
      | some v, some d => some (16 * v + d)
      | _, _ => none) (some 0)
  else none

/-- The character that the digits of an escape name. -/
def numberedCharacter (n : Nat) (c : Cursor) : Except ReadError (Char × Cursor) :=
  match hexNumber? n c.rest with
  | none => c.fail "expected hexadecimal digits"
  | some v => if v < 0x110000 then .ok (Json.charOf v, c.skip n) else .error (.noCharacter v)

namespace Quoted

/-- Line ends and the blanks at the starts of lines, as many as there are. -/
def breaks : Nat → Cursor → Except ReadError (List Char × Cursor)
  | 0, c => .ok ([], c)
  | n + 1, c =>
    if c.atSeparator then c.fail "unexpected document separator"
    else
      let c := c.dropWhile fun d => d == ' ' || d == '\t'
      match c.lineEnd with
      | ([], c) => .ok ([], c)
      | (e, c) => (breaks n c).map fun (es, c) => (e ++ es, c)

/-- What blanks and line ends inside of quotes count as. -/
def gap (c : Cursor) : Except ReadError (List Char × Cursor) :=
  let (blanks, c) := c.takeWhile fun d => d == ' ' || d == '\t'
  if c.rest = [] then c.fail "unexpected end of a quoted scalar"
  else
    match c.lineEnd with
    | ([], c) => .ok (blanks, c)
    | (e, c) => (breaks c.rest.length.succ c).map fun (es, c) =>
      (if e ≠ ['\n'] then e ++ es else if es = [] then [' '] else es, c)

/-- The characters that stand for themselves between either quotes. -/
def isOrdinary (c : Char) : Bool :=
  !(c == '\'' || c == '"' || c == '\\' || c == ' ' || c == '\t' || isBreak c)

/-- The character or the line break that an escape stands for, after its backslash. -/
def escape (c : Cursor) : Except ReadError (List Char × Cursor) :=
  match c.rest with
  | [] => c.fail "unknown escape"
  | d :: _ =>
    match shortEscapes.find? fun e => e.1 == d with
    | some e => .ok ([e.2], c.next)
    | none =>
      match longEscapes.find? fun e => e.1 == d with
      | some e => (numberedCharacter e.2 c.next).map fun (v, c) => ([v], c)
      | none =>
        if isBreak d then breaks c.rest.length c.next else c.fail "unknown escape"

/-- A quoted scalar from its next character on, up to the closing quote. -/
def content (double : Bool) : Nat → Cursor → Except ReadError (List Char × Cursor)
  | 0, c => c.fail "unexpected end of a quoted scalar"
  | n + 1, c =>
    let more (found : List Char × Cursor) : Except ReadError (List Char × Cursor) :=
      (content double n found.2).map fun (cs, c) => (found.1 ++ cs, c)
    match c.rest with
    | [] => c.fail "unexpected end of a quoted scalar"
    | '\'' :: r =>
      if double then more (['\''], c.next)
      else if isNext '\'' r then more (['\''], c.skip 2)
      else .ok ([], c.next)
    | '"' :: _ => if double then .ok ([], c.next) else more (['"'], c.next)
    | '\\' :: _ => if double then (escape c.next).bind more else more (['\\'], c.next)
    | d :: _ => if isOrdinary d then more (c.takeWhile isOrdinary) else (gap c).bind more

/-- A quoted scalar at its opening quote. -/
def read (c : Cursor) : Except ReadError (String × Cursor) :=
  (content (isNext '"' c.rest) (c.rest.length + 1) c.next).map fun (cs, c) => (String.ofList cs, c)

end Quoted

end ShaderGraph.Yaml
