import ShaderGraph.Yaml.Cursor

/-!
# Block scalars

A block scalar is a number of indented lines. In literal style the line breaks are kept; in folded
style one break between two lines that start with no blank counts as a space. An indicator says what
becomes of the breaks at the end: the last one is kept, or none, or all of them. Another gives the
indentation, which otherwise is that of the first line with text.
-/

namespace ShaderGraph.Yaml.Literal

/-- What becomes of the line breaks at the end. -/
inductive Chomping where
  | clip
  | strip
  | keep
deriving DecidableEq, Repr

/-- The indicator for the breaks at the end, and the place after it. -/
def chomping? (c : Cursor) : Option Chomping × Cursor :=
  match c.rest with
  | '+' :: _ => (some .keep, c.next)
  | '-' :: _ => (some .strip, c.next)
  | _ => (none, c)

/-- The indicator of the indentation, and the place after it. -/
def increment? (c : Cursor) : Except ReadError (Option Nat × Cursor) :=
  match c.rest with
  | d :: _ =>
    if d = '0' then c.fail "expected an indentation of 1 to 9"
    else if Text.isDigit d then .ok (some (d.toNat - '0'.toNat), c.next)
    else .ok (none, c)
  | [] => .ok (none, c)

/-- The indicators, in either order. -/
def indicators (c : Cursor) : Except ReadError (Chomping × Option Nat × Cursor) := do
  let (first, c) := chomping? c
  let (increment, c) ← increment? c
  let (last, c) := if first.isNone && increment.isSome then chomping? c else (none, c)
  if isSpaceNext c.rest then
    return ((first <|> last).getD .clip, increment, c)
  else c.fail "expected block scalar indicators"

/-- The line breaks before the first line with text, and the widest of the indentations. -/
def leading : Nat → Nat → Cursor → List Char × Nat × Cursor
  | 0, widest, c => ([], widest, c)
  | n + 1, widest, c =>
    match c.rest with
    | ' ' :: _ => leading n (max widest c.next.column) c.next
    | _ =>
      match c.lineEnd with
      | ([], c) => ([], widest, c)
      | (e, c) =>
        let (es, widest, c) := leading n widest c
        (e ++ es, widest, c)

/-- The place after spaces, not beyond a column. -/
def dropIndent (indent : Nat) (c : Cursor) : Cursor :=
  c.skip (min (indent - c.column) (c.rest.takeWhile (· == ' ')).length)

/-- The line breaks of empty lines, and the place in the next line, not beyond its indentation. -/
def breaks (indent : Nat) : Nat → Cursor → List Char × Cursor
  | 0, c => ([], c)
  | n + 1, c =>
    let c := dropIndent indent c
    match c.lineEnd with
    | ([], c) => ([], c)
    | (e, c) =>
      let (es, c) := breaks indent n c
      (e ++ es, c)

/-- Whether text stands at the indentation. -/
def isText (indent : Nat) (c : Cursor) : Bool := c.column == indent && !c.rest.isEmpty

/-- Whether a line starts with a blank. -/
def isBlankNext : List Char → Bool
  | c :: _ => c == ' ' || c == '\t'
  | [] => false

/-- What a line break between two lines counts as, `empty` being the breaks of the empty lines
between them. -/
def joint (folded startsBlank : Bool) (lineEnd empty : List Char) (c : Cursor) : List Char :=
  if folded && lineEnd == ['\n'] && !startsBlank && !isBlankNext c.rest then
    if empty.isEmpty then [' '] else []
  else lineEnd

/-- The lines of the scalar, `before` being the breaks before the next one. -/
def lines (folded : Bool) (chomping : Chomping) (indent : Nat) :
    Nat → List Char → Cursor → List Char × Cursor
  | 0, _, c => ([], c)
  | n + 1, before, c =>
    if isText indent c then
      let startsBlank := isBlankNext c.rest
      let (line, c) := c.takeWhile fun d => !isBreak d
      let (e, c) := c.lineEnd
      let (empty, c) := breaks indent (c.rest.length + 1) c
      if isText indent c then
        let (more, c') := lines folded chomping indent n empty c
        (before ++ line ++ joint folded startsBlank e empty c ++ more, c')
      else
        let tail := match chomping with
          | .clip => e
          | .strip => []
          | .keep => e ++ empty
        (before ++ line ++ tail, c)
    else (if chomping = .keep then before else [], c)

/-- A block scalar at its indicator, inside of a collection with an indentation. -/
def read (folded : Bool) (outer : Int) (c : Cursor) : Except ReadError (String × Cursor) := do
  let (chomping, increment, c) ← indicators c.next
  let c ← c.endLine
  let least := (max (outer + 1) 1).toNat
  let fuel := c.rest.length + 1
  let (before, indent, c) := match increment with
    | some i =>
      let (es, c) := breaks (least + i - 1) fuel c
      (es, least + i - 1, c)
    | none =>
      let (es, widest, c) := leading fuel 0 c
      (es, max least widest, c)
  let (cs, c) := lines folded chomping indent fuel before c
  return (String.ofList cs, c)

end ShaderGraph.Yaml.Literal
