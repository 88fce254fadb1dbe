import ShaderGraph.Yaml.Cursor

/-!
# Plain scalars

A plain scalar has no quotes. It ends at a colon or a comment sign that blanks set apart, between
brackets also at the signs of a flow collection, and at a line with less indentation. Line breaks
inside of it count as in quoted scalars.
-/

namespace ShaderGraph.Yaml.Plain

/-- The signs of flow collections. -/
def isFlowSign (c : Char) : Bool :=
  c == ',' || c == '[' || c == ']' || c.toNat == 0x7B || c.toNat == 0x7D

/-- Whether a plain scalar ends before the next character. -/
def isEnd (flow : Bool) : List Char → Bool
  | [] => true
  | c :: r =>
    c == ' ' || c == '\t' || isBreak c
      || (c == ':' && (isGapNext r || (flow && r.head?.any isFlowSign)))
      || (flow && (c == '?' || isFlowSign c))

/-- The characters up to the end of the scalar or the next blank. -/
def run (flow : Bool) : List Char → List Char
  | [] => []
  | c :: r => if isEnd flow (c :: r) then [] else c :: run flow r

/-- Line ends and spaces after a first line end, as many as there are; nothing if a document ends
there. -/
def breaks : Nat → Cursor → Option (List Char) × Cursor
  | 0, c => (some [], c)
  | n + 1, c =>
    match c.rest with
    | ' ' :: _ => breaks n c.next
    | _ =>
      match c.lineEnd with
      | ([], c) => (some [], c)
      | (e, c) =>
        if c.atSeparator then (none, c)
        else
          let (es, c) := breaks n c
          (es.map (e ++ ·), c)

/-- What the blanks and line ends after a part of a scalar count as, empty at its end; and whether a
line end is among them. -/
def gap (c : Cursor) : List Char × Bool × Cursor :=
  let (blanks, c) := c.takeWhile (· == ' ')
  match c.lineEnd with
  | ([], c) => (blanks, false, c)
  | (e, c) =>
    if c.atSeparator then ([], true, c)
    else
      match breaks (c.rest.length + 1) c with
      | (none, c) => ([], true, c)
      | (some es, c) =>
        (if e ≠ ['\n'] then e ++ es else if es = [] then [' '] else es, true, c)

/-- The parts of a scalar, `before` being what stands before the next one, and whether a line end
follows the last part. -/
def parts (flow : Bool) (indent : Int) : Nat → List Char → Cursor → List Char × Bool × Cursor
  | 0, _, c => ([], false, c)
  | n + 1, before, c =>
    match if isNext '#' c.rest then [] else run flow c.rest with
    | [] => ([], false, c)
    | part =>
      let (blanks, broken, c) := gap (c.skip part.length)
      if blanks.isEmpty || isNext '#' c.rest || (!flow && c.column < indent) then
        (before ++ part, broken, c)
      else
        let (more, later, c') := parts flow indent n blanks c
        (before ++ part ++ more, if more.isEmpty then broken else later, c')

/-- A plain scalar, inside of a collection with an indentation, and whether it is followed by a line
end. -/
def read (flow : Bool) (outer : Int) (c : Cursor) : String × Bool × Cursor :=
  let (cs, broken, c) := parts flow (outer + 1) (c.rest.length + 1) [] c
  (String.ofList cs, broken, c)

end ShaderGraph.Yaml.Plain
