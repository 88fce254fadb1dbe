import ShaderGraph.Yaml.Literal
import ShaderGraph.Yaml.Plain
import ShaderGraph.Yaml.Quoted
import ShaderGraph.Yaml.Token

/-!
# Scanning YAML

The scanner cuts a text into tokens. Outside of brackets, indentation opens and closes block
collections. A node that a colon follows on the same line is a key, which is known only at the colon:
the scanner remembers where a key may have started, at most one for each level of brackets, and puts
the key's token there. A place is forgotten at the end of its line or after 1024 characters, unless
only a key can stand at that indentation. The scanner goes no further than it has to: until it is
certain that no key starts at the next token.
-/

namespace ShaderGraph.Yaml

/-- A place where a key may have started. -/
structure KeyPlace where
  /-- the number of all tokens before it -/
  position : Nat
  /-- whether nothing but a key can stand there -/
  required : Bool
  index : Nat
  line : Nat
  column : Nat
deriving Repr

/-- The state of the scanner. -/
structure Scanner where
  cursor : Cursor
  /-- the tokens that are not taken yet -/
  pending : List Token := []
  /-- the number of tokens that are taken -/
  taken : Nat := 0
  /-- whether the end of the text is reached -/
  ended : Bool := false
  /-- the column of the innermost block collection -/
  indent : Int := -1
  /-- the columns of the collections around it, the innermost first -/
  outer : List Int := []
  /-- whether a key may start here -/
  keyAllowed : Bool := true
  /-- where a key may have started, outside of brackets -/
  blockKey : Option KeyPlace := none
  /-- where a key may have started inside of each pair of brackets, the innermost first -/
  flowKeys : List (Option KeyPlace) := []
deriving Repr

namespace Scanner

/-- The longest key, in characters. -/
def longestKey : Nat := 1024

def inFlow (s : Scanner) : Bool := !s.flowKeys.isEmpty

def fail {α : Type} (s : Scanner) (problem : String) : Except ReadError α := s.cursor.fail problem

/-- The state with one more token. -/
def emit (s : Scanner) (t : Token) : Scanner := { s with pending := s.pending ++ [t] }

/-- The number of all tokens so far. -/
def position (s : Scanner) : Nat := s.taken + s.pending.length

/-- The state with a token before those after a position. -/
def insert (s : Scanner) (position : Nat) (t : Token) : Scanner :=
  let before := position - s.taken
  { s with pending := s.pending.take before ++ t :: s.pending.drop before }

/-- The state after the next character. -/
def advance (s : Scanner) (n : Nat) : Scanner := { s with cursor := s.cursor.skip n }

/-- Where a key may have started, between the innermost brackets. -/
def key? (s : Scanner) : Option KeyPlace :=
  match s.flowKeys with
  | [] => s.blockKey
  | k :: _ => k

def setKey (s : Scanner) (k : Option KeyPlace) : Scanner :=
  match s.flowKeys with
  | [] => { s with blockKey := k }
  | _ :: ks => { s with flowKeys := k :: ks }

/-- The state without the place, which is a fault if nothing but a key can stand there. -/
def dropKey (s : Scanner) : Except ReadError Scanner :=
  if s.key?.any (·.required) then s.fail "expected a colon after a key" else .ok (s.setKey none)

/-- Whether a place is too far behind for a key. -/
def isStale (s : Scanner) (k : KeyPlace) : Bool :=
  k.line != s.cursor.line || longestKey < s.cursor.index - k.index

/-- The state without the places that are too far behind. -/
def dropStale (s : Scanner) : Except ReadError Scanner :=
  let fresh (k : KeyPlace) : Bool := !s.isStale k
  if s.blockKey.any fun k => k.required && s.isStale k then s.fail "expected a colon after a key"
  else .ok { s with blockKey := s.blockKey.filter fresh, flowKeys := s.flowKeys.map (·.filter fresh) }

/-- The state in which a key may have started here. -/
def saveKey (s : Scanner) : Except ReadError Scanner :=
  if s.keyAllowed then do
    let s ← s.dropKey
    let required := !s.inFlow && s.indent == s.cursor.column
    return s.setKey (some ⟨s.position, required, s.cursor.index, s.cursor.line, s.cursor.column⟩)
  else .ok s

/-- The ends of the block collections whose column is greater. -/
def closeTo (column : Int) (s : Scanner) : List Int → Scanner
  | [] => s
  | i :: outer =>
    if column < s.indent then closeTo column { s.emit .blockEnd with indent := i, outer := outer } outer
    else s

/-- The state after the block collections that end at a column; brackets keep them open. -/
def unwind (s : Scanner) (column : Int) : Scanner :=
  if s.inFlow then s else closeTo column s s.outer

/-- Whether a collection at a column is deeper than the innermost one. -/
def isDeeper (s : Scanner) (column : Nat) : Bool := s.indent < column

/-- The state inside of a collection at a column. -/
def enter (s : Scanner) (column : Nat) : Scanner :=
  { s with indent := column, outer := s.indent :: s.outer }

/-- A block collection that starts here, unless it is the innermost one. -/
def openBlock (s : Scanner) (start : Token) : Scanner :=
  if s.isDeeper s.cursor.column then (s.enter s.cursor.column).emit start else s

/-- The place of the next token: after spaces, comments and line ends, of which one outside of
brackets lets a key start. -/
def toToken : Nat → Scanner → Scanner
  | 0, s => s
  | n + 1, s =>
    let c := s.cursor.dropSpaces
    let c := if isNext '#' c.rest then c.dropLine else c
    match c.lineEnd with
    | ([], c) => { s with cursor := c }
    | (_, c) => toToken n { s with cursor := c, keyAllowed := s.keyAllowed || !s.inFlow }

/-- A directive or a line that separates documents, which ends all collections. -/
def separator (s : Scanner) (read : Cursor → Except ReadError (Token × Cursor)) :
    Except ReadError Scanner := do
  let s ← (s.unwind (-1)).dropKey
  let (t, c) ← read s.cursor
  return { s.emit t with cursor := c, keyAllowed := false }

def openFlow (s : Scanner) (t : Token) : Except ReadError Scanner := do
  let s ← s.saveKey
  return { (s.emit t).advance 1 with keyAllowed := true, flowKeys := none :: s.flowKeys }

def closeFlow (s : Scanner) (t : Token) : Except ReadError Scanner :=
  match s.flowKeys with
  | [] => s.fail "closing bracket without an opening one"
  | _ :: ks => .ok { (s.emit t).advance 1 with keyAllowed := false, flowKeys := ks }

def flowEntry (s : Scanner) : Except ReadError Scanner := do
  let s ← s.dropKey
  return { (s.emit .flowEntry).advance 1 with keyAllowed := true }

def blockEntry (s : Scanner) : Except ReadError Scanner := do
  if !s.inFlow && !s.keyAllowed then s.fail "sequence entries are not allowed here" else
  let s := if s.inFlow then s else s.openBlock .blockSequenceStart
  let s ← s.dropKey
  return { (s.emit .blockEntry).advance 1 with keyAllowed := true }

/-- A key after a question mark. -/
def explicitKey (s : Scanner) : Except ReadError Scanner := do
  if !s.inFlow && !s.keyAllowed then s.fail "mapping keys are not allowed here" else
  let s := if s.inFlow then s else s.openBlock .blockMappingStart
  let s ← s.dropKey
  return { (s.emit .key).advance 1 with keyAllowed := !s.inFlow }

/-- A colon: its key started at the place that was remembered, if there is one. -/
def value (s : Scanner) : Except ReadError Scanner :=
  match s.key? with
  | some k =>
    let s := (s.setKey none).insert k.position .key
    let s :=
      if !s.inFlow && s.isDeeper k.column then
        (s.enter k.column).insert k.position .blockMappingStart
      else s
    .ok { (s.emit .value).advance 1 with keyAllowed := false }
  | none => do
    if !s.inFlow && !s.keyAllowed then s.fail "mapping values are not allowed here" else
    let s := if s.inFlow then s else s.openBlock .blockMappingStart
    let s ← s.dropKey
    return { (s.emit .value).advance 1 with keyAllowed := !s.inFlow }

/-- A part of a node that may be a key. -/
def nodePart (s : Scanner) (read : Cursor → Except ReadError (Token × Cursor)) :
    Except ReadError Scanner := do
  let s ← s.saveKey
  let (t, c) ← read s.cursor
  return { s.emit t with cursor := c, keyAllowed := false }

def named (make : String → Token) (c : Cursor) : Except ReadError (Token × Cursor) :=
  (Token.readName c.next).map fun (name, c) => (make name, c)

def quoted (c : Cursor) : Except ReadError (Token × Cursor) :=
  (Quoted.read c).map fun (s, c) => (.scalar s false, c)

def literal (s : Scanner) (folded : Bool) : Except ReadError Scanner := do
  let s ← s.dropKey
  let (t, c) ← Literal.read folded s.indent s.cursor
  return { s.emit (.scalar t false) with cursor := c, keyAllowed := true }

def plain (s : Scanner) : Except ReadError Scanner := do
  let s ← s.saveKey
  let (t, broken, c) := Plain.read s.inFlow s.indent s.cursor
  return { s.emit (.scalar t true) with cursor := c, keyAllowed := broken }

/-- Whether a character is the sign of something else than a plain scalar. -/
def isSign (c : Char) : Bool := "-?:,[]\x7b\x7d#&*!|>'\"%@\x60\t".toList.contains c

/-- Whether a plain scalar starts with a character that `r` follows. -/
def startsPlain (s : Scanner) (c : Char) (r : List Char) : Bool :=
  !isSign c || (!isGapNext r && (c == '-' || (!s.inFlow && (c == '?' || c == ':'))))

/-- The next token, whose first character is given. -/
def token (s : Scanner) (c : Char) (r : List Char) : Except ReadError Scanner :=
  let isIndicator := s.inFlow || isGapNext r
  if c == '%' && s.cursor.column == 0 then s.separator Token.readDirective
  else if s.cursor.column == 0 && s.cursor.atSeparator then
    s.separator fun p => .ok (if c == '-' then .documentStart else .documentEnd, p.skip 3)
  else if c == '[' then s.openFlow .flowSequenceStart
  else if c.toNat == 0x7B then s.openFlow .flowMappingStart
  else if c == ']' then s.closeFlow .flowSequenceEnd
  else if c.toNat == 0x7D then s.closeFlow .flowMappingEnd
  else if c == ',' then s.flowEntry
  else if c == '-' && isGapNext r then s.blockEntry
  else if c == '?' && isIndicator then s.explicitKey
  else if c == ':' && isIndicator then s.value
  else if c == '*' then s.nodePart (named .alias)
  else if c == '&' then s.nodePart (named .anchor)
  else if c == '!' then s.nodePart Token.readTag
  else if c == '|' && !s.inFlow then s.literal false
  else if c == '>' && !s.inFlow then s.literal true
  else if c == '\'' || c == '"' then s.nodePart quoted
  else if s.startsPlain c r then s.plain
  else s.fail "character that starts no token"

/-- The state after the next token, or after the ends of all collections at the end of the text. -/
def fetch (s : Scanner) : Except ReadError Scanner := do
  let s ← (toToken (s.cursor.rest.length + 1) s).dropStale
  let s := s.unwind s.cursor.column
  match s.cursor.rest with
  | [] => return { ← (s.unwind (-1)).dropKey with blockKey := none, flowKeys := [], ended := true }
  | c :: r => s.token c r

/-- Whether a key may still start at a token. -/
def isKeyPlace (s : Scanner) (position : Nat) : Bool :=
  (s.blockKey :: s.flowKeys).any fun k => k.any (·.position == position)

/-- The state in which the first of the pending tokens is certain, or none is left; for so many
tokens. -/
def settle : Nat → Scanner → Except ReadError Scanner
  | 0, s => .ok s
  | n + 1, s =>
    if s.ended then .ok s
    else if s.pending.isEmpty then s.fetch.bind (settle n)
    else do
      let s ← s.dropStale
      if s.isKeyPlace s.taken then settle n (← s.fetch) else return s

/-- The state in which the next token is certain, if there is one. -/
def ready (s : Scanner) : Except ReadError Scanner := s.settle (s.cursor.rest.length + 2)

/-- The state after the next token is taken. -/
def take (s : Scanner) : Scanner := { s with pending := s.pending.drop 1, taken := s.taken + 1 }

/-- Whether a character may stand in a text. -/
def isAllowed (c : Char) : Bool :=
  let n := c.toNat
  n == 9 || n == 10 || n == 13 || (0x20 ≤ n && n ≤ 0x7E) || n == 0x85 || (0xA0 ≤ n && n ≤ 0xD7FF)
    || (0xE000 ≤ n && n ≤ 0xFFFD) || 0x10000 ≤ n

/-- A text without the byte order mark at its start. -/
def afterMark : List Char → List Char
  | '\ufeff' :: cs => cs
  | cs => cs

/-- The state at the start of a text. -/
def ofText (text : String) : Except ReadError Scanner :=
  let cs := text.toList
  if cs.all isAllowed then .ok { cursor := { rest := afterMark cs } }
  else (default : Cursor).fail "character that is not allowed"

end Scanner

end ShaderGraph.Yaml
