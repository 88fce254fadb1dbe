import ShaderGraph.Json.Reader
import ShaderGraph.Text.Numeral
import ShaderGraph.Yaml.Cursor

/-!
# Tokens of a YAML text

A text is a list of tokens: indicators, properties of nodes, scalars, and the starts and ends of
block collections, which no character stands for but which follow from the indentation.
-/

namespace ShaderGraph.Yaml

/-- A line for the reader at the start of a document. -/
inductive Directive where
  | version (major minor : Nat)
  | tagHandle (handle tagStart : String)
  | unknown
deriving DecidableEq, Repr

/-- A token. -/
inductive Token where
  | directive (d : Directive)
  | documentStart
  | documentEnd
  | blockSequenceStart
  | blockMappingStart
  | blockEnd
  | flowSequenceStart
  | flowSequenceEnd
  | flowMappingStart
  | flowMappingEnd
  | flowEntry
  | blockEntry
  | key
  | value
  | alias (name : String)
  | anchor (name : String)
  /-- a tag with its handle, or one that is written in full -/
  | tag (handle : Option String) (suffix : String)
  | scalar (text : String) (isPlain : Bool)
deriving DecidableEq, Repr

namespace Token

/-- The characters of names. -/
def isNameChar (c : Char) : Bool := c.isAlphanum || c == '-' || c == '_'

/-- The characters of a tag besides escapes. -/
def isTagChar (c : Char) : Bool := c.isAlphanum || "-;/?:@&=+$,_.!~*'()[]".toList.contains c

/-- The name of an anchor or an alias, after its indicator. -/
def readName (c : Cursor) : Except ReadError (String × Cursor) :=
  let (name, c) := c.takeWhile isNameChar
  let ends := match c.rest with
    | [] => true
    | d :: _ => isGapNext [d] || "?:,]%@\x7d\x60".toList.contains d
  if name.isEmpty || !ends then c.fail "expected a name" else .ok (String.ofList name, c)

/-- The bytes of escapes, two hexadecimal digits after each percent sign. -/
def escapedBytes : Nat → Cursor → Except ReadError (List UInt8 × Cursor)
  | 0, c => .ok ([], c)
  | n + 1, c =>
    match c.rest with
    | '%' :: a :: b :: _ =>
      match Json.hexValue? a, Json.hexValue? b with
      | some h, some l =>
        (escapedBytes n (c.skip 3)).map fun (more, c) => (UInt8.ofNat (16 * h + l) :: more, c)
      | _, _ => c.fail "expected hexadecimal digits"
    | '%' :: _ => c.fail "expected hexadecimal digits"
    | _ => .ok ([], c)

/-- A tag or a part of one. -/
def readUri : Nat → Cursor → Except ReadError (String × Cursor)
  | 0, c => .ok ("", c)
  | n + 1, c => do
    let (cs, c) := c.takeWhile isTagChar
    if isNext '%' c.rest then
      let (escaped, c) ← escapedBytes (c.rest.length + 1) c
      match String.fromUTF8? ⟨escaped.toArray⟩ with
      | some s =>
        let (more, c) ← readUri n c
        return (String.ofList cs ++ s ++ more, c)
      | none => c.fail "escapes of a tag are no text"
    else return (String.ofList cs, c)

/-- A tag or a part of one that is not empty. -/
def readUri1 (c : Cursor) : Except ReadError (String × Cursor) := do
  let (s, c') ← readUri (c.rest.length + 1) c
  if c'.index = c.index then c.fail "expected a tag" else return (s, c')

/-- The handle of a tag: an exclamation mark, or a name between two of them. -/
def readHandle (c : Cursor) : Except ReadError (String × Cursor) :=
  match c.rest with
  | '!' :: r =>
    if isNext ' ' r then .ok ("!", c.next)
    else
      let (name, c) := c.next.takeWhile isNameChar
      if isNext '!' c.rest then .ok ("!" ++ String.ofList name ++ "!", c.next)
      else c.fail "expected an exclamation mark"
  | _ => c.fail "expected an exclamation mark"

/-- A tag at its exclamation mark, whatever follows it. -/
def readTagText (c : Cursor) : Except ReadError (Token × Cursor) :=
  match c.next.rest with
  | '<' :: _ => do
    let (uri, c) ← readUri1 (c.skip 2)
    if isNext '>' c.rest then return (tag none uri, c.next) else c.fail "expected the end of a tag"
  | r =>
    if isGapNext r then .ok (tag none "!", c.next)
    else if (r.takeWhile fun d => !(d == ' ' || isBreak d)).contains '!' then do
      let (handle, c) ← readHandle c
      let (suffix, c) ← readUri1 c
      return (tag (some handle) suffix, c)
    else do
      let (suffix, c) ← readUri1 c.next
      return (tag (some "!") suffix, c)

/-- A tag at its exclamation mark. -/
def readTag (c : Cursor) : Except ReadError (Token × Cursor) := do
  let (t, c) ← readTagText c
  if isSpaceNext c.rest then return (t, c) else c.fail "expected a space after a tag"

/-- The digits of a version. -/
def readNumber (c : Cursor) : Except ReadError (Nat × Cursor) :=
  match c.takeWhile Text.isDigit with
  | ([], c) => c.fail "expected a digit"
  | (ds, c) =>
    match Numeral.ofDigits ds with
    | .ok n => .ok (n, c)
    | .error _ => .error (.noNumber (String.ofList ds))

/-- The version of a directive, after its name. -/
def readVersion (c : Cursor) : Except ReadError (Directive × Cursor) := do
  let (major, c) ← readNumber c.dropSpaces
  if !isNext '.' c.rest then c.fail "expected a version" else
  let (minor, c) ← readNumber c.next
  if isSpaceNext c.rest then return (.version major minor, c) else c.fail "expected a version"

/-- The handle of a directive and what it stands for, after the name of the directive. -/
def readTagHandle (c : Cursor) : Except ReadError (Directive × Cursor) := do
  let (handle, c) ← readHandle c.dropSpaces
  if !isNext ' ' c.rest then c.fail "expected a space" else
  let (tagStart, c) ← readUri1 c.dropSpaces
  if isSpaceNext c.rest then return (.tagHandle handle tagStart, c) else c.fail "expected a space"

/-- A directive at its percent sign, with the rest of its line. -/
def readDirective (c : Cursor) : Except ReadError (Token × Cursor) := do
  let (name, c) := c.next.takeWhile isNameChar
  if name.isEmpty || !isSpaceNext c.rest then c.fail "expected the name of a directive"
  else
    let (d, c) ←
      if name = "YAML".toList then readVersion c
      else if name = "TAG".toList then readTagHandle c
      else .ok (.unknown, c.dropLine)
    return (directive d, ← c.endLine)

end Token

end ShaderGraph.Yaml
