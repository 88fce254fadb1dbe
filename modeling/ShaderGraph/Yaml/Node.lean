import ShaderGraph.Yaml.Scalar
import ShaderGraph.Yaml.Scanner

/-!
# Nodes of a YAML document

A document is a graph of nodes, each with the tag of its type. A plain scalar has the tag of the type
that it looks like, and every other node without a tag that of its kind. A node with an anchor can
stand again as an alias, also inside of itself, so the parts of a collection are given by number.
-/

namespace ShaderGraph.Yaml

/-- A node. -/
inductive Node where
  | scalar (tag content : String)
  | sequence (tag : String) (items : List Nat)
  | mapping (tag : String) (entries : List (Nat × Nat))
deriving Inhabited

/-- The nodes of a document, by number. -/
structure NodeGraph where
  nodes : Array Node
  root : Nat

/-- The tag of a type that every reader knows. -/
def coreTag (name : String) : String := "tag:yaml.org,2002:" ++ name

/-- The tag of the type of a plain scalar. -/
def ScalarType.tag : ScalarType → String
  | null => coreTag "null"
  | bool => coreTag "bool"
  | int => coreTag "int"
  | float => coreTag "float"
  | timestamp => coreTag "timestamp"
  | merge => coreTag "merge"
  | value => coreTag "value"
  | indicator => coreTag "yaml"
  | text => coreTag "str"

/-- A node that is not written. -/
def Node.empty : Node := .scalar ScalarType.null.tag ""

/-- The tag of a node. -/
def Node.tag : Node → String
  | scalar t _ => t
  | sequence t _ => t
  | mapping t _ => t

namespace Document

/-- What is left of a document while it is read. -/
structure State where
  scanner : Scanner
  nodes : Array Node := #[]
  /-- the numbers of the nodes with anchors -/
  anchors : OrderedMap String Nat := []
  /-- what the handles of tags stand for -/
  handles : OrderedMap String String := [("!", "!"), ("!!", coreTag "")]

/-- Whether a node has an anchor that another one had before. -/
def State.isRemembered (s : State) (anchor : Option String) : Bool :=
  match anchor with
  | some a => OrderedMap.has s.anchors a
  | none => false

/-- A reader of a part of a document. -/
abbrev Parse := StateT State (Except ReadError)

def fail {α : Type} (problem : String) : Parse α := throw (.malformed problem none)

/-- The next token. -/
def peek : Parse (Option Token) := do
  let s ← get
  let scanner ← s.scanner.ready
  set { s with scanner }
  return scanner.pending.head?

/-- Goes on after the next token. -/
def drop : Parse Unit := modify fun s => { s with scanner := s.scanner.take }

/-- Whether the next token is one of some tokens; the end of the text is none. -/
def isNextOf (ts : List Token) : Parse Bool := return (← peek).any (· ∈ ts)

/-- Goes on after a token if it is the next one, and tells whether it was. -/
def accept (t : Token) : Parse Bool := do
  if (← peek) = some t then
    drop
    return true
  else return false

/-- Goes on after tokens of a kind, at most so many. -/
def dropAll (t : Token) : Nat → Parse Unit
  | 0 => return
  | n + 1 => do if ← accept t then dropAll t n

/-- A node with the next number. -/
def newNode (n : Node) : Parse Nat :=
  modifyGet fun s => (s.nodes.size, { s with nodes := s.nodes.push n })

/-- The anchor and the tag of a node. -/
structure Properties where
  anchor : Option String := none
  tag : Option (Option String × String) := none

/-- The properties at the head of a node, in either order. -/
def properties : Parse Properties := do
  match ← peek with
  | some (.anchor a) =>
    drop
    match ← peek with
    | some (.tag h s) => drop; return ⟨some a, some (h, s)⟩
    | _ => return ⟨some a, none⟩
  | some (.tag h s) =>
    drop
    match ← peek with
    | some (.anchor a) => drop; return ⟨some a, some (h, s)⟩
    | _ => return ⟨none, some (h, s)⟩
  | _ => return {}

/-- The tag of some properties in full; the tag `!` is none. -/
def fullTag (p : Properties) : Parse (Option String) := do
  match p.tag with
  | none => return none
  | some (none, suffix) => return some suffix
  | some (some handle, suffix) =>
    match OrderedMap.get? (← get).handles handle with
    | some start => return some (start ++ suffix)
    | none => fail "unknown handle of a tag"

/-- The tag of a scalar that is written plain or not. -/
def scalarTag (tag : Option String) (isPlain : Bool) (content : String) : String :=
  match tag with
  | none => if isPlain then (ScalarType.ofPlain content).tag else ScalarType.text.tag
  | some "!" => (ScalarType.ofPlain content).tag
  | some t => t

/-- The tag of a collection. -/
def collectionTag (tag : Option String) (name : String) : String :=
  match tag with
  | none => coreTag name
  | some "!" => coreTag name
  | some t => t

/-- Remembers a node by its anchor. -/
def remember (anchor : Option String) (id : Nat) : Parse Unit :=
  match anchor with
  | some a => modify fun s => { s with anchors := s.anchors.insert a id }
  | none => pure ()

/-- A collection, which has its number before its parts, so that aliases in it can stand for it. -/
def collection (anchor : Option String) (read : Parse Node) : Parse Nat := do
  let id ← newNode .empty
  remember anchor id
  let n ← read
  modify fun s => { s with nodes := s.nodes.setIfInBounds id n }
  return id

/-- The most collections that a node stands in. -/
def deepest : Nat := 485

mutual

/-- A node inside of some collections. Block collections are read where `block` allows them, a
sequence that is not indented where `indentless` does. -/
def node : Nat → Nat → Bool → Bool → Parse Nat
  | 0, _, _, _ => throw .tooDeep
  | n + 1, depth, block, indentless => do
    if deepest < depth then throw .tooDeep
    match ← peek with
    | some (.alias a) =>
      drop
      match OrderedMap.get? (← get).anchors a with
      | some found => return found
      | none => fail "unknown alias"
    | _ =>
      let p ← properties
      let tag ← fullTag p
      let next ← peek
      if (← get).isRemembered p.anchor then fail "anchor given twice" else
      match next with
      | some (.scalar content isPlain) =>
        drop
        let id ← newNode (.scalar (scalarTag tag isPlain content) content)
        remember p.anchor id
        return id
      | some .flowSequenceStart =>
        drop
        collection p.anchor do
          return .sequence (collectionTag tag "seq") (← flowItems n (depth + 1) true)
      | some .flowMappingStart =>
        drop
        collection p.anchor do
          return .mapping (collectionTag tag "map") (← flowEntries n (depth + 1) true)
      | some .blockSequenceStart =>
        if block then
          drop
          collection p.anchor do
            return .sequence (collectionTag tag "seq") (← blockItems n (depth + 1))
        else fail "block collection between brackets"
      | some .blockMappingStart =>
        if block then
          drop
          collection p.anchor do
            return .mapping (collectionTag tag "map") (← blockEntries n (depth + 1))
        else fail "block collection between brackets"
      | next =>
        if indentless && next = some .blockEntry then
          collection p.anchor do
            return .sequence (collectionTag tag "seq") (← indentlessItems n (depth + 1))
        else if p.anchor.isSome || tag.isSome then
          let id ← newNode (.scalar (scalarTag tag true "") "")
          remember p.anchor id
          return id
        else fail "expected a node"

/-- A node, or an empty one when one of some tokens comes next. -/
def nodeUnless : Nat → Nat → Bool → List Token → Parse Nat
  | 0, _, _, _ => throw .tooDeep
  | n + 1, depth, block, ends => do
    if ← isNextOf ends then newNode .empty else node n depth block block

/-- The value after a key, an empty one if there is none, or when one of some tokens comes next. -/
def valueUnless : Nat → Nat → Bool → List Token → Parse Nat
  | 0, _, _, _ => throw .tooDeep
  | n + 1, depth, block, ends => do
    if ← accept .value then nodeUnless n depth block ends else newNode .empty

/-- The items between square brackets, from the next one on. -/
def flowItems : Nat → Nat → Bool → Parse (List Nat)
  | 0, _, _ => throw .tooDeep
  | n + 1, depth, first => do
    if ← accept .flowSequenceEnd then return []
    if !first then
      if !(← accept .flowEntry) then fail "expected a comma or a closing bracket"
    if ← accept .flowSequenceEnd then return []
    if ← accept .key then
      let item ← collection none do
        let k ← nodeUnless n (depth + 1) false [.value, .flowEntry, .flowSequenceEnd]
        let v ← valueUnless n (depth + 1) false [.flowEntry, .flowSequenceEnd]
        return .mapping (coreTag "map") [(k, v)]
      return item :: (← flowItems n depth false)
    else
      let item ← node n depth false false
      return item :: (← flowItems n depth false)

/-- The entries between braces, from the next one on. -/
def flowEntries : Nat → Nat → Bool → Parse (List (Nat × Nat))
  | 0, _, _ => throw .tooDeep
  | n + 1, depth, first => do
    if ← accept .flowMappingEnd then return []
    if !first then
      if !(← accept .flowEntry) then fail "expected a comma or a closing brace"
    if ← accept .flowMappingEnd then return []
    if ← accept .key then
      let k ← nodeUnless n depth false [.value, .flowEntry, .flowMappingEnd]
      let v ← valueUnless n depth false [.flowEntry, .flowMappingEnd]
      return (k, v) :: (← flowEntries n depth false)
    else
      let k ← node n depth false false
      let v ← newNode .empty
      return (k, v) :: (← flowEntries n depth false)

/-- The items of a block sequence, from the next one on. -/
def blockItems : Nat → Nat → Parse (List Nat)
  | 0, _ => throw .tooDeep
  | n + 1, depth => do
    if ← accept .blockEntry then
      let item ← if ← isNextOf [.blockEntry, .blockEnd] then newNode .empty
        else node n depth true false
      return item :: (← blockItems n depth)
    else if ← accept .blockEnd then return []
    else fail "expected the end of a block sequence"

/-- The items of a sequence that is not indented, from the next one on. -/
def indentlessItems : Nat → Nat → Parse (List Nat)
  | 0, _ => throw .tooDeep
  | n + 1, depth => do
    if ← accept .blockEntry then
      let item ← if ← isNextOf [.blockEntry, .key, .value, .blockEnd] then newNode .empty
        else node n depth true false
      return item :: (← indentlessItems n depth)
    else return []

/-- The entries of a block mapping, from the next one on. -/
def blockEntries : Nat → Nat → Parse (List (Nat × Nat))
  | 0, _ => throw .tooDeep
  | n + 1, depth => do
    if ← accept .blockEnd then return []
    else if ← accept .key then
      let k ← nodeUnless n depth true [.key, .value, .blockEnd]
      let v ← valueUnless n depth true [.key, .value, .blockEnd]
      return (k, v) :: (← blockEntries n depth)
    else fail "expected the end of a block mapping"

end

/-- The directives at the start of a document, of which some have been read, at most so many. -/
def directives : Nat → Bool → OrderedMap String String → Parse (OrderedMap String String)
  | 0, _, handles => return handles
  | n + 1, versioned, handles => do
    match ← peek with
    | some (.directive d) =>
      drop
      match d with
      | .version major _ =>
        if versioned then fail "version given twice"
        else if major ≠ 1 then fail "unsupported version"
        else directives n true handles
      | .tagHandle handle start =>
        if OrderedMap.has handles handle then fail "handle given twice"
        else directives n versioned (OrderedMap.insert handles handle start)
      | .unknown => directives n versioned handles
    | _ => return handles

/-- Whether a token stands outside of the nodes of a document. -/
def isOutside : Token → Bool
  | .directive _ => true
  | .documentStart => true
  | .documentEnd => true
  | _ => false

/-- The root of a document after its first line, which may be missing. -/
def root (fuel : Nat) : Parse Nat := do
  match ← peek with
  | none => newNode .empty
  | some t => if isOutside t then newNode .empty else node fuel 0 true false

/-- The handles of a document with those that every document has. -/
def withDefaults (own common : OrderedMap String String) : OrderedMap String String :=
  own ++ common.filter fun h => !OrderedMap.has own h.1

/-- The root of the only document of a text, if there is one. -/
def only (fuel : Nat) : Parse (Option Nat) := do
  match ← peek with
  | none => return none
  | some t =>
    let id ← if isOutside t && t != .documentEnd then do
        let handles ← directives fuel false []
        if !(← accept .documentStart) then fail "expected the start of a document"
        modify fun s => { s with handles := withDefaults handles s.handles }
        root fuel
      else node fuel 0 true false
    dropAll .documentEnd fuel
    if (← peek).isSome then fail "expected a single document"
    return some id

/-- The nodes of the only document of a text, if there is one. -/
def ofText (text : String) : Except ReadError (Option NodeGraph) := do
  let scanner ← Scanner.ofText text
  let (id?, s) ← (only (16 * scanner.cursor.rest.length + 64)).run { scanner }
  return id?.map fun id => ⟨s.nodes, id⟩

end Document

end ShaderGraph.Yaml
