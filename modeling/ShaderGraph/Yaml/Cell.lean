import ShaderGraph.Yaml.Base64
import ShaderGraph.Yaml.Moment
import ShaderGraph.Yaml.Node
import ShaderGraph.Yaml.Number

/-!
# What the values of nodes are made of

The tag of a node decides its type. A mapping may take over the entries of others under the key `<<`,
which its own entries override. Of entries with equal keys the last value counts, in the place of the
first; a number equals a truth value or another number of the same size. Scalars have their values at
once; the collections of a document are filled level by level, so that a fault in a collection comes
after those at its own level.
-/

namespace ShaderGraph.Yaml

/-- What the value of a node is made of. The parts are values of nodes, given by number. -/
inductive Cell where
  /-- a value without parts; equal marks tell that values are one and the same -/
  | atom (v : Yaml) (mark : Nat)
  | sequence (items : List Nat)
  | pairs (items : List (Nat × Nat))
  | mapping (entries : List (Nat × Nat))
  | set (items : List Nat)
deriving Inhabited

/-- The nodes of a document, in which mappings take over entries, and the values that are known. -/
structure Filling where
  nodes : Array Node
  cells : Array (Option Cell)
  /-- the nodes of the collections that are still to be filled, the latest first -/
  waiting : List Nat := []

/-- A step towards the values of nodes. -/
abbrev Fill := StateT Filling (Except ReadError)

namespace Fill

def fail {α : Type} (problem : String) : Fill α := throw (.malformed problem none)

/-- The node with a number. -/
def node (id : Nat) : Fill Node := return (← get).nodes.getD id .empty

def setNode (id : Nat) (n : Node) : Fill Unit :=
  modify fun s => { s with nodes := s.nodes.setIfInBounds id n }

def cell? (id : Nat) : Fill (Option Cell) := return (← get).cells.getD id none

def setCell (id : Nat) (c : Cell) : Fill Unit :=
  modify fun s => { s with cells := s.cells.setIfInBounds id (some c) }

/-- The entries of a mapping. -/
def entriesOf (id : Nat) : Fill (List (Nat × Nat)) := do
  match ← node id with
  | .mapping _ entries => return entries
  | _ => return []

/-- A key that is a lone equals sign is a text. -/
def settleKey (id : Nat) : Fill Unit := do
  match ← node id with
  | .scalar t s => if t = ScalarType.value.tag then setNode id (.scalar ScalarType.text.tag s)
  | _ => return

/-- The position of the first entry under the key `<<`. -/
def mergePosition? (entries : List (Nat × Nat)) : Fill (Option Nat) := do
  let nodes := (← get).nodes
  return entries.findIdx? fun e => (nodes.getD e.1 .empty).tag == ScalarType.merge.tag

mutual

/-- A mapping takes over the entries of others under the key `<<`; `others` are those so far. An
entry under that key is taken out first, and so every step is the last one for an entry. -/
def takeOver : Nat → Nat → List (Nat × Nat) → Fill Unit
  | 0, _, _ => return
  | n + 1, id, others => do
    match ← node id with
    | .mapping tag entries =>
      match ← mergePosition? entries with
      | none =>
        entries.forM fun e => settleKey e.1
        setNode id (.mapping tag (others ++ entries))
      | some i =>
        setNode id (.mapping tag (entries.eraseIdx i))
        let more ← entriesUnder n (entries.getD i (0, 0)).2
        takeOver n id (others ++ more)
    | _ => return

/-- The entries of a mapping, or of several mappings in a sequence, those of the last one first. -/
def entriesUnder : Nat → Nat → Fill (List (Nat × Nat))
  | 0, _ => return []
  | n + 1, id => do
    match ← node id with
    | .mapping _ _ =>
      takeOver n id []
      entriesOf id
    | .sequence _ items => entriesOfAll n items []
    | .scalar _ _ => fail "expected mappings to merge"

/-- The entries of mappings, those of the last one first, before some others. -/
def entriesOfAll : Nat → List Nat → List (Nat × Nat) → Fill (List (Nat × Nat))
  | 0, _, later => return later
  | _, [], later => return later
  | n + 1, id :: ids, later => do
    match ← node id with
    | .mapping _ _ =>
      takeOver n id []
      entriesOfAll n ids ((← entriesOf id) ++ later)
    | _ => fail "expected a mapping to merge"

end

/-- The steps that are enough for all mappings to take over their entries: for each of their entries
those through any sequence. -/
def mergeSteps : Fill Nat := do
  let nodes := (← get).nodes
  let (entries, items) := nodes.foldl (fun (entries, items) node => match node with
    | .mapping _ es => (entries + es.length, items)
    | .sequence _ is => (entries, items + is.length)
    | .scalar _ _ => (entries, items)) (1, 4)
  return entries * items

/-- The content of a scalar. A mapping with a lone equals sign as a key counts as the value of that
entry. -/
def content : Nat → Nat → Fill String
  | 0, _ => throw .tooDeep
  | n + 1, id => do
    match ← node id with
    | .scalar _ s => return s
    | .sequence _ _ => fail "expected a scalar"
    | .mapping _ entries =>
      let nodes := (← get).nodes
      match entries.find? fun e => (nodes.getD e.1 .empty).tag == ScalarType.value.tag with
      | some e => content n e.2
      | none => fail "expected a scalar"

/-- The value of the truth type that a scalar spells. -/
def readBool (content : String) : Except ReadError Bool :=
  let word := String.ofList (content.toList.map Char.toLower)
  match ScalarType.truthWords.find? fun w => w.1 = word with
  | some w => .ok w.2
  | none => .error (.noTruthValue content)

/-- The tags of collections. -/
def collectionTags : List String := ["seq", "map", "set", "omap", "pairs"].map coreTag

/-- The value of a node that is no collection. -/
def atomOf (id : Nat) : Fill Cell := do
  let n ← node id
  let size := (← get).nodes.size
  let text := content (size + 1) id
  if n.tag = ScalarType.text.tag then return .atom (.text (← text)) id
  else if n.tag = ScalarType.null.tag then
    let _ ← text
    return .atom .null id
  else if n.tag = ScalarType.bool.tag then return .atom (.bool (← readBool (← text))) id
  else if n.tag = ScalarType.int.tag then return .atom (.int (← Number.readInt (← text))) id
  else if n.tag = ScalarType.float.tag then
    let s ← text
    let mark := if Number.isNanName s then size else id
    return .atom (.real (← Number.readReal s)) mark
  else if n.tag = coreTag "binary" then return .atom (.bytes (← Base64.read (← text))) id
  else if n.tag = ScalarType.timestamp.tag then
    let s ← text
    match n with
    | .scalar _ _ => return .atom (.moment (← ScalarType.MomentText.read s)) id
    | _ => throw .dateInParts
  else fail "tag without a meaning"

/-- The value of a node, that of a collection without its parts yet, unless it is known. -/
def visit (id : Nat) : Fill Unit := do
  if (← cell? id).isSome then return
  if collectionTags.contains (← node id).tag then
    setCell id (.sequence [])
    modify fun s => { s with waiting := id :: s.waiting }
  else setCell id (← atomOf id)

/-- The whole number that a truth value or a number is. -/
def wholeValue? : Yaml → Option Int
  | .bool b => some (if b then 1 else 0)
  | .int i => some i
  | .real x => x.toInt?
  | _ => none

/-- Whether two values without parts are equal. The number that is none equals nothing. -/
def isEqual (a b : Yaml) : Bool :=
  match a, b with
  | .null, .null => true
  | .text s, .text t => s == t
  | .bytes s, .bytes t => s == t
  | .moment m, .moment n => m.isSame n
  | .real x, .real y => (x == y && !x.isNan) || (x.isZero && y.isZero)
  | a, b =>
    match wholeValue? a, wholeValue? b with
    | some i, some j => i == j
    | _, _ => false

/-- Whether two nodes are the same as keys. -/
def isSameKey (cells : Array (Option Cell)) (a b : Nat) : Bool :=
  match cells.getD a none, cells.getD b none with
  | some (.atom v m), some (.atom w n) => m == n || isEqual v w
  | _, _ => false

/-- The entries with one more. -/
def putEntry (cells : Array (Option Cell)) (k v : Nat) : List (Nat × Nat) → List (Nat × Nat)
  | [] => [(k, v)]
  | e :: es => if isSameKey cells e.1 k then (e.1, v) :: es else e :: putEntry cells k v es

/-- The entries of a mapping whose keys and values are known. Collections are no keys. -/
def visitEntries (entries : List (Nat × Nat)) : Fill (List (Nat × Nat)) :=
  entries.foldlM (fun found e => do
    visit e.1
    match ← cell? e.1 with
    | some (.atom _ _) =>
      visit e.2
      return putEntry (← get).cells e.1 e.2 found
    | _ => fail "collection as a key") []

/-- The entries of a mapping with those that it takes over. -/
def mappingEntries (id : Nat) : Fill (List (Nat × Nat)) := do
  match ← node id with
  | .mapping _ _ =>
    takeOver (← mergeSteps) id []
    visitEntries (← entriesOf id)
  | _ => fail "expected a mapping"

/-- The items of a sequence. -/
def sequenceItems (id : Nat) : Fill (List Nat) := do
  match ← node id with
  | .sequence _ items =>
    items.forM visit
    return items
  | _ => fail "expected a sequence"

/-- The only entries of the mappings in a sequence. -/
def sequencePairs (id : Nat) : Fill (List (Nat × Nat)) := do
  match ← node id with
  | .sequence _ items =>
    items.mapM fun item => do
      match ← node item with
      | .mapping _ [e] =>
        visit e.1
        visit e.2
        return e
      | _ => fail "expected a mapping with one entry"
  | _ => fail "expected a sequence"

/-- A collection gets its parts. -/
def fillCell (id : Nat) : Fill Unit := do
  let tag := (← node id).tag
  let c ←
    if tag = coreTag "seq" then Cell.sequence <$> sequenceItems id
    else if tag = coreTag "map" then Cell.mapping <$> mappingEntries id
    else if tag = coreTag "set" then (fun es => Cell.set (es.map (·.1))) <$> mappingEntries id
    else Cell.pairs <$> sequencePairs id
  setCell id c

/-- All collections get their parts, one level after the other, for so many levels. -/
def fillLevels : Nat → Fill Unit
  | 0 => return
  | n + 1 => do
    let level := (← get).waiting.reverse
    if level.isEmpty then return
    modify fun s => { s with waiting := [] }
    level.forM fillCell
    fillLevels n

end Fill

/-- The values of the nodes that the root of a document leads to. -/
def NodeGraph.cells (g : NodeGraph) : Except ReadError (Array (Option Cell)) := do
  let start : Filling := { nodes := g.nodes, cells := Array.replicate g.nodes.size none }
  let ((), s) ← (do Fill.visit g.root; Fill.fillLevels (g.nodes.size + 1) : Fill Unit).run start
  return s.cells

end ShaderGraph.Yaml
