import ShaderGraph.Yaml.Cell

/-!
# Reading YAML

The value of a text is that of the only document in it. Values are put together from the root down;
a collection that is met inside of itself becomes a knot.
-/

namespace ShaderGraph.Yaml

/-- A value and the labels of the knots around it that stand again in it. -/
structure Strand where
  value : Yaml
  labels : List Nat

/-- Labels without repetition. -/
def joinLabels (a b : List Nat) : List Nat := a ++ b.filter (· ∉ a)

/-- A collection of some parts. -/
def Strand.collect {α : Type} (make : List α → Yaml) (parts : List (α × List Nat)) : Strand :=
  ⟨make (parts.map (·.1)), parts.foldl (fun ls p => joinLabels ls p.2) []⟩

/-- Whether the value of a node is a sequence. -/
def Cell.isSequence : Cell → Bool
  | sequence _ => true
  | pairs _ => true
  | _ => false

/-- The value of a node inside of the collections `around`. `done` are the values that hold no knots
around them, which are the same everywhere. -/
def assemble (cells : Array (Option Cell)) : Nat → List Nat → Nat → StateM (Array (Option Yaml)) Strand
  | 0, _, _ => return ⟨null, []⟩
  | n + 1, around, id => do
    match (← get).getD id none with
    | some v => return ⟨v, []⟩
    | none =>
      let part (i : Nat) : StateM (Array (Option Yaml)) (Yaml × List Nat) := do
        let s ← assemble cells n (id :: around) i
        return (s.value, s.labels)
      let both (e : Nat × Nat) : StateM (Array (Option Yaml)) ((Yaml × Yaml) × List Nat) := do
        let (k, ks) ← part e.1
        let (v, vs) ← part e.2
        return ((k, v), joinLabels ks vs)
      let cell := (cells.getD id none).getD (.atom null id)
      if id ∈ around then return ⟨.again id cell.isSequence, [id]⟩ else
      let body ← match cell with
        | .atom v _ => pure ⟨v, []⟩
        | .sequence items => Strand.collect sequence <$> items.mapM part
        | .set items => Strand.collect setOf <$> items.mapM part
        | .mapping entries => Strand.collect mapping <$> entries.mapM both
        | .pairs items =>
          Strand.collect (fun ps => sequence (ps.map fun p => pair p.1 p.2)) <$> items.mapM both
      let value := if body.labels.isEmpty then body.value else knot id body.value
      let labels := body.labels.filter (· != id)
      if labels.isEmpty then modify fun done => done.setIfInBounds id (some value)
      return ⟨value, labels⟩

/-- The value of a text with universal line ends; a text without a document has none. -/
def read (text : String) : Except ReadError Yaml := do
  match ← Document.ofText text with
  | none => return null
  | some g =>
    let cells ← g.cells
    let (s, _) := (assemble cells (g.nodes.size + 1) [] g.root).run (Array.replicate g.nodes.size none)
    return s.value

end ShaderGraph.Yaml
