import ShaderGraph.OrderedMap

/-!
# Decision trees

The variants of a function are numbered: bit `i` of the number of a variant is set when the `i`-th
bool input is false in it. A binary tree of switches leads from the values of the bool inputs to the
variant that has them. It is built from its leaves up, each input pairing neighbours under a switch,
so the first input is tested closest to the leaves.
-/

namespace ShaderGraph

/-- A tree of switches between variants, each on a pin. -/
inductive DecisionTree (α : Type) where
  | leaf (variant : Int)
  | switch (pin : α) (whenTrue whenFalse : DecisionTree α)
deriving DecidableEq, Repr, Inhabited

/-- The values of bool inputs in a variant. -/
abbrev BoolValues := OrderedMap String Bool

/-- The values of bool inputs in the variant with a number, of which the two's complement bits
count. -/
def boolValues (names : List String) (variant : Int) : BoolValues :=
  OrderedMap.ofPairs (names.mapIdx fun i name => (name, (variant >>> i) % 2 = 0))

namespace DecisionTree

variable {α β : Type}

/-- Neighbours paired under switches on one pin. -/
def pairUp (pin : α) : List (DecisionTree α) → List (DecisionTree α)
  | a :: b :: rest => switch pin a b :: pairUp pin rest
  | _ => []

/-- The tree over the variants of some bool inputs. -/
def ofPins (pins : List α) : DecisionTree α :=
  let leaves := (List.range (Nat.pow 2 pins.length)).map fun w : Nat => leaf (w : Int)
  ((pins.foldl (fun nodes pin => pairUp pin nodes) leaves).head?).getD (leaf 0)

/-- The same tree with other names for its pins. -/
def map (f : α → β) : DecisionTree α → DecisionTree β
  | leaf w => leaf w
  | switch pin t e => switch (f pin) (t.map f) (e.map f)

/-- The number of switches. -/
def switches : DecisionTree α → Nat
  | leaf _ => 0
  | switch _ t f => 1 + t.switches + f.switches

/-- The variants at the leaves, from left to right. -/
def leaves : DecisionTree α → List Int
  | leaf w => [w]
  | switch _ t f => t.leaves ++ f.leaves

/-- The variant that values of the bool inputs lead to, if every pin on the way has one. -/
def select? (values : BoolValues) : DecisionTree String → Option Int
  | leaf w => some w
  | switch pin t f =>
    match OrderedMap.get? values pin with
    | some true => t.select? values
    | some false => f.select? values
    | none => none

end DecisionTree

end ShaderGraph
