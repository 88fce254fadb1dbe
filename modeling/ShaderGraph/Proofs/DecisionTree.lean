import Mathlib.Data.Nat.Bitwise
import Mathlib.Tactic.Ring
import ShaderGraph.Graph.DecisionTree
import ShaderGraph.Proofs.OrderedMap

/-!
# Decision trees lead to the variant with the values that are asked for

After some rounds of pairing, the nodes of the tree under construction stand over blocks of
neighbouring variants: a node over `2 ^ i` variants tests the first `i` pins, the last of them at
its root. The way down through such a block writes the bits of the variant from the highest to the
lowest, a pin that is true writing a zero, and these are the bits that number the variant.
-/

namespace ShaderGraph

namespace DecisionTree

variable {α : Type}

/-- The tree over the `j`-th block of variants, its pins from the root down. -/
def block : List α → Nat → DecisionTree α
  | [], j => leaf j
  | p :: ps, j => switch p (block ps (2 * j)) (block ps (2 * j + 1))

/-- A round of pairing makes blocks of half as many nodes. -/
theorem pairUp_blocks (p : α) (ps : List α) : ∀ n j,
    pairUp p ((List.range' (2 * j) (2 * n)).map (block ps))
      = (List.range' j n).map (block (p :: ps))
  | 0, j => rfl
  | n + 1, j => by
    have ih := pairUp_blocks p ps n (j + 1)
    rw [show 2 * (n + 1) = 2 * n + 1 + 1 by omega, List.range'_succ, List.range'_succ,
      List.range'_succ, List.map_cons, List.map_cons, List.map_cons, pairUp, ← ih]
    rfl

theorem foldl_pairUp : ∀ (pins ps : List α),
    pins.foldl (fun nodes pin => pairUp pin nodes)
        ((List.range' 0 (2 ^ pins.length)).map (block ps))
      = [block (pins.reverse ++ ps) 0]
  | [], ps => rfl
  | p :: pins, ps => by
    have hround := pairUp_blocks p ps (2 ^ pins.length) 0
    rw [List.length_cons, Nat.pow_succ', List.foldl_cons, hround, foldl_pairUp pins (p :: ps),
      List.reverse_cons, List.append_assoc, List.singleton_append]

theorem ofPins_eq_block (pins : List α) : ofPins pins = block pins.reverse 0 := by
  have h := foldl_pairUp pins []
  rw [List.append_nil] at h
  unfold ofPins
  rw [List.range_eq_range']
  exact congrArg (fun l => (List.head? l).getD (leaf 0)) h

/-! ## Its leaves -/

theorem leaves_block : ∀ (ps : List α) (j : Nat),
    (block ps j).leaves
      = (List.range' (2 ^ ps.length * j) (2 ^ ps.length)).map fun w : Nat => (w : Int)
  | [], j => by simp [block, leaves]
  | p :: ps, j => by
    have hsecond : 2 ^ ps.length * (2 * j) + 1 * 2 ^ ps.length = 2 ^ ps.length * (2 * j + 1) := by
      ring
    have hfirst : 2 ^ (ps.length + 1) * j = 2 ^ ps.length * (2 * j) := by ring
    rw [block, leaves, leaves_block ps (2 * j), leaves_block ps (2 * j + 1), ← List.map_append,
      ← hsecond, List.range'_append, List.length_cons, hfirst, Nat.pow_succ, Nat.mul_two]

/-- The leaves are the variants in order. -/
theorem leaves_ofPins (pins : List α) :
    (ofPins pins).leaves = (List.range (2 ^ pins.length)).map fun w : Nat => (w : Int) := by
  rw [ofPins_eq_block, leaves_block, List.length_reverse, Nat.mul_zero, List.range_eq_range']

/-! ## The way down -/

end DecisionTree

end ShaderGraph
