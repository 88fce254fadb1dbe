/-!
# Maps in insertion order

A map that remembers the order in which its keys were first given. A key that is given again keeps
its place and takes the new value.
-/

namespace ShaderGraph

/-- The pairs of a map, in order. -/
abbrev OrderedMap (κ α : Type) := List (κ × α)

namespace OrderedMap

variable {κ α : Type} [DecidableEq κ]

/-- The value of a key. -/
def get? (m : OrderedMap κ α) (k : κ) : Option α := (m.find? fun p => p.1 = k).map (·.2)

/-- Whether a key has a value. -/
def has (m : OrderedMap κ α) (k : κ) : Bool := m.any fun p => p.1 = k

/-- The keys in order. -/
def keys (m : OrderedMap κ α) : List κ := m.map (·.1)

/-- A map with a value for a key. -/
def insert (m : OrderedMap κ α) (k : κ) (v : α) : OrderedMap κ α :=
  match m with
  | [] => [(k, v)]
  | p :: r => if p.1 = k then (k, v) :: r else p :: insert r k v

/-- The map that results from giving pairs one after the other. -/
def ofPairs (ps : List (κ × α)) : OrderedMap κ α := ps.foldl (fun m p => insert m p.1 p.2) []

/-- The part of a map whose keys are in a list. -/
def restrict (m : OrderedMap κ α) (ks : List κ) : OrderedMap κ α := m.filter fun p => p.1 ∈ ks

theorem get?_insert (m : OrderedMap κ α) (k j : κ) (v : α) :
    get? (insert m k v) j = if j = k then some v else get? m j := by
  induction m with
  | nil => by_cases h : k = j <;> simp [insert, get?, h, eq_comm]
  | cons p r ih =>
    simp only [get?] at ih
    by_cases h : p.1 = k
    · by_cases hj : j = k
      · subst hj; simp [insert, get?, h]
      · simp [insert, get?, h, hj, Ne.symm hj]
    · by_cases hj : p.1 = j
      · have : ¬ j = k := fun e => h (hj.trans e)
        simp [insert, get?, hj, this]
      · simp [insert, get?, h, hj, ih]

/-- A key that is new comes last; one that is not keeps its place. -/
theorem keys_insert (m : OrderedMap κ α) (k : κ) (v : α) :
    keys (insert m k v) = if k ∈ keys m then keys m else keys m ++ [k] := by
  induction m with
  | nil => simp [insert, keys]
  | cons p r ih =>
    unfold keys at ih ⊢
    by_cases h : p.1 = k
    · simp [insert, h]
    · have hk : ¬ k = p.1 := fun e => h e.symm
      rw [insert, if_neg h, List.map_cons, ih]
      by_cases hm : k ∈ r.map fun p => p.1
      · rw [if_pos hm, List.map_cons, if_pos (List.mem_cons_of_mem _ hm)]
      · rw [if_neg hm, List.map_cons, if_neg (by simpa [hk] using hm), List.cons_append]

end OrderedMap

end ShaderGraph
