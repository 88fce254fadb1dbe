import Mathlib.Algebra.Order.Group.Int
import Mathlib.Data.List.Infix
import Mathlib.Tactic.SplitIfs

/-!
# Texts that stay inside their brackets

A text that is read inside some open brackets stays inside when none of its prefixes closes more
than is open; it is balanced when it also closes all that it opens. The first closing bracket after
a balanced text is the one that ends it, so a balanced text is known from what it starts.
-/

namespace ShaderGraph.Text

-- What holds of the members of a text is decided one by one, not over all characters that there are.
instance (priority := high) decidableForallMem {α : Type} {p : α → Prop} [DecidablePred p]
    (as : List α) : Decidable (∀ a ∈ as, p a) :=
  as.decidableBAll p

/-- What a text opens and does not close, negative when it closes more. -/
def net (o c : Char) (t : List Char) : Int := (t.count o : Int) - t.count c

/-- Read inside `k` open brackets, a text never closes more than is open. -/
def Inside (o c : Char) (k : Int) (t : List Char) : Prop := ∀ p, p <+: t → 0 ≤ k + net o c p

/-- A text that closes what it opens, and only that. -/
structure Balanced (o c : Char) (t : List Char) : Prop where
  inside : Inside o c 0 t
  closed : net o c t = 0

section

variable {o c : Char} {k : Int}

instance (t : List Char) : Decidable (Inside o c k t) :=
  decidable_of_iff (∀ p ∈ t.inits, 0 ≤ k + net o c p) <| by
    simp only [List.mem_inits, Inside]

instance (t : List Char) : Decidable (Balanced o c t) :=
  decidable_of_iff (Inside o c 0 t ∧ net o c t = 0)
    ⟨fun h => ⟨h.1, h.2⟩, fun h => ⟨h.inside, h.closed⟩⟩

theorem net_nil : net o c [] = 0 := rfl

theorem net_append (s t : List Char) : net o c (s ++ t) = net o c s + net o c t := by
  simp only [net, List.count_append]
  omega

theorem net_cons (x : Char) (t : List Char) : net o c (x :: t) = net o c [x] + net o c t :=
  net_append [x] t

theorem net_singleton (h : o ≠ c) (x : Char) :
    net o c [x] = if x = o then 1 else if x = c then -1 else 0 := by
  rw [net, List.count_singleton, List.count_singleton]
  simp only [beq_iff_eq]
  split_ifs with ho hc
  · exact absurd (ho.symm.trans hc) h
  all_goals rfl

theorem net_close (h : o ≠ c) : net o c [c] = -1 := by
  simp [net, h.symm]

theorem net_other {x : Char} (ho : x ≠ o) (hc : x ≠ c) : net o c [x] = 0 := by
  simp [net, ho, hc]

/-- A count that goes up and down with the brackets is what was open and the net of what is read. -/
theorem count_eq_add_net (h : o ≠ c) (b : Int) (x : Char) :
    (if x = o then b + 1 else if x = c then b - 1 else b) = b + net o c [x] := by
  rw [net_singleton h]
  split_ifs <;> omega

theorem natCast_count (h : o ≠ c) {q : Nat} (hq : 0 < q) (x : Char) :
    ((if x = o then q + 1 else if x = c then q - 1 else q : Nat) : Int) = q + net o c [x] := by
  rw [net_singleton h]
  split_ifs <;> omega

/-- Only the bracket that closes the last one leaves none open. -/
theorem closes_of_add_net_eq_zero (h : o ≠ c) {q : Nat} (hq : 0 < q) {x : Char}
    (hx : q + net o c [x] = 0) : x = c ∧ q = 1 := by
  rw [net_singleton h] at hx
  split_ifs at hx with hopen hclose
  · omega
  · exact ⟨hclose, by omega⟩
  · omega

theorem inside_nil : Inside o c k [] ↔ 0 ≤ k := by
  constructor
  · intro h
    have h0 := h [] (List.prefix_refl _)
    rwa [net_nil, add_zero] at h0
  · intro h p hp
    rw [List.prefix_nil.1 hp, net_nil, add_zero]
    exact h

theorem inside_cons {x : Char} {t : List Char} :
    Inside o c k (x :: t) ↔ 0 ≤ k ∧ Inside o c (k + net o c [x]) t := by
  constructor
  · intro h
    refine ⟨?_, fun p hp => ?_⟩
    · have h0 := h [] List.nil_prefix
      rwa [net_nil, add_zero] at h0
    · have hx := h (x :: p) ((List.prefix_cons_inj x).2 hp)
      rw [net_cons] at hx
      omega
  · rintro ⟨h0, h⟩ p hp
    rcases List.prefix_cons_iff.1 hp with rfl | ⟨q, rfl, hq⟩
    · rw [net_nil, add_zero]
      exact h0
    · have hx := h q hq
      rw [net_cons]
      omega

theorem inside_append {s t : List Char} :
    Inside o c k (s ++ t) ↔ Inside o c k s ∧ Inside o c (k + net o c s) t := by
  induction s generalizing k with
  | nil =>
    rw [List.nil_append, net_nil, add_zero, inside_nil]
    exact ⟨fun h => ⟨by simpa [net_nil] using h [] List.nil_prefix, h⟩, fun h => h.2⟩
  | cons x s ih =>
    rw [List.cons_append, inside_cons, ih, inside_cons, net_cons x s, add_assoc, and_assoc]

theorem inside_concat {t : List Char} {x : Char} :
    Inside o c k (t ++ [x]) ↔ Inside o c k t ∧ 0 ≤ k + net o c (t ++ [x]) := by
  rw [inside_append, inside_cons, inside_nil, net_append, ← add_assoc]
  exact ⟨fun h => ⟨h.1, h.2.2⟩, fun h => ⟨h.1, h.1 t (List.prefix_refl t), h.2⟩⟩

theorem Inside.nonneg {t : List Char} (h : Inside o c k t) : 0 ≤ k := by
  simpa [net_nil] using h [] List.nil_prefix

theorem Inside.nonneg_end {t : List Char} (h : Inside o c k t) : 0 ≤ k + net o c t :=
  h t (List.prefix_refl t)

theorem balanced_nil : Balanced o c [] := ⟨inside_nil.2 le_rfl, net_nil⟩

theorem Balanced.append {s t : List Char} (hs : Balanced o c s) (ht : Balanced o c t) :
    Balanced o c (s ++ t) := by
  refine ⟨inside_append.2 ⟨hs.inside, ?_⟩, ?_⟩
  · rw [hs.closed]
    exact ht.inside
  · rw [net_append, hs.closed, ht.closed, add_zero]

theorem balanced_singleton {x : Char} (ho : x ≠ o) (hc : x ≠ c) : Balanced o c [x] := by
  refine ⟨inside_cons.2 ⟨le_rfl, ?_⟩, net_other ho hc⟩
  rw [net_other ho hc]
  exact inside_nil.2 le_rfl

/-- The texts between single characters `x`, when each of them is balanced. -/
theorem Balanced.intercalate {x : Char} (ho : x ≠ o) (hc : x ≠ c) :
    ∀ {ts : List (List Char)}, (∀ t ∈ ts, Balanced o c t) → Balanced o c ([x].intercalate ts)
  | [], _ => balanced_nil
  | [t], h => by
    rw [List.intercalate_singleton]
    exact h t List.mem_cons_self
  | t :: u :: ts, h => by
    rw [List.intercalate_cons_cons]
    refine ((h t List.mem_cons_self).append (balanced_singleton ho hc)).append ?_
    exact Balanced.intercalate ho hc fun v hv => h v (List.mem_cons_of_mem _ hv)

/-- A text that ends with a bracket of its own is not inside. -/
theorem not_inside_close (h : o ≠ c) {s t : List Char} (hs : net o c s = 0) :
    ¬ Inside o c 0 (s ++ c :: t) := by
  intro hin
  have hp := hin (s ++ [c]) ⟨t, by rw [List.append_assoc, List.singleton_append]⟩
  rw [net_append, hs, net_close h] at hp
  omega

/-- The bracket after a balanced text is the first that closes more than is open. -/
theorem Balanced.append_close_inj (hne : o ≠ c) {s t u v : List Char} (hs : Balanced o c s)
    (ht : Balanced o c t) (h : s ++ c :: u = t ++ c :: v) : s = t ∧ u = v := by
  rcases List.append_eq_append_iff.1 h with ⟨w, hw, hu⟩ | ⟨w, hw, hv⟩
  · cases w with
    | nil => simp_all
    | cons x w =>
      obtain ⟨rfl, -⟩ := List.cons.inj hu
      exact absurd (hw ▸ ht.inside) (not_inside_close hne hs.closed)
  · cases w with
    | nil => simp_all
    | cons x w =>
      obtain ⟨rfl, -⟩ := List.cons.inj hv
      exact absurd (hw ▸ hs.inside) (not_inside_close hne ht.closed)

end

end ShaderGraph.Text
