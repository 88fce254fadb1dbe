import Mathlib.Data.List.Basic
import Mathlib.Tactic.SplitIfs
import ShaderGraph.Graph.Generate

/-!
# The identifiers of a graph

The pins of a signature get their identifiers one after the other. A name that has one keeps it,
and after all pins the table names these pins and no others. So a graph that is generated again with
its own identifiers draws none and keeps its table.
-/

namespace ShaderGraph

namespace IdentifierTable

theorem get?_set (t : IdentifierTable) (r r' : Role) (name k : String) (id : Json) :
    (t.set r name id).get? r' k = if r' = r ∧ k = name then some id else t.get? r' k := by
  unfold get?
  rw [ofRole_set]
  by_cases hr : r' = r
  · subst hr
    rw [if_pos rfl, OrderedMap.get?_insert]
    simp
  · rw [if_neg hr, if_neg fun h => hr h.1]

theorem mem_keys_set {t : IdentifierTable} {r r' : Role} {name k : String} {id : Json}
    (h : k ∈ OrderedMap.keys ((t.set r name id).ofRole r')) :
    k ∈ OrderedMap.keys (t.ofRole r') ∨ (r' = r ∧ k = name) := by
  rw [ofRole_set] at h
  split_ifs at h with hr
  · subst hr
    rw [OrderedMap.keys_insert] at h
    split_ifs at h
    · exact .inl h
    · rcases List.mem_append.1 h with h | h
      · exact .inl h
      · exact .inr ⟨rfl, List.mem_singleton.1 h⟩
  · exact .inl h

end IdentifierTable

namespace Naming

theorem get?_ensure {n : Naming} {r r' : Role} {name k : String} {id : Json}
    (h : n.table.get? r' k = some id) : (n.ensure r name).table.get? r' k = some id := by
  unfold ensure
  split
  · exact h
  · rename_i hnone
    rw [IdentifierTable.get?_set, if_neg, h]
    rintro ⟨rfl, rfl⟩
    rw [h] at hnone
    cases hnone

theorem isSome_get?_ensure (n : Naming) (r : Role) (name : String) :
    ((n.ensure r name).table.get? r name).isSome = true := by
  unfold ensure
  split
  · rename_i id hid
    rw [hid]
    rfl
  · rw [IdentifierTable.get?_set, if_pos ⟨rfl, rfl⟩]
    rfl

theorem ensure_of_isSome {n : Naming} {r : Role} {name : String}
    (h : (n.table.get? r name).isSome = true) : n.ensure r name = n := by
  obtain ⟨id, hid⟩ := Option.isSome_iff_exists.1 h
  unfold ensure
  rw [hid]

theorem mem_keys_ensure {n : Naming} {r r' : Role} {name k : String}
    (h : k ∈ OrderedMap.keys ((n.ensure r name).table.ofRole r')) :
    k ∈ OrderedMap.keys (n.table.ofRole r') ∨ (r', k) = (r, name) := by
  unfold ensure at h
  split at h
  · exact .inl h
  · rcases IdentifierTable.mem_keys_set h with h | ⟨rfl, rfl⟩
    · exact .inl h
    · exact .inr rfl

/-- The naming after some roles and names have got identifiers. -/
def ensureAll (n : Naming) (ps : List (Role × String)) : Naming :=
  ps.foldl (fun n p => n.ensure p.1 p.2) n

/-- A name that has an identifier keeps it. -/
theorem get?_ensureAll {r : Role} {k : String} {id : Json} :
    ∀ (ps : List (Role × String)) {n : Naming}, n.table.get? r k = some id →
      (n.ensureAll ps).table.get? r k = some id
  | [], _, h => h
  | _ :: ps, _, h => get?_ensureAll ps (get?_ensure h)

theorem isSome_get?_ensureAll {p : Role × String} :
    ∀ (ps : List (Role × String)) (n : Naming), p ∈ ps →
      ((n.ensureAll ps).table.get? p.1 p.2).isSome = true
  | q :: ps, n, h => by
    rcases List.mem_cons.1 h with rfl | h
    · obtain ⟨id, hid⟩ := Option.isSome_iff_exists.1 (isSome_get?_ensure n p.1 p.2)
      exact Option.isSome_iff_exists.2 ⟨id, get?_ensureAll ps hid⟩
    · exact isSome_get?_ensureAll ps _ h

theorem ensureAll_of_isSome :
    ∀ (ps : List (Role × String)) {n : Naming},
      (∀ p ∈ ps, (n.table.get? p.1 p.2).isSome = true) → n.ensureAll ps = n
  | [], _, _ => rfl
  | p :: ps, n, h => by
    have hfirst := ensure_of_isSome (h p List.mem_cons_self)
    have hrest := ensureAll_of_isSome ps fun q hq => h q (List.mem_cons_of_mem _ hq)
    unfold ensureAll at hrest ⊢
    rw [List.foldl_cons, hfirst, hrest]

theorem mem_keys_ensureAll {r : Role} {k : String} :
    ∀ (ps : List (Role × String)) {n : Naming},
      k ∈ OrderedMap.keys ((n.ensureAll ps).table.ofRole r) →
      k ∈ OrderedMap.keys (n.table.ofRole r) ∨ (r, k) ∈ ps
  | [], _, h => .inl h
  | _ :: ps, _, h => by
    rcases mem_keys_ensureAll ps h with h | h
    · rcases mem_keys_ensure h with h | h
      · exact .inl h
      · rw [h]
        exact .inr List.mem_cons_self
    · exact .inr (List.mem_cons_of_mem _ h)

end Naming

namespace Signature

/-- A table that names the pins of a signature and no others. -/
structure NamedBy (s : Signature) (t : IdentifierTable) : Prop where
  named : ∀ p ∈ s.namedPins, (t.get? p.1 p.2).isSome = true
  only : ∀ r, ∀ k ∈ OrderedMap.keys (t.ofRole r), (r, k) ∈ s.namedPins

/-- The names of the pins that have a role. -/
def namesOf (s : Signature) : Role → List String
  | .output => s.outputs.map (·.name)
  | r => s.inputNames r

theorem mem_namedPins {s : Signature} {r : Role} {k : String} :
    (r, k) ∈ s.namedPins ↔ k ∈ s.namesOf r := by
  have hrole : ∀ p : Pin, p.inputRole ≠ .output := by
    intro p
    unfold Pin.inputRole
    split <;> decide
  cases r <;> simp [namedPins, namesOf, inputNames, hrole, and_comm, and_left_comm]

theorem ofRole_kept (s : Signature) (t : IdentifierTable) (r : Role) :
    (s.kept (some t)).ofRole r = OrderedMap.restrict (t.ofRole r) (s.namesOf r) := by
  cases r <;> rfl

theorem mem_keys_kept {s : Signature} {earlier : Option IdentifierTable} {r : Role} {k : String}
    (h : k ∈ OrderedMap.keys ((s.kept earlier).ofRole r)) : (r, k) ∈ s.namedPins := by
  cases earlier with
  | none => cases r <;> cases h
  | some t =>
    rw [ofRole_kept] at h
    obtain ⟨p, hp, rfl⟩ := List.mem_map.1 h
    exact mem_namedPins.2 (of_decide_eq_true (List.mem_filter.1 hp).2)

theorem namedBy_naming (s : Signature) (earlier : Option IdentifierTable) (supply : Supply) :
    s.NamedBy (s.naming earlier supply).table := by
  refine ⟨fun p hp => Naming.isSome_get?_ensureAll s.namedPins _ hp, fun r k hk => ?_⟩
  rcases Naming.mem_keys_ensureAll s.namedPins hk with hk | hk
  · exact mem_keys_kept hk
  · exact hk

theorem NamedBy.kept_eq {s : Signature} {t : IdentifierTable} (h : s.NamedBy t) :
    s.kept (some t) = t := by
  have hrole : ∀ r, (s.kept (some t)).ofRole r = t.ofRole r := by
    intro r
    rw [ofRole_kept, OrderedMap.restrict, List.filter_eq_self]
    intro p hp
    exact decide_eq_true (mem_namedPins.1 (h.only r p.1 (List.mem_map_of_mem hp)))
  cases ht : s.kept (some t) with
  | mk inputs outputs parameters =>
    cases t with
    | mk inputs' outputs' parameters' =>
      rw [ht] at hrole
      rw [IdentifierTable.mk.injEq]
      exact ⟨hrole .input, hrole .output, hrole .parameter⟩

/-- A graph that is named again by its own table draws no identifier. -/
theorem NamedBy.naming_eq {s : Signature} {t : IdentifierTable} (h : s.NamedBy t)
    (supply : Supply) : s.naming (some t) supply = ⟨t, supply⟩ := by
  have hkept := h.kept_eq
  have hall := Naming.ensureAll_of_isSome s.namedPins (n := ⟨t, supply⟩) h.named
  unfold naming
  rw [hkept]
  exact hall

end Signature

end ShaderGraph
