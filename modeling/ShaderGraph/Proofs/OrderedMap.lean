import Mathlib.Data.List.Basic
import Mathlib.Data.List.Induction
import ShaderGraph.OrderedMap

/-!
# Values in maps made of pairs

A map made of pairs has a value for the keys of the pairs and for no others. Where all pairs of a
key agree, that is its value, whichever of them came last.
-/

namespace ShaderGraph.OrderedMap

variable {κ α : Type} [DecidableEq κ]

theorem get?_foldl_insert_of_not_mem {k : κ} : ∀ (ps : List (κ × α)) (m : OrderedMap κ α),
    k ∉ ps.map (·.1) → get? (ps.foldl (fun m p => insert m p.1 p.2) m) k = get? m k
  | [], _, _ => rfl
  | q :: ps, m, h => by
    rw [List.map_cons, List.mem_cons, not_or] at h
    rw [List.foldl_cons, get?_foldl_insert_of_not_mem ps _ h.2, get?_insert, if_neg h.1]

theorem isSome_get? {m : OrderedMap κ α} {k : κ} : (get? m k).isSome = true ↔ k ∈ keys m := by
  rw [get?, Option.isSome_map, List.find?_isSome, keys, List.mem_map]
  simp

theorem get?_restrict (m : OrderedMap κ α) (ks : List κ) (k : κ) :
    get? (restrict m ks) k = if k ∈ ks then get? m k else none := by
  unfold get? restrict
  rw [List.find?_filter]
  split_ifs with hk
  · congr 2
    funext p
    rw [Bool.eq_iff_iff]
    simp only [decide_eq_true_iff]
    exact ⟨And.right, fun hp => ⟨hp ▸ hk, hp⟩⟩
  · rw [Option.map_eq_none_iff, List.find?_eq_none]
    intro p _ hp
    simp only [decide_eq_true_iff] at hp
    exact hk (hp.2 ▸ hp.1)

theorem mem_or_of_mem_insert {k : κ} {v : α} {p : κ × α} : ∀ {m : OrderedMap κ α},
    p ∈ insert m k v → p = (k, v) ∨ p ∈ m
  | [], h => Or.inl (List.mem_singleton.1 h)
  | q :: m, h => by
    rw [insert] at h
    split_ifs at h
    · exact (List.mem_cons.1 h).imp_right (List.mem_cons_of_mem _)
    · rcases List.mem_cons.1 h with rfl | h
      · exact Or.inr List.mem_cons_self
      · exact (mem_or_of_mem_insert h).imp_right (List.mem_cons_of_mem _)

theorem mem_or_of_mem_foldl_insert {p : κ × α} : ∀ (ps : List (κ × α)) {m : OrderedMap κ α},
    p ∈ ps.foldl (fun m p => insert m p.1 p.2) m → p ∈ ps ∨ p ∈ m
  | [], _, h => Or.inr h
  | q :: ps, m, h => by
    rcases mem_or_of_mem_foldl_insert ps h with h | h
    · exact Or.inl (List.mem_cons_of_mem _ h)
    · exact (mem_or_of_mem_insert h).imp_left fun he => List.mem_cons.2 (.inl he)

theorem mem_of_mem_ofPairs {ps : List (κ × α)} {p : κ × α} (h : p ∈ ofPairs ps) : p ∈ ps :=
  (mem_or_of_mem_foldl_insert ps h).resolve_right List.not_mem_nil

theorem mem_keys_foldl_insert {k : κ} : ∀ (ps : List (κ × α)) (m : OrderedMap κ α),
    k ∈ keys (ps.foldl (fun m p => insert m p.1 p.2) m) ↔ k ∈ ps.map (·.1) ∨ k ∈ keys m
  | [], _ => by simp
  | q :: ps, m => by
    have hkeys : k ∈ keys (insert m q.1 q.2) ↔ k = q.1 ∨ k ∈ keys m := by
      rw [keys_insert]
      split_ifs with hq
      · exact ⟨Or.inr, fun h => h.elim (fun e => e ▸ hq) id⟩
      · rw [List.mem_append, List.mem_singleton, or_comm]
    rw [List.foldl_cons, mem_keys_foldl_insert ps, hkeys, List.map_cons, List.mem_cons]
    exact ⟨fun h => h.elim (fun h => .inl (.inr h)) (·.imp_left .inl),
      fun h => h.elim (·.elim (fun e => .inr (.inl e)) .inl) fun h => .inr (.inr h)⟩

theorem mem_keys_ofPairs {ps : List (κ × α)} {k : κ} :
    k ∈ keys (ofPairs ps) ↔ k ∈ ps.map (·.1) := by
  rw [ofPairs, mem_keys_foldl_insert]
  simp [keys]

theorem get?_of_mem {κ α : Type} [DecidableEq κ] {m : OrderedMap κ α} (hm : (keys m).Nodup)
    {p : κ × α} (hp : p ∈ m) : get? m p.1 = some p.2 := by
  induction m with
  | nil => cases hp
  | cons q m ih =>
    obtain ⟨hq, hm⟩ := List.nodup_cons.1 hm
    rcases List.mem_cons.1 hp with rfl | hp
    · simp [get?]
    · have hne : q.1 ≠ p.1 := fun h => hq (List.mem_map.2 ⟨p, hp, h.symm⟩)
      simpa [get?, hne] using ih hm hp

theorem get?_eq_some_iff {m : OrderedMap κ α} (hm : (keys m).Nodup) {k : κ} {v : α} :
    get? m k = some v ↔ (k, v) ∈ m := by
  refine ⟨fun h => ?_, fun h => get?_of_mem hm h⟩
  obtain ⟨p, hp, rfl⟩ := Option.map_eq_some_iff.1 h
  have hkey := List.find?_some hp
  rw [decide_eq_true_iff] at hkey
  exact hkey ▸ List.mem_of_find?_eq_some hp

theorem insert_of_not_mem {k : κ} {v : α} : ∀ {m : OrderedMap κ α}, k ∉ keys m →
    insert m k v = m ++ [(k, v)]
  | [], _ => rfl
  | p :: m, h => by
    rw [keys, List.map_cons, List.mem_cons, not_or] at h
    rw [insert, if_neg (Ne.symm h.1), insert_of_not_mem h.2, List.cons_append]

theorem foldl_insert_of_nodup : ∀ {ps : List (κ × α)} {m : OrderedMap κ α}, (keys (m ++ ps)).Nodup →
    ps.foldl (fun m p => insert m p.1 p.2) m = m ++ ps
  | [], m, _ => (List.append_nil m).symm
  | p :: ps, m, h => by
    have hp : p.1 ∉ keys m := by
      rw [keys, List.map_append, List.map_cons] at h
      exact fun hm => (List.nodup_append.1 h).2.2 _ hm _ List.mem_cons_self rfl
    rw [List.foldl_cons, insert_of_not_mem hp, foldl_insert_of_nodup (by simpa using h),
      List.append_assoc, List.singleton_append]

/-- Pairs whose keys differ are a map as they are. -/
theorem ofPairs_eq_self {ps : List (κ × α)} (h : (keys ps).Nodup) : ofPairs ps = ps :=
  foldl_insert_of_nodup h

theorem nodup_keys_insert {m : OrderedMap κ α} (h : (keys m).Nodup) (k : κ) (v : α) :
    (keys (insert m k v)).Nodup := by
  rw [keys_insert]
  split_ifs with hk
  · exact h
  · exact List.nodup_append.2 ⟨h, List.pairwise_singleton _ k, fun a ha b hb hab =>
      hk (List.mem_singleton.1 hb ▸ hab ▸ ha)⟩

/-- A map made of pairs has no key twice. -/
theorem nodup_keys_ofPairs (ps : List (κ × α)) : (keys (ofPairs ps)).Nodup := by
  induction ps using List.reverseRecOn with
  | nil => exact List.nodup_nil
  | append_singleton ps p ih =>
    rw [ofPairs, List.foldl_append]
    exact nodup_keys_insert ih p.1 p.2

/-! ## Which pairs a map keeps -/

/-- Elements that join a list unless they are in it come in their order, each where it is first. -/
theorem foldl_join_eq (as : List κ) : ∀ bs : List κ,
    as.foldl (fun bs a => if a ∈ bs then bs else bs ++ [a]) bs
      = bs ++ (as.filter (· ∉ bs)).eraseDups := by
  induction as with
  | nil => exact fun bs => (List.append_nil bs).symm
  | cons a as ih =>
    intro bs
    rw [List.foldl_cons, ih]
    by_cases ha : a ∈ bs
    · rw [if_pos ha, List.filter_cons_of_neg (by simpa using ha)]
    · rw [if_neg ha, List.filter_cons_of_pos (by simpa using ha), List.eraseDups_cons,
        List.filter_filter, List.append_assoc, List.singleton_append]
      congr 4
      funext b
      rw [Bool.eq_iff_iff]
      simp [and_comm]

theorem keys_foldl_insert (ps : List (κ × α)) : ∀ m : OrderedMap κ α,
    keys (ps.foldl (fun m p => insert m p.1 p.2) m)
      = (ps.map (·.1)).foldl (fun ks k => if k ∈ ks then ks else ks ++ [k]) (keys m) := by
  induction ps with
  | nil => exact fun m => rfl
  | cons p ps ih =>
    intro m
    rw [List.foldl_cons, ih, keys_insert, List.map_cons, List.foldl_cons]

/-- Each key stands where it is first given. -/
theorem keys_ofPairs (ps : List (κ × α)) : keys (ofPairs ps) = (ps.map (·.1)).eraseDups := by
  rw [ofPairs, keys_foldl_insert, foldl_join_eq, List.filter_eq_self.2 (by simp [keys])]
  rfl

/-- Each key has the value that it is last given. -/
theorem get?_ofPairs_eq (ps : List (κ × α)) (k : κ) : get? (ofPairs ps) k = get? ps.reverse k := by
  induction ps using List.reverseRecOn with
  | nil => rfl
  | append_singleton ps p ih =>
    have hlast : ofPairs (ps ++ [p]) = insert (ofPairs ps) p.1 p.2 := by simp [ofPairs]
    rw [hlast, get?_insert, ih, List.reverse_append, List.reverse_singleton, List.singleton_append]
    by_cases hk : p.1 = k
    · simp [get?, hk]
    · simp [get?, hk, Ne.symm hk]

end ShaderGraph.OrderedMap
