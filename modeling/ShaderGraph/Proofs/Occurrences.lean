import Mathlib.Data.List.Infix
import ShaderGraph.Text.Search

/-!
# Occurrences in parts of a text

A text with one part after the other has what occurs in its parts, and what reaches from one part
into the next. Where nothing can reach over, replacing goes part by part
(`replaceFrom_append_of_prefix_left`): at a character that is not in what is replaced, or before one
that only starts it.
-/

namespace ShaderGraph.Text

variable {k q a b : List Char} {c d : Char}

/-! ## Parts that nothing reaches over -/

theorem prefix_append_cons_iff (hd : d ∉ k) : k <+: a ++ d :: b ↔ k <+: a := by
  refine ⟨fun h => ?_, fun h => h.trans (List.prefix_append a _)⟩
  rcases List.prefix_or_prefix_of_prefix h (List.prefix_append a (d :: b)) with hk | ⟨s, rfl⟩
  · exact hk
  · rw [List.prefix_append_right_inj] at h
    cases s with
    | nil => simp
    | cons x s =>
      obtain rfl := (List.cons_prefix_cons.1 h).1
      exact absurd (List.mem_append_right a List.mem_cons_self) hd

/-- What stands in a text without some character stands before or after that character. -/
theorem infix_or_infix_of_not_mem (hd : d ∉ k) :
    ∀ {a : List Char}, k <:+: a ++ d :: b → k <:+: a ∨ k <:+: b
  | [], h => by
    rcases List.infix_cons_iff.1 h with h | h
    · have hnil : k <+: [] := (prefix_append_cons_iff hd).1 h
      exact .inl hnil.isInfix
    · exact .inr h
  | x :: a, h => by
    rcases List.infix_cons_iff.1 h with h | h
    · have hprefix : k <+: x :: a := (prefix_append_cons_iff hd).1 h
      exact .inl hprefix.isInfix
    · exact (infix_or_infix_of_not_mem hd h).imp_left List.infix_cons

theorem infix_intercalate {sep l : List Char} :
    ∀ {ls : List (List Char)}, l ∈ ls → l <:+: sep.intercalate ls
  | [m], h => by
    rw [List.mem_singleton.1 h, List.intercalate_singleton]
  | m :: m' :: ls, h => by
    rw [List.intercalate_cons_cons, List.append_assoc]
    rcases List.mem_cons.1 h with rfl | h
    · exact (List.prefix_append _ _).isInfix
    · rw [← List.append_assoc]
      exact (infix_intercalate h).trans (List.suffix_append _ _).isInfix

theorem exists_infix_of_intercalate (hd : d ∉ k) (hk : k ≠ []) :
    ∀ {ls : List (List Char)}, k <:+: [d].intercalate ls → ∃ l ∈ ls, k <:+: l
  | [], h => absurd (List.infix_nil.1 h) hk
  | [l], h => ⟨l, List.mem_singleton_self l, by rwa [List.intercalate_singleton] at h⟩
  | l :: m :: ls, h => by
    rw [List.intercalate_cons_cons, List.append_assoc, List.singleton_append] at h
    rcases infix_or_infix_of_not_mem hd h with h | h
    · exact ⟨l, List.mem_cons_self, h⟩
    · obtain ⟨n, hn, h⟩ := exists_infix_of_intercalate hd hk h
      exact ⟨n, List.mem_cons_of_mem _ hn, h⟩

/-- What is done apart before and after a character is done apart in texts with it between them. -/
theorem map_intercalate {f : List Char → List Char} (hnil : f [] = [])
    (hf : ∀ a b, f (a ++ d :: b) = f a ++ d :: f b) :
    ∀ ls : List (List Char), f ([d].intercalate ls) = [d].intercalate (ls.map f)
  | [] => hnil
  | [l] => by simp
  | l :: m :: ls => by
    have htail := map_intercalate hnil hf (m :: ls)
    rw [List.map_cons] at htail
    rw [List.map_cons, List.map_cons, List.intercalate_cons_cons, List.intercalate_cons_cons,
      List.append_assoc, List.append_assoc, List.singleton_append, List.singleton_append, hf, htail]

/-! ## Replacing in parts -/

/-- If no occurrence reaches from `a` into what follows, both are replaced apart. -/
theorem replaceFrom_append_of_prefix_left (h : ∀ s, s ≠ [] → s <:+ a → k <+: s ++ b → k <+: s)
    (q : List Char) {skip : Nat} (hskip : skip ≤ a.length) :
    replaceFrom k q skip (a ++ b) = replaceFrom k q skip a ++ replaceFrom k q 0 b := by
  induction a generalizing skip with
  | nil =>
    obtain rfl := Nat.le_zero.1 hskip
    rfl
  | cons c a ih =>
    have ih {n : Nat} : n ≤ a.length →
        replaceFrom k q n (a ++ b) = replaceFrom k q n a ++ replaceFrom k q 0 b :=
      ih fun s hne hs => h s hne (hs.trans (List.suffix_cons c a))
    cases skip with
    | succ n => exact ih (Nat.le_of_succ_le_succ hskip)
    | zero =>
      have hiff : k <+: c :: (a ++ b) ↔ k <+: c :: a :=
        ⟨h (c :: a) (List.cons_ne_nil c a) List.suffix_rfl,
          fun hk => hk.trans (List.prefix_append (c :: a) b)⟩
      rw [List.cons_append, replaceFrom, replaceFrom]
      simp only [List.isPrefixOf_iff_prefix, hiff]
      split_ifs with hprefix
      · have hlength := hprefix.length_le
        rw [ih (by simp at hlength ⊢; omega), List.append_assoc]
      · rw [ih (Nat.zero_le _), List.cons_append]

theorem replaceFrom_cons_of_not_prefix_cons (h : ¬k <+: c :: a) :
    replaceFrom k q 0 (c :: a) = c :: replaceFrom k q 0 a := by
  rw [replaceFrom, if_neg (by rwa [List.isPrefixOf_iff_prefix])]

/-- What is replaced before and after a character that is not in it is replaced apart. -/
theorem replaceFrom_append_cons (hd : d ∉ k) (hk : k ≠ []) (q : List Char) {skip : Nat}
    (hskip : skip ≤ a.length) :
    replaceFrom k q skip (a ++ d :: b) = replaceFrom k q skip a ++ d :: replaceFrom k q 0 b := by
  have hnot : ¬k <+: [] ++ d :: b := fun h =>
    hk (List.prefix_nil.1 ((prefix_append_cons_iff hd).1 h))
  rw [replaceFrom_append_of_prefix_left (fun s _ _ => (prefix_append_cons_iff hd).1) q hskip,
    replaceFrom_cons_of_not_prefix_cons hnot]

/-- What has its first character nowhere else is replaced apart before such a character and from
it on. -/
theorem replaceFrom_append_head (hd : d ∉ k) (q : List Char) {skip : Nat}
    (hskip : skip ≤ a.length) :
    replaceFrom (d :: k) q skip (a ++ d :: b)
      = replaceFrom (d :: k) q skip a ++ replaceFrom (d :: k) q 0 (d :: b) := by
  refine replaceFrom_append_of_prefix_left (fun s hne _ h => ?_) q hskip
  obtain ⟨c, s, rfl⟩ := List.exists_cons_of_ne_nil hne
  rw [List.cons_append, List.cons_prefix_cons, prefix_append_cons_iff hd] at h
  exact List.cons_prefix_cons.2 h

/-- The last character of a text stays if what is replaced ends in another one. -/
theorem replaceFrom_concat (hc : c ≠ d) (q : List Char) {skip : Nat} (hskip : skip ≤ a.length) :
    replaceFrom (k ++ [d]) q skip (a ++ [c]) = replaceFrom (k ++ [d]) q skip a ++ [c] := by
  have hend {s : List Char} (h : k ++ [d] <+: s ++ [c]) : k ++ [d] <+: s := by
    rcases List.prefix_concat_iff.1 h with h | h
    · exact absurd (List.append_inj' h rfl).2 (by simpa using Ne.symm hc)
    · exact h
  have hnot : ¬k ++ [d] <+: [c] := by
    intro h
    have hnil : k ++ [d] <+: [] := hend h
    simp at hnil
  rw [replaceFrom_append_of_prefix_left (fun s _ _ => hend) q hskip,
    replaceFrom_cons_of_not_prefix_cons hnot]
  rfl

theorem replaceFrom_append_of_not_mem (hd : d ∉ a) (q : List Char) :
    replaceFrom (d :: k) q 0 (a ++ b) = a ++ replaceFrom (d :: k) q 0 b := by
  induction a with
  | nil => rfl
  | cons c a ih =>
    rw [List.mem_cons, not_or] at hd
    have hnot : ¬d :: k <+: c :: (a ++ b) := fun h => hd.1 (List.cons_prefix_cons.1 h).1
    rw [List.cons_append, replaceFrom_cons_of_not_prefix_cons hnot, ih hd.2, List.cons_append]

theorem replaceFrom_length_append (k q b : List Char) :
    ∀ cs : List Char, replaceFrom k q cs.length (cs ++ b) = replaceFrom k q 0 b
  | [] => rfl
  | _ :: cs => replaceFrom_length_append k q b cs

theorem replaceFrom_append_self (c : Char) (k q b : List Char) :
    replaceFrom (c :: k) q 0 (c :: k ++ b) = q ++ replaceFrom (c :: k) q 0 b := by
  rw [List.cons_append, replaceFrom, if_pos (by simp), List.length_cons, Nat.add_sub_cancel,
    replaceFrom_length_append]

theorem count_replaceFrom_le (hq : c ∉ q) (a : List Char) (skip : Nat) :
    (replaceFrom k q skip a).count c ≤ (a.drop skip).count c := by
  induction a generalizing skip with
  | nil => simp [replaceFrom]
  | cons x a ih =>
    cases skip with
    | succ n => exact ih n
    | zero =>
      rw [replaceFrom, List.drop_zero]
      split_ifs
      · rw [List.count_append, List.count_eq_zero_of_not_mem hq, Nat.zero_add]
        have hdropped := (List.drop_suffix (k.length - 1) a).sublist
        exact (ih _).trans ((hdropped.trans (List.sublist_cons_self x a)).count_le c)
      · have hrest := ih 0
        rw [List.drop_zero] at hrest
        rw [List.count_cons, List.count_cons]
        omega

theorem replaceFrom_eq_self (h : ¬k <:+: a) : replaceFrom k q 0 a = a := by
  induction a with
  | nil => rfl
  | cons x a ih =>
    rw [List.infix_cons_iff, not_or] at h
    rw [replaceFrom_cons_of_not_prefix_cons h.1, ih h.2]

/-- Where something is replaced, the characters that the replacement does not have get fewer. -/
theorem count_replaceFrom_lt (hk : c ∈ k) (hq : c ∉ q) (h : k <:+: a) :
    (replaceFrom k q 0 a).count c < a.count c := by
  induction a with
  | nil =>
    rw [List.infix_nil] at h
    rw [h] at hk
    cases hk
  | cons x a ih =>
    rw [replaceFrom]
    split_ifs with hprefix
    · obtain ⟨rest, hrest⟩ := List.isPrefixOf_iff_prefix.1 hprefix
      obtain ⟨y, k, rfl⟩ := List.exists_cons_of_ne_nil (List.ne_nil_of_mem hk)
      rw [List.cons_append] at hrest
      obtain ⟨rfl, rfl⟩ := List.cons.inj hrest
      have hle := count_replaceFrom_le (k := y :: k) hq (k ++ rest) ((y :: k).length - 1)
      have hdrop : (k ++ rest).drop ((y :: k).length - 1) = rest := by simp
      have hpos := List.count_pos_iff.2 hk
      rw [hdrop] at hle
      rw [List.count_append, List.count_eq_zero_of_not_mem hq, Nat.zero_add, ← List.cons_append,
        List.count_append]
      omega
    · have hrest : k <:+: a := (List.infix_cons_iff.1 h).resolve_left fun h =>
        hprefix (List.isPrefixOf_iff_prefix.2 h)
      have hlt := ih hrest
      rw [List.count_cons, List.count_cons]
      omega

end ShaderGraph.Text
