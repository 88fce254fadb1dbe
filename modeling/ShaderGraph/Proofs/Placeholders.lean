import ShaderGraph.Editor.Command
import ShaderGraph.Proofs.Occurrences

/-!
# Placeholders of a template

The placeholders of a template are replaced one kind after the other. With a mark instead of each
placeholder the template says where they are; whatever is put in their places, the template is that
filling (`Filling.replaceAll_eq`), as long as what was put in earlier does not meet a placeholder that
is replaced later, by itself or together with the text around it (`Apart`).
-/

namespace ShaderGraph

namespace EditorSettings

open Text

/-! ## Marks -/

/-- A part of a template. -/
inductive Item where
  | char (c : Char)
  | file
  | line
  | column
deriving DecidableEq, Repr

/-- Whether a part is a placeholder. -/
def Item.isMark : Item → Bool
  | char _ => false
  | _ => true

/-- What is put in the places of the placeholders. -/
structure Filling where
  file : List Char
  line : List Char
  column : List Char

namespace Filling

def text (f : Filling) : Item → List Char
  | .char c => [c]
  | .file => f.file
  | .line => f.line
  | .column => f.column

def fill (f : Filling) (is : List Item) : List Char := is.flatMap f.text

/-- Each placeholder by its own name. -/
def names : Filling := ⟨"%FILE%".toList, "%LINE%".toList, "%CHAR%".toList⟩

/-- The file, the line and the column of an error. -/
def values (e : LocatedError) : Filling :=
  ⟨e.file.toText.toList, (toString e.line).toList, (toString (e.first.getD 0)).toList⟩

/-- The texts are put in the places of the placeholders, one kind after the other. -/
def replaceAll (f : Filling) (cs : List Char) : List Char :=
  replaceChars names.column f.column
    (replaceChars names.line f.line (replaceChars names.file f.file cs))

variable (f : Filling) (i : Item) (is js : List Item)

@[simp]
theorem fill_nil : f.fill [] = [] := rfl

@[simp]
theorem fill_cons : f.fill (i :: is) = f.text i ++ f.fill is := List.flatMap_cons

@[simp]
theorem fill_append : f.fill (is ++ js) = f.fill is ++ f.fill js := List.flatMap_append

@[simp]
theorem fill_chars (cs : List Char) : f.fill (cs.map .char) = cs := by
  induction cs with
  | nil => rfl
  | cons c cs ih => rw [List.map_cons, fill_cons, ih, text, List.singleton_append]

end Filling

/-- Every occurrence of `k` in a template replaced by a mark; of an occurrence just replaced `skip`
characters are still to be dropped. -/
def markFrom (k : List Char) (m : Item) (skip : Nat) : List Item → List Item
  | [] => []
  | i :: is =>
    match skip with
    | n + 1 => markFrom k m n is
    | 0 =>
      if (k.map Item.char).isPrefixOf (i :: is) then m :: markFrom k m (k.length - 1) is
      else i :: markFrom k m 0 is

/-- A template with a mark for each placeholder. -/
def mark (cs : List Char) : List Item :=
  markFrom Filling.names.column .column 0
    (markFrom Filling.names.line .line 0 (markFrom Filling.names.file .file 0 (cs.map .char)))

section

variable {k : List Char} {m i : Item} {is : List Item} {skip : Nat} {f : Filling}

theorem mem_or_of_mem_markFrom (h : i ∈ markFrom k m skip is) : i = m ∨ i ∈ is := by
  induction is generalizing skip with
  | nil => exact .inr h
  | cons j is ih =>
    have hstep : i ∈ [m, j] ∨ ∃ n, i ∈ markFrom k m n is := by
      cases skip with
      | succ n => exact .inr ⟨n, h⟩
      | zero =>
        rw [markFrom] at h
        split_ifs at h <;> rcases List.mem_cons.1 h with rfl | h
        · simp
        · exact .inr ⟨_, h⟩
        · simp
        · exact .inr ⟨_, h⟩
    rcases hstep with hmem | ⟨n, h⟩
    · simpa [or_left_comm, or_assoc] using Or.inl (b := i ∈ is) hmem
    · exact (ih h).imp_right (List.mem_cons_of_mem j)

/-- A mark stands for what it replaced. -/
theorem fill_markFrom_self (hk : k ≠ []) (hm : f.text m = k) :
    f.fill (markFrom k m skip is) = f.fill (is.drop skip) := by
  induction is generalizing skip with
  | nil => rw [markFrom, List.drop_nil]
  | cons i is ih =>
    cases skip with
    | succ n => rw [markFrom, List.drop_succ_cons, ih]
    | zero =>
      rw [markFrom, List.drop_zero]
      split_ifs with hprefix
      · obtain ⟨rest, hrest⟩ := List.isPrefixOf_iff_prefix.1 hprefix
        obtain ⟨c, k, rfl⟩ := List.exists_cons_of_ne_nil hk
        rw [List.map_cons, List.cons_append] at hrest
        obtain ⟨rfl, rfl⟩ := List.cons.inj hrest
        have hdrop : (k.map Item.char ++ rest).drop ((c :: k).length - 1) = rest := by simp
        rw [Filling.fill_cons, hm, ih, hdrop, Filling.fill_cons, Filling.fill_append, Filling.fill_chars]
        rfl
      · rw [Filling.fill_cons, Filling.fill_cons, ih, List.drop_zero]

theorem fill_names_mark (cs : List Char) : Filling.names.fill (mark cs) = cs := by
  have hself (m : Item) (hm : Filling.names.text m ≠ []) (is : List Item) :
      Filling.names.fill (markFrom (Filling.names.text m) m 0 is) = Filling.names.fill is := by
    rw [fill_markFrom_self hm rfl, List.drop_zero]
  exact (hself .column (by decide) _).trans ((hself .line (by decide) _).trans
    ((hself .file (by decide) _).trans (Filling.fill_chars _ cs)))

end

/-! ## Texts that do not meet -/

/-- The end of a text, or all of it, begins another text or begins with it. -/
def Meets (a b : List Char) : Prop := ∃ s ∈ a.tails, s ≠ [] ∧ (s <+: b ∨ b <+: s)

/-- A text that is not empty and in which, whatever is around it, no occurrence of `k` begins or ends. -/
def Apart (k t : List Char) : Prop := t ≠ [] ∧ ¬Meets k t ∧ ¬Meets t k

instance (a b : List Char) : Decidable (Meets a b) :=
  inferInstanceAs (Decidable (∃ s ∈ a.tails, s ≠ [] ∧ (s <+: b ∨ b <+: s)))

instance (k t : List Char) : Decidable (Apart k t) :=
  inferInstanceAs (Decidable (t ≠ [] ∧ ¬Meets k t ∧ ¬Meets t k))

section

variable {a b k t r : List Char} {m i : Item} {is : List Item} {skip : Nat} {f : Filling}

theorem not_meets_of_disjoint (h : ∀ c ∈ a, c ∉ b) (hb : b ≠ []) : ¬Meets a b := by
  rintro ⟨s, hs, hne, hprefix⟩
  rw [List.mem_tails] at hs
  obtain ⟨c, s, rfl⟩ := List.exists_cons_of_ne_nil hne
  obtain ⟨d, b, rfl⟩ := List.exists_cons_of_ne_nil hb
  have hcd : c = d := by
    rcases hprefix with hprefix | hprefix
    · exact (List.cons_prefix_cons.1 hprefix).1
    · exact (List.cons_prefix_cons.1 hprefix).1.symm
  exact h c (hs.mem List.mem_cons_self) (hcd ▸ List.mem_cons_self)

theorem apart_of_disjoint (hk : k ≠ []) (ht : t ≠ []) (h : ∀ c ∈ t, c ∉ k) : Apart k t :=
  ⟨ht, not_meets_of_disjoint (fun c hc hct => h c hct hc) ht, not_meets_of_disjoint h hk⟩

theorem not_prefix_append (h : ¬Meets a b) {s : List Char} (hs : s <:+ a) (hne : s ≠ []) :
    ¬s <+: b ++ r := by
  intro hprefix
  exact h ⟨s, (List.mem_tails s a).2 hs, hne,
    List.prefix_or_prefix_of_prefix hprefix (List.prefix_append b r)⟩

/-- A text that is apart from what is replaced is left as it is. -/
theorem replaceFrom_append (h : ¬Meets t k) (q r : List Char) :
    replaceFrom k q 0 (t ++ r) = t ++ replaceFrom k q 0 r := by
  induction t with
  | nil => rfl
  | cons c t ih =>
    have hnot : ¬k <+: c :: (t ++ r) := by
      intro hprefix
      exact h ⟨c :: t, (List.mem_tails _ _).2 List.suffix_rfl, nofun,
        List.prefix_or_prefix_of_prefix (List.prefix_append (c :: t) r) hprefix⟩
    have hrest : ¬Meets t k := fun ⟨s, hs, hmeets⟩ => h ⟨s, (List.mem_tails _ _).2
      (((List.mem_tails _ _).1 hs).trans (List.suffix_cons c t)), hmeets⟩
    rw [List.cons_append, replaceFrom, if_neg (by rwa [List.isPrefixOf_iff_prefix]), ih hrest]
    rfl

/-- The texts that are put in the places of marks are apart from `k`. -/
def Filling.IsApart (f : Filling) (k : List Char) (is : List Item) : Prop :=
  ∀ i ∈ is, i.isMark = true → Apart k (f.text i)

/-- What follows `k` in a template has been read from characters alone. -/
theorem prefix_fill_iff (h : f.IsApart k is) (ht : t <:+ k) : t <+: f.fill is ↔ t.map .char <+: is := by
  induction is generalizing t with
  | nil => simp [Filling.fill]
  | cons i is ih =>
    obtain ⟨hi, his⟩ := List.forall_mem_cons.1 h
    cases t with
    | nil => simp
    | cons d t =>
      cases hmark : i.isMark with
      | true =>
        have hnot : ¬d :: t <+: f.text i ++ f.fill is := not_prefix_append (hi hmark).2.1 ht nofun
        have hchar : Item.char d ≠ i := by
          rintro rfl
          cases hmark
        rw [Filling.fill_cons, List.map_cons, List.cons_prefix_cons]
        simp [hnot, hchar]
      | false =>
        cases i with
        | char c =>
          rw [Filling.fill_cons, Filling.text, List.singleton_append, List.map_cons,
            List.cons_prefix_cons, List.cons_prefix_cons, Item.char.injEq,
            ih his ((List.suffix_cons d t).trans ht)]
        | file | line | column => cases hmark

/-- Replacing goes along with filling. -/
theorem fill_markFrom (hk : k ≠ []) (h : f.IsApart k is)
    (hskip : ∀ i ∈ is.take skip, i.isMark = false) :
    f.fill (markFrom k m skip is) = replaceFrom k (f.text m) skip (f.fill is) := by
  induction is generalizing skip with
  | nil => rfl
  | cons i is ih =>
    obtain ⟨hi, his⟩ := List.forall_mem_cons.1 h
    cases skip with
    | succ n =>
      rw [List.take_succ_cons, List.forall_mem_cons] at hskip
      cases i with
      | char c => rw [markFrom, ih his hskip.2]; rfl
      | file | line | column => cases hskip.1
    | zero =>
      have hprefix := prefix_fill_iff h (List.suffix_refl k)
      rw [markFrom]
      cases hmark : i.isMark with
      | true =>
        have hnot : ¬k.map Item.char <+: i :: is := by
          rw [← hprefix, Filling.fill_cons]
          exact not_prefix_append (hi hmark).2.1 List.suffix_rfl hk
        rw [if_neg (by rwa [List.isPrefixOf_iff_prefix]), Filling.fill_cons, Filling.fill_cons,
          ih his (by simp), replaceFrom_append (hi hmark).2.2]
      | false =>
        cases i with
        | file | line | column => cases hmark
        | char c =>
          rw [Filling.fill_cons, Filling.text, List.singleton_append] at hprefix
          rw [Filling.fill_cons, Filling.text, List.singleton_append, replaceFrom]
          simp only [List.isPrefixOf_iff_prefix, hprefix]
          split_ifs with hfound
          · obtain ⟨rest, hrest⟩ := hfound
            obtain ⟨d, k, rfl⟩ := List.exists_cons_of_ne_nil hk
            rw [List.map_cons, List.cons_append] at hrest
            obtain ⟨-, rfl⟩ := List.cons.inj hrest
            have hchars : ∀ i ∈ (k.map Item.char ++ rest).take ((d :: k).length - 1), i.isMark = false := by
              have htake : (k.map Item.char ++ rest).take ((d :: k).length - 1) = k.map Item.char := by simp
              rw [htake, List.forall_mem_map]
              exact fun _ _ => rfl
            rw [Filling.fill_cons, ih his hchars]
          · rw [Filling.fill_cons, ih his (by simp), Filling.text, List.singleton_append]

end

/-- The template with its placeholders replaced is its filling, if what is put in the places of some of
them is apart from those that are replaced later. -/
theorem Filling.replaceAll_eq {f : Filling} (hfile : Apart names.line f.file ∧ Apart names.column f.file)
    (hline : Apart names.column f.line) (cs : List Char) : f.replaceAll cs = f.fill (mark cs) := by
  have hnone : ∀ k, f.IsApart k (cs.map .char) := by
    intro k i hi hmark
    obtain ⟨c, -, rfl⟩ := List.mem_map.1 hi
    cases hmark
  have hfiles : f.IsApart names.line (markFrom names.file .file 0 (cs.map .char)) := by
    intro i hi hmark
    rcases mem_or_of_mem_markFrom hi with rfl | hi
    · exact hfile.1
    · exact hnone _ i hi hmark
  have hlines : f.IsApart names.column
      (markFrom names.line .line 0 (markFrom names.file .file 0 (cs.map .char))) := by
    intro i hi hmark
    rcases mem_or_of_mem_markFrom hi with rfl | hi
    · exact hline
    rcases mem_or_of_mem_markFrom hi with rfl | hi
    · exact hfile.2
    · exact hnone _ i hi hmark
  rw [mark, fill_markFrom (by decide) hlines (by simp), fill_markFrom (by decide) hfiles (by simp),
    fill_markFrom (by decide) (hnone _) (by simp), fill_chars]
  rfl

end EditorSettings

end ShaderGraph
