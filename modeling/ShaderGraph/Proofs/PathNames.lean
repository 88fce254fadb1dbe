import ShaderGraph.Include.Roots
import ShaderGraph.Proofs.Balance
import ShaderGraph.Proofs.Declarations

/-!
# The names of a path

What stands between the slashes of a text are its pieces; those that are not empty and no point are
the names of the path that it spells. Names that are joined by slashes are found again, and slashes at
the head of a text or between its parts make no difference to them.
-/

namespace ShaderGraph

open Text

namespace Text

variable {sep : Char}

theorem pieces_eq_splitOn (sep : Char) (cs : List Char) : pieces sep cs = cs.splitOn sep := by
  rw [List.splitOn]
  induction cs with
  | nil => rfl
  | cons c cs ih =>
    rw [pieces, ih, List.splitOnP_cons_eq_if_modifyHead]
    by_cases hc : c = sep
    · simp [hc]
    · cases h : cs.splitOnP (· == sep) with
      | nil => exact absurd h (List.splitOnP_ne_nil _ _)
      | cons p ps => simp [hc]

theorem pieces_ne_nil (sep : Char) (cs : List Char) : pieces sep cs ≠ [] := by
  rw [pieces_eq_splitOn]
  exact List.splitOn_ne_nil _ _

theorem pieces_intercalate {ps : List (List Char)} (hne : ps ≠ []) (h : ∀ p ∈ ps, sep ∉ p) :
    pieces sep ([sep].intercalate ps) = ps := by
  rw [pieces_eq_splitOn, List.splitOn_intercalate sep h hne]

theorem not_mem_of_mem_pieces : ∀ {cs p : List Char}, p ∈ pieces sep cs → sep ∉ p
  | [], p, h => by simp_all [pieces]
  | c :: cs, p, h => by
    have ih : ∀ q ∈ pieces sep cs, sep ∉ q := fun q => not_mem_of_mem_pieces
    rw [pieces] at h
    split_ifs at h with hc
    · rcases List.mem_cons.1 h with rfl | h
      · exact List.not_mem_nil
      · exact ih p h
    · cases hps : pieces sep cs with
      | nil => exact absurd hps (pieces_ne_nil sep cs)
      | cons q ps =>
        rw [hps] at h ih
        rcases List.mem_cons.1 h with rfl | h
        · rw [List.mem_cons, not_or]
          exact ⟨Ne.symm hc, ih q List.mem_cons_self⟩
        · exact ih p (List.mem_cons_of_mem _ h)

end Text

namespace DiskPath

/-- A name that a path may have: it holds no slash, and is neither empty nor a point. -/
def IsName (n : String) : Prop := n.toList ≠ [] ∧ n.toList ≠ ['.'] ∧ '/' ∉ n.toList

instance (n : String) : Decidable (IsName n) := by
  unfold IsName
  infer_instance

/-- The names among some pieces of a text. -/
def kept (ps : List (List Char)) : List String :=
  (ps.filter fun n => n ≠ [] ∧ n ≠ ['.']).map String.ofList

theorem namesOf_eq (cs : List Char) : namesOf cs = kept (pieces '/' cs) := rfl

theorem kept_append (ps qs : List (List Char)) : kept (ps ++ qs) = kept ps ++ kept qs := by
  rw [kept, List.filter_append, List.map_append]
  rfl

theorem kept_map_toList {names : List String} (h : ∀ n ∈ names, IsName n) :
    kept (names.map String.toList) = names := by
  rw [kept, List.filter_eq_self.2, List.map_map]
  · simp
  · intro p hp
    obtain ⟨n, hn, rfl⟩ := List.mem_map.1 hp
    simpa using ⟨fun he => (h n hn).1 (by simp [he]), (h n hn).2.1⟩

theorem isName_of_mem_namesOf {cs : List Char} {n : String} (h : n ∈ namesOf cs) : IsName n := by
  obtain ⟨p, hp, rfl⟩ := List.mem_map.1 h
  obtain ⟨hmem, hp⟩ := List.mem_filter.1 hp
  rw [decide_eq_true_iff] at hp
  refine ⟨?_, ?_, ?_⟩ <;> rw [String.toList_ofList]
  · exact hp.1
  · exact hp.2
  · exact not_mem_of_mem_pieces hmem

theorem namesOf_append_cons (a b : List Char) : namesOf (a ++ '/' :: b) = namesOf a ++ namesOf b := by
  rw [namesOf_eq, pieces_append_cons, kept_append]
  rfl

theorem namesOf_cons_slash (cs : List Char) : namesOf ('/' :: cs) = namesOf cs :=
  namesOf_append_cons [] cs

/-- Slashes at the head of a text are before its first name. -/
theorem namesOf_dropWhile : ∀ cs : List Char, namesOf (cs.dropWhile (· = '/')) = namesOf cs
  | [] => rfl
  | c :: cs => by
    by_cases hc : c = '/'
    · rw [List.dropWhile_cons_of_pos (by simpa using hc), namesOf_dropWhile cs, hc, namesOf_cons_slash]
    · rw [List.dropWhile_cons_of_neg (by simpa using hc)]

theorem namesOf_dropLeadingSlashes (s : String) :
    namesOf (PathText.dropLeadingSlashes s).toList = namesOf s.toList := by
  rw [PathText.dropLeadingSlashes, String.toList_ofList, namesOf_dropWhile]

theorem pieces_joined {names : List String} (hne : names ≠ []) (h : ∀ n ∈ names, IsName n) :
    pieces '/' ("/".intercalate names).toList = names.map String.toList := by
  rw [String.toList_intercalate]
  refine pieces_intercalate (by simpa using hne) fun p hp => ?_
  obtain ⟨n, hn, rfl⟩ := List.mem_map.1 hp
  exact (h n hn).2.2

theorem namesOf_joined {names : List String} (h : ∀ n ∈ names, IsName n) :
    namesOf ("/".intercalate names).toList = names := by
  by_cases hne : names = []
  · rw [hne]
    rfl
  · rw [namesOf_eq, pieces_joined hne h, kept_map_toList h]

/-- Names that are joined by slashes start with no slash. -/
theorem head?_joined {names : List String} (h : ∀ n ∈ names, IsName n) :
    ("/".intercalate names).toList.head? ≠ some '/' := by
  rw [String.toList_intercalate]
  cases names with
  | nil => simp
  | cons n names =>
    obtain ⟨hne, -, hslash⟩ := h n List.mem_cons_self
    cases hn : n.toList with
    | nil => exact absurd hn hne
    | cons c cs =>
      have hc : c ≠ '/' := by
        rintro rfl
        exact hslash (hn ▸ List.mem_cons_self)
      cases names with
      | nil => simpa [hn] using hc
      | cons m names => simpa [hn] using hc

/-! ## Paths whose names are names -/

/-- Whether the names of a path are names, as those of a path that a text spells. -/
def IsProper (p : DiskPath) : Prop := ∀ n ∈ p.names, IsName n

instance (p : DiskPath) : Decidable p.IsProper := by
  unfold IsProper
  infer_instance

theorem isProper_ofString (s : String) : (ofString s).IsProper := fun _ hn => isName_of_mem_namesOf hn

theorem ofString_of_head? {s : String} (h : s.toList.head? ≠ some '/') : (ofString s).anchor = .here := by
  rw [ofString]
  cases hs : s.toList with
  | nil => rfl
  | cons c cs =>
    rw [hs] at h
    unfold Anchor.ofChars
    split <;> simp_all

/-- Below a directory, a text that starts with no slash adds its names. -/
theorem child_eq {p : DiskPath} {s : String} (h : s.toList.head? ≠ some '/') :
    p.child s = ⟨p.anchor, p.names ++ namesOf s.toList⟩ := by
  rw [child, join, isAbsolute, ofString_of_head? h]
  rfl

end DiskPath

end ShaderGraph
