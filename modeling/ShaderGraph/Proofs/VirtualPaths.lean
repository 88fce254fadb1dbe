import ShaderGraph.Proofs.PathNames
import ShaderGraph.Proofs.Roots

/-!
# Files, virtual paths and back

The virtual path of a file is taken from the root with the deepest directory that the file lies in, but
the file of a virtual path from the longest root that the path lies under. A root that is registered
inside of another one hides what the directory of the outer one has in its place, so a file comes back
from its virtual path if and only if the root of that path is the longest one for it
(`VirtualRoots.toDisk?_of_toVirtual?_iff`).
-/

namespace ShaderGraph

open Text

namespace PathText

theorem head?_dropLeadingSlashes (s : String) : (dropLeadingSlashes s).toList.head? ≠ some '/' := by
  rw [dropLeadingSlashes, String.toList_ofList]
  intro h
  have hkept := List.head?_dropWhile_not (· = '/') s.toList
  rw [h] at hkept
  simp at hkept

theorem dropWhile_slash_eq_self : ∀ {cs : List Char}, cs.head? ≠ some '/' →
    cs.dropWhile (· = '/') = cs
  | [], _ => rfl
  | c :: cs, h => List.dropWhile_cons_of_neg (by simpa using h)

end PathText

namespace VirtualRoots

open DiskPath

variable {roots : VirtualRoots} {current file directory : DiskPath} {path root other : String}
  {names : List String}

/-- The virtual path of what has some names below the directory of a root. -/
def spelled (root : String) (names : List String) : String :=
  if names = [] then root else PathText.join root ("/".intercalate names)

/-- A root as it stands before a slash: `/` is left out. -/
def stem (root : String) : List Char := (PathText.dropTrailingSlashes root).toList

theorem stem_cases (h : IsRoot root) : root = "/" ∧ stem root = [] ∨ stem root = root.toList
    ∧ root.toList.getLast? ≠ some '/' := by
  rcases h with rfl | ⟨-, hlast⟩
  · exact .inl ⟨rfl, by decide⟩
  · exact .inr ⟨by rw [stem, PathText.dropTrailingSlashes_eq_self hlast], hlast⟩

theorem IsRoot.ne_empty (h : IsRoot root) : root ≠ "" := by
  rintro rfl
  rcases h with h | ⟨h, -⟩
  · exact absurd h (by decide)
  · exact absurd h (by decide)

theorem toList_join (h : IsRoot root) {q : String} (hq : q.toList.head? ≠ some '/') :
    (PathText.join root q).toList = stem root ++ '/' :: q.toList := by
  have hrel : beginsWith q "/" = false := by
    rw [← Bool.not_eq_true, beginsWith_iff]
    intro hslash
    obtain ⟨rest, hrest⟩ := hslash
    exact hq (by rw [← hrest]; rfl)
  rw [PathText.join, hrel]
  rcases stem_cases h with ⟨rfl, hstem⟩ | ⟨hstem, hlast⟩
  · rw [hstem, if_neg (by simp), if_pos (by decide), String.toList_append]
    rfl
  · have hend : ¬(root.isEmpty || finishesWith root "/") = true := by
      rw [Bool.or_eq_true, not_or, finishesWith_iff]
      refine ⟨fun hempty => ?_, fun ⟨before, hbefore⟩ => hlast (by rw [← hbefore]; simp)⟩
      exact h.ne_empty (String.isEmpty_iff.1 hempty)
    rw [hstem, if_neg (by simp), if_neg hend, String.toList_append, String.toList_append,
      List.append_assoc]
    rfl

theorem toList_spelled (h : IsRoot root) (hnames : names ≠ []) (hproper : ∀ n ∈ names, IsName n) :
    (spelled root names).toList = stem root ++ '/' :: ("/".intercalate names).toList := by
  rw [spelled, if_neg hnames, toList_join h (head?_joined hproper)]

theorem isUnder_spelled (h : IsRoot root) (hproper : ∀ n ∈ names, IsName n) :
    IsUnder (spelled root names) root := by
  by_cases hnames : names = []
  · exact .inl (if_pos hnames)
  · refine (isUnder_iff h _).2 (.inr (beginsWith_iff.2 ?_))
    rw [toList_spelled h hnames hproper, String.toList_append]
    exact ⟨("/".intercalate names).toList, by simp [stem]⟩

theorem remainder_spelled (h : IsRoot root) (hproper : ∀ n ∈ names, IsName n) :
    remainder root (spelled root names) = "/".intercalate names := by
  by_cases hnames : names = []
  · rw [hnames, spelled, if_pos rfl, remainder, ← String.length_toList, List.drop_length]
    rfl
  · have hjoined := PathText.dropWhile_slash_eq_self (head?_joined hproper)
    rw [← String.toList_inj, remainder, PathText.dropLeadingSlashes, String.toList_ofList,
      String.toList_ofList, toList_spelled h hnames hproper, ← String.length_toList]
    rcases stem_cases h with ⟨rfl, hstem⟩ | ⟨hstem, -⟩
    · rw [hstem]
      exact hjoined
    · rw [hstem, List.drop_left, List.dropWhile_cons_of_pos (by simp), hjoined]

/-- What a path has behind a root that it lies under starts with a slash, unless there is nothing. -/
theorem IsUnder.exists_tail (h : IsUnder path root) (hroot : root ≠ "/") :
    ∃ tail, path.toList = root.toList ++ tail ∧ (tail = [] ∨ ∃ rest, tail = '/' :: rest) := by
  rcases h with rfl | h | ⟨h, -⟩
  · exact ⟨[], by simp, .inl rfl⟩
  · rw [beginsWith_iff, String.toList_append] at h
    obtain ⟨rest, hrest⟩ := h
    exact ⟨'/' :: rest, by rw [← hrest]; simp, .inr ⟨rest, rfl⟩⟩
  · exact absurd h hroot

theorem head?_remainder (root path : String) : (remainder root path).toList.head? ≠ some '/' :=
  PathText.head?_dropLeadingSlashes _

theorem namesOf_remainder {tail : List Char} (h : path.toList = root.toList ++ tail) :
    namesOf (remainder root path).toList = namesOf tail := by
  rw [remainder, namesOf_dropLeadingSlashes, h, ← String.length_toList, List.drop_left,
    String.toList_ofList]

/-- Behind a root there are fewer names of a path than behind a shorter one. -/
theorem length_names_lt (hroot : IsRoot root) (hother : IsRoot other)
    (hproper : ∀ n ∈ names, IsName n) (hunder : IsUnder (spelled root names) other)
    (hlt : root.length < other.length) :
    (namesOf (remainder other (spelled root names)).toList).length < names.length := by
  have hlength : root.toList.length < other.toList.length := by
    rwa [String.length_toList, String.length_toList]
  have hslash : other ≠ "/" := by
    rintro rfl
    exact hroot.ne_empty (by simpa using hlength)
  have hlast : other.toList.getLast? ≠ some '/' := (hother.resolve_left hslash).2
  have hnames : names ≠ [] := by
    rintro rfl
    exact absurd hunder.isPrefix.length_le (by simpa [spelled] using hlength)
  have hpath := toList_spelled hroot hnames hproper
  obtain ⟨tail, htail, hstart⟩ := hunder.exists_tail hslash
  rw [namesOf_remainder htail]
  -- the longer root goes on behind the slash after the shorter one
  obtain ⟨e, he⟩ : stem root ++ ['/'] <+: other.toList := by
    refine List.prefix_of_prefix_length_le ⟨("/".intercalate names).toList, by rw [hpath]; simp⟩
      hunder.isPrefix ?_
    rcases stem_cases hroot with ⟨rfl, hstem⟩ | ⟨hstem, -⟩
    · rw [hstem]
      exact hlength.le
    · rw [hstem, List.length_append]
      exact hlength
  have hne : e ≠ [] := by
    rintro rfl
    exact hlast (by rw [← he]; simp)
  have hjoined : ("/".intercalate names).toList = e ++ tail := by
    rw [hpath, ← he] at htail
    simpa using htail
  have hpieces := pieces_joined hnames hproper
  rcases hstart with rfl | ⟨rest, rfl⟩
  · exact List.length_pos_iff.2 hnames
  · rw [hjoined, pieces_append_cons] at hpieces
    have hcount := congrArg List.length hpieces
    rw [List.length_append, List.length_map] at hcount
    have hfirst := List.length_pos_iff.2 (pieces_ne_nil '/' e)
    have hrest : (namesOf rest).length ≤ (pieces '/' rest).length := by
      rw [namesOf_eq, kept, List.length_map]
      exact List.length_filter_le _ _
    rw [namesOf_cons_slash]
    omega

/-! ## The root that a virtual path is taken from -/

/-- How a file gets its virtual path: from a root with a directory that it lies in, of which there is no
deeper one, and its names from there on. -/
structure Taken (roots : VirtualRoots) (file : DiskPath) (root : String) (directory : DiskPath)
    (names : List String) : Prop where
  mem : (root, directory) ∈ roots
  file_eq : file = ⟨directory.anchor, directory.names ++ names⟩
  deepest : ∀ r ∈ roots, file.isWithin r.2 = true → r.2.depth ≤ directory.depth

theorem foldl_deeper (found : List (String × DiskPath)) :
    found.foldl deeper none = found.argmax fun f => f.2.depth := by
  unfold List.argmax
  congr 1
  funext best next
  cases best <;> rfl

theorem isWithin_iff : file.isWithin directory = true
    ↔ ∃ names, file = ⟨directory.anchor, directory.names ++ names⟩ := by
  obtain ⟨anchor, ns⟩ := file
  rw [isWithin, Bool.and_eq_true, decide_eq_true_iff, List.isPrefixOf_iff_prefix]
  constructor
  · rintro ⟨rfl, names, rfl⟩
    exact ⟨names, rfl⟩
  · rintro ⟨names, h⟩
    obtain ⟨rfl, rfl⟩ := DiskPath.mk.inj h
    exact ⟨rfl, List.prefix_append _ _⟩

theorem exists_taken (h : roots.virtualOf? file = some path) :
    ∃ root directory names, roots.Taken file root directory names ∧ path = spelled root names := by
  unfold virtualOf? at h
  rw [foldl_deeper] at h
  obtain ⟨b, hb, rfl⟩ := Option.map_eq_some_iff.1 h
  obtain ⟨hmem, hwithin⟩ := List.mem_filter.1 (List.argmax_mem hb)
  obtain ⟨names, hfile⟩ := isWithin_iff.1 hwithin
  have hnames : file.names.drop b.2.names.length = names := by
    rw [hfile]
    exact List.drop_left
  refine ⟨b.1, b.2, names, ⟨hmem, hfile, fun r hr hr' => ?_⟩, ?_⟩
  · exact List.le_of_mem_argmax (f := fun f : String × DiskPath => f.2.depth)
      (List.mem_filter.2 ⟨hr, hr'⟩) hb
  · rw [hnames]
    rfl

/-- A file is found again from its virtual path if and only if no longer root stands on the way. -/
theorem Taken.toDisk?_iff (h : roots.Taken file root directory names) (hroots : roots.Regular)
    (hproper : ∀ n ∈ names, IsName n) :
    roots.toDisk? (spelled root names) = some file ↔ roots.IsLongest (spelled root names) root := by
  have hkey : root ∈ OrderedMap.keys roots := List.mem_map_of_mem h.mem
  have hunder := isUnder_spelled (hroots.isRoot root hkey) hproper
  have hget := OrderedMap.get?_of_mem hroots.nodup h.mem
  constructor
  · intro hfile
    obtain ⟨best, hbest⟩ := exists_isLongest hkey hunder
    obtain ⟨d, hd⟩ := Option.isSome_iff_exists.1 (OrderedMap.isSome_get?.2 hbest.mem)
    rw [hbest.toDisk? hroots hd, child_eq (head?_remainder _ _), Option.some.injEq] at hfile
    have hmem := (OrderedMap.get?_eq_some_iff hroots.nodup).1 hd
    have hdeep : d.depth ≤ directory.depth := h.deepest (best, d) hmem (isWithin_iff.2 ⟨_, hfile.symm⟩)
    rcases (hbest.longest root hkey hunder).eq_or_lt with hlength | hlt
    · obtain rfl := hunder.eq_of_length hbest.under hlength
      exact hbest
    · have hfewer := length_names_lt (hroots.isRoot root hkey) (hroots.isRoot best hbest.mem) hproper
        hbest.under hlt
      obtain ⟨hanchor, hall⟩ := DiskPath.mk.inj (hfile.trans h.file_eq)
      have hcount := congrArg List.length hall
      rw [List.length_append, List.length_append] at hcount
      rw [depth, depth, isAbsolute, isAbsolute, hanchor] at hdeep
      omega
  · intro hlongest
    rw [hlongest.toDisk? hroots hget, remainder_spelled (hroots.isRoot root hkey) hproper,
      child_eq (head?_joined hproper), namesOf_joined hproper, ← h.file_eq]

/-- A file has a virtual path if it lies in the directory of a root, namely that of its names below the
deepest such directory; it is found again from there if and only if the root is the longest one that
the virtual path lies under. -/
theorem toDisk?_of_toVirtual?_iff {given : List (String × DiskPath)} {s : String}
    (h : addAll current [] given = .ok roots)
    (hs : current.resolve (.ofString s) = .ok (.ofString s))
    (hpath : roots.toVirtual? current (.ofString s) = .ok (some path)) :
    ∃ root directory names, roots.Taken (.ofString s) root directory names ∧ path = spelled root names
      ∧ (roots.toDisk? path = some (.ofString s) ↔ roots.IsLongest path root) := by
  rw [toVirtual?, hs] at hpath
  obtain ⟨root, directory, names, htaken, rfl⟩ := exists_taken (Except.ok.inj hpath)
  have hproper : ∀ n ∈ names, IsName n := fun n hn =>
    isProper_ofString s n (by rw [htaken.file_eq]; exact List.mem_append_right _ hn)
  exact ⟨root, directory, names, htaken, rfl, htaken.toDisk?_iff (regular_of_addAll h) hproper⟩

end VirtualRoots

namespace HiddenFile

open VirtualRoots

/-! ### A file that another root hides -/

def given : List (String × DiskPath) := [("/Project", .ofString "/a"), ("/Project/Sub", .ofString "/b")]

def roots : VirtualRoots := [("/Project", ⟨.root, ["a"]⟩), ("/Project/Sub", ⟨.root, ["b"]⟩)]

theorem toVirtual?_hidden : addAll .fileSystem [] given = .ok roots
    ∧ DiskPath.fileSystem.resolve (.ofString "/a/Sub/x.ush") = .ok (.ofString "/a/Sub/x.ush")
    ∧ roots.toVirtual? .fileSystem (.ofString "/a/Sub/x.ush") = .ok (some "/Project/Sub/x.ush") := by
  decide

/-- The root of the virtual path is not the longest one, so another file is found. -/
theorem toDisk?_ne_of_hidden :
    (addAll .fileSystem [] given = .ok roots
      ∧ DiskPath.fileSystem.resolve (.ofString "/a/Sub/x.ush") = .ok (.ofString "/a/Sub/x.ush")
      ∧ roots.toVirtual? .fileSystem (.ofString "/a/Sub/x.ush") = .ok (some "/Project/Sub/x.ush"))
    ∧ ∃ names, roots.Taken (.ofString "/a/Sub/x.ush") "/Project" ⟨.root, ["a"]⟩ names
      ∧ "/Project/Sub/x.ush" = spelled "/Project" names
      ∧ roots.toDisk? "/Project/Sub/x.ush" ≠ some (.ofString "/a/Sub/x.ush") := by
  refine ⟨toVirtual?_hidden, ?_⟩
  obtain ⟨hroots, hfile, hpath⟩ := toVirtual?_hidden
  obtain ⟨root, directory, names, htaken, hspelled, hiff⟩ := toDisk?_of_toVirtual?_iff hroots hfile hpath
  have hmem := htaken.mem
  have hwithin := isWithin_iff.2 ⟨names, htaken.file_eq⟩
  simp only [roots, List.mem_cons, Prod.mk.injEq, List.not_mem_nil, or_false] at hmem
  rcases hmem with ⟨rfl, rfl⟩ | ⟨rfl, rfl⟩
  · refine ⟨names, htaken, hspelled, hiff.not.2 fun hlongest => ?_⟩
    exact absurd (hlongest.longest "/Project/Sub" (by decide) (by decide)) (by decide)
  · exact absurd hwithin (by decide)

theorem not_forall_found_again : ¬∀ (current : DiskPath) (given : List (String × DiskPath))
    (roots : VirtualRoots) (s path : String), addAll current [] given = .ok roots →
      current.resolve (.ofString s) = .ok (.ofString s) →
      roots.toVirtual? current (.ofString s) = .ok (some path) →
        roots.toDisk? path = some (.ofString s) := by
  intro hclaim
  obtain ⟨hroots, hfile, hpath⟩ := toVirtual?_hidden
  have hfound := hclaim _ _ _ _ _ hroots hfile hpath
  revert hfound
  decide

end HiddenFile

end ShaderGraph
