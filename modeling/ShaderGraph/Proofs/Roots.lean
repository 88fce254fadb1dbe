import Mathlib.Data.List.MinMax
import ShaderGraph.Proofs.Includes
import ShaderGraph.Proofs.OrderedMap

/-!
# The longest root

Roots are registered one after the other, and a later one takes the place of an earlier one with the
same spelling. The file of a virtual path lies in the directory of the longest root that the path
lies under, so the order in which roots are registered makes no difference, and one more root moves
no path but those that lie under it (`VirtualRoots.toDisk?_of_addAll`).
-/

namespace ShaderGraph

open Text

/-! ## Texts that start or end with a slash -/

theorem Text.beginsWith_iff {s p : String} : beginsWith s p = true ↔ p.toList <+: s.toList :=
  List.isPrefixOf_iff_prefix

theorem Text.finishesWith_iff {s p : String} : finishesWith s p = true ↔ p.toList <:+ s.toList :=
  List.isSuffixOf_iff_suffix

namespace PathText

theorem isPrefix_dropTrailingSlashes (s : String) :
    (dropTrailingSlashes s).toList <+: s.toList := by
  rw [dropTrailingSlashes, String.toList_ofList, ← List.reverse_suffix, List.reverse_reverse]
  exact List.dropWhile_suffix _

/-- What is left without the trailing slashes does not end with one. -/
theorem getLast?_dropTrailingSlashes (s : String) :
    (dropTrailingSlashes s).toList.getLast? ≠ some '/' := by
  rw [dropTrailingSlashes, String.toList_ofList, List.getLast?_reverse]
  intro h
  have hkept := List.head?_dropWhile_not (· = '/') s.toList.reverse
  rw [h] at hkept
  simp at hkept

theorem dropTrailingSlashes_eq_self {s : String} (h : s.toList.getLast? ≠ some '/') :
    dropTrailingSlashes s = s := by
  rw [← String.toList_inj, dropTrailingSlashes, String.toList_ofList]
  cases hs : s.toList.reverse with
  | nil => rw [← List.reverse_reverse s.toList, hs]; rfl
  | cons c cs =>
    have hc : c ≠ '/' := by
      rintro rfl
      rw [← List.head?_reverse, hs] at h
      exact h rfl
    rw [List.dropWhile_cons_of_neg (by simpa using hc), ← hs, List.reverse_reverse]

end PathText

namespace DiskPath

/-- The path that a path resolves to, seen from a directory. -/
def target (directory p : DiskPath) : DiskPath :=
  ⟨.root, ((directory.join p).names.foldl walk []).reverse⟩

theorem resolve_eq_ok_iff {directory p q : DiskPath} :
    directory.resolve p = .ok q ↔ (directory.join p).isUsable = true ∧ q = directory.target p := by
  unfold resolve
  split_ifs with h
  · simp only [h, true_and, Except.ok.injEq]
    exact eq_comm
  · simp [h]

end DiskPath

namespace VirtualRoots

variable {roots roots' : VirtualRoots} {current : DiskPath} {path root : String}

/-! ## Spellings of roots -/

/-- The spelling of a root: `/`, or a text that starts with a slash and does not end with one. -/
def IsRoot (root : String) : Prop :=
  root = "/" ∨ beginsWith root "/" = true ∧ root.toList.getLast? ≠ some '/'

theorem isRoot_normalRoot (root : String) : IsRoot (normalRoot root) := by
  unfold normalRoot
  simp only
  generalize hrooted : (if beginsWith root "/" = true then root else "/" ++ root) = rooted
  have hslash : ['/'] <+: rooted.toList := by
    rw [← hrooted]
    split_ifs with h
    · exact beginsWith_iff.1 h
    · exact ⟨root.toList, by simp⟩
  split_ifs with hempty
  · exact .inl rfl
  · refine .inr ⟨beginsWith_iff.2 ?_, PathText.getLast?_dropTrailingSlashes rooted⟩
    refine List.prefix_of_prefix_length_le hslash (PathText.isPrefix_dropTrailingSlashes rooted) ?_
    rw [String.isEmpty_iff, ← String.toList_inj] at hempty
    exact List.length_pos_iff.2 hempty

/-- Whether a virtual path lies under a root: it is the root, or the root and a slash with more behind
it. Every path that starts with a slash lies under the root `/`. -/
def IsUnder (path root : String) : Prop :=
  path = root ∨ beginsWith path (root ++ "/") = true ∨ root = "/" ∧ beginsWith path "/" = true

instance (path root : String) : Decidable (IsUnder path root) := by
  unfold IsUnder
  infer_instance

theorem IsUnder.isPrefix (h : IsUnder path root) : root.toList <+: path.toList := by
  rcases h with rfl | h | ⟨rfl, h⟩
  · exact List.prefix_refl _
  · rw [beginsWith_iff, String.toList_append] at h
    exact (List.prefix_append _ _).trans h
  · exact beginsWith_iff.1 h

theorem IsUnder.eq_of_length {other : String} (h : IsUnder path root) (h' : IsUnder path other)
    (hlength : root.length = other.length) : root = other := by
  rw [← String.length_toList, ← String.length_toList] at hlength
  rw [← String.toList_inj]
  exact (List.prefix_of_prefix_length_le h.isPrefix h'.isPrefix hlength.le).eq_of_length
    hlength

/-- What a path that lies under a root has behind it, without the slashes between them. -/
def remainder (root path : String) : String :=
  PathText.dropLeadingSlashes (String.ofList (path.toList.drop root.length))

theorem isUnder_iff (h : IsRoot root) (path : String) : IsUnder path root
    ↔ path = root ∨ beginsWith path (PathText.dropTrailingSlashes root ++ "/") = true := by
  unfold IsUnder
  rcases h with rfl | ⟨-, hlast⟩
  · have htwo : beginsWith path ("/" ++ "/") = true → beginsWith path "/" = true := by
      rw [beginsWith_iff, beginsWith_iff]
      exact (List.prefix_append ['/'] ['/']).trans
    have hdrop : PathText.dropTrailingSlashes "/" ++ "/" = "/" := by decide
    rw [hdrop]
    tauto
  · have hroot : root ≠ "/" := by
      rintro rfl
      exact hlast rfl
    rw [PathText.dropTrailingSlashes_eq_self hlast]
    tauto

theorem below?_of_isRoot (h : IsRoot root) (path : String) :
    below? root path = if IsUnder path root then some (remainder root path) else none := by
  rw [below?]
  simp only [isUnder_iff h]
  by_cases hself : path = root
  · have hrest : remainder root root = "" := by
      rw [remainder, ← String.length_toList, List.drop_length]
      decide
    simp [hself, hrest]
  · simp only [hself, if_false, false_or]
    rfl

/-! ## The root that decides -/

/-- Roots with spellings of their own. -/
structure Regular (roots : VirtualRoots) : Prop where
  nodup : (OrderedMap.keys roots).Nodup
  isRoot : ∀ root ∈ OrderedMap.keys roots, IsRoot root

/-- Whether a root is the longest one that a path lies under. -/
structure IsLongest (roots : VirtualRoots) (path root : String) : Prop where
  mem : root ∈ OrderedMap.keys roots
  under : IsUnder path root
  longest : ∀ other ∈ OrderedMap.keys roots, IsUnder path other → other.length ≤ root.length

theorem IsLongest.unique {other : String} (h : roots.IsLongest path root)
    (h' : roots.IsLongest path other) : root = other :=
  h.under.eq_of_length h'.under
    (le_antisymm (h'.longest root h.mem h.under) (h.longest other h'.mem h'.under))

theorem exists_isLongest (hmem : root ∈ OrderedMap.keys roots) (hunder : IsUnder path root) :
    ∃ other, roots.IsLongest path other := by
  have hne : (OrderedMap.keys roots).filter (fun r => IsUnder path r) ≠ [] :=
    List.ne_nil_of_mem (List.mem_filter.2 ⟨hmem, decide_eq_true hunder⟩)
  obtain ⟨best, hbest⟩ := Option.ne_none_iff_exists'.1
    (mt (List.argmax_eq_none (f := String.length)).1 hne)
  obtain ⟨hkey, hpath⟩ := List.mem_filter.1 (List.argmax_mem hbest)
  refine ⟨best, hkey, of_decide_eq_true hpath, fun other ho hu => ?_⟩
  exact List.le_of_mem_argmax (List.mem_filter.2 ⟨ho, decide_eq_true hu⟩) hbest

/-- A path lies under no root, or there is a longest one. -/
theorem exists_isLongest_or (roots : VirtualRoots) (path : String) :
    (∃ root directory, roots.IsLongest path root ∧ OrderedMap.get? roots root = some directory)
      ∨ ∀ root ∈ OrderedMap.keys roots, ¬IsUnder path root := by
  by_cases hnone : ∀ root ∈ OrderedMap.keys roots, ¬IsUnder path root
  · exact .inr hnone
  · push Not at hnone
    obtain ⟨root, hmem, hunder⟩ := hnone
    obtain ⟨best, hbest⟩ := exists_isLongest hmem hunder
    obtain ⟨directory, hdirectory⟩ := Option.isSome_iff_exists.1 (OrderedMap.isSome_get?.2 hbest.mem)
    exact .inl ⟨best, directory, hbest, hdirectory⟩

theorem foldl_longer (found : List (String × DiskPath × String)) :
    found.foldl longer none = found.argmax fun f => f.1.length := by
  unfold List.argmax
  congr 1
  funext best next
  cases best <;> rfl

theorem toDisk?_eq_none_iff (h : roots.Regular) :
    roots.toDisk? path = none ↔ ∀ root ∈ OrderedMap.keys roots, ¬IsUnder path root := by
  rw [← Option.not_isSome_iff_eq_none, isSome_toDisk?, List.any_eq_true]
  constructor
  · intro hnone root hmem hunder
    refine hnone ⟨root, hmem, ?_⟩
    rw [below?_of_isRoot (h.isRoot root hmem), if_pos hunder]
    rfl
  · rintro hnone ⟨root, hmem, hsome⟩
    rw [below?_of_isRoot (h.isRoot root hmem), if_neg (hnone root hmem)] at hsome
    cases hsome

/-- The file of a path is in the directory of the longest root that it lies under. -/
theorem IsLongest.toDisk? (h : roots.IsLongest path root) (hroots : roots.Regular)
    {directory : DiskPath} (hdirectory : OrderedMap.get? roots root = some directory) :
    roots.toDisk? path = some (directory.child (remainder root path)) := by
  obtain ⟨best, hbest⟩ : ∃ best, roots.toDisk? path = some best := by
    rw [← Option.ne_none_iff_exists', ne_eq, toDisk?_eq_none_iff hroots]
    exact fun hnone => hnone root h.mem h.under
  rw [hbest]
  unfold VirtualRoots.toDisk? at hbest
  simp only [foldl_longer] at hbest
  obtain ⟨b, hb, rfl⟩ := Option.map_eq_some_iff.1 hbest
  have hfound : ∀ r ∈ roots, IsUnder path r.1 → (r.1, r.2, remainder r.1 path)
      ∈ roots.filterMap fun r => (below? r.1 path).map fun rest => (r.1, r.2, rest) := by
    intro r hr hunder
    refine List.mem_filterMap.2 ⟨r, hr, ?_⟩
    rw [below?_of_isRoot (hroots.isRoot _ (List.mem_map_of_mem hr)), if_pos hunder]
    rfl
  obtain ⟨r, hr, hsome⟩ := List.mem_filterMap.1 (List.argmax_mem hb)
  have hkey := List.mem_map_of_mem (f := Prod.fst) hr
  rw [below?_of_isRoot (hroots.isRoot _ hkey)] at hsome
  split_ifs at hsome with hunder
  · obtain rfl : (r.1, r.2, remainder r.1 path) = b := by simpa using hsome
    have hlongest : roots.IsLongest path r.1 := by
      refine ⟨hkey, hunder, fun other hother hpath => ?_⟩
      obtain ⟨o, ho, rfl⟩ := List.mem_map.1 hother
      exact List.le_of_mem_argmax (f := fun f : String × DiskPath × String => f.1.length)
        (hfound o ho hpath) hb
    obtain rfl := h.unique hlongest
    rw [OrderedMap.get?_of_mem hroots.nodup hr] at hdirectory
    rw [Option.some.inj hdirectory]
  · cases hsome

/-- The roots that a path lies under decide on its file. -/
theorem toDisk?_congr (h : roots.Regular) (h' : roots'.Regular)
    (hsame : ∀ root, IsUnder path root → OrderedMap.get? roots root = OrderedMap.get? roots' root) :
    roots.toDisk? path = roots'.toDisk? path := by
  have hkeys : ∀ root, IsUnder path root →
      (root ∈ OrderedMap.keys roots ↔ root ∈ OrderedMap.keys roots') := by
    intro root hunder
    rw [← OrderedMap.isSome_get?, hsame root hunder, OrderedMap.isSome_get?]
  rcases exists_isLongest_or roots path with ⟨best, directory, hbest, hdirectory⟩ | hnone
  · have hbest' : roots'.IsLongest path best :=
      ⟨(hkeys best hbest.under).1 hbest.mem, hbest.under, fun other ho hu =>
        hbest.longest other ((hkeys other hu).2 ho) hu⟩
    rw [hbest.toDisk? h hdirectory, hbest'.toDisk? h' (hsame best hbest.under ▸ hdirectory)]
  · have hnone' : ∀ root ∈ OrderedMap.keys roots', ¬IsUnder path root := fun root hmem hunder =>
      hnone root ((hkeys root hunder).2 hmem) hunder
    rw [(toDisk?_eq_none_iff h).2 hnone, (toDisk?_eq_none_iff h').2 hnone']

/-! ## Roots that are registered -/

-- two spellings are compared as they are, not by what they come from
attribute [local irreducible] normalRoot

/-- Roots that are registered one after the other, each with its directory. -/
def addAll (current : DiskPath) (roots : VirtualRoots) (given : List (String × DiskPath)) :
    Except PathError VirtualRoots :=
  given.foldlM (fun rs g => rs.add current g.1 g.2) roots

/-- The spelling and the directory that are registered for a root. -/
def entry (current : DiskPath) (g : String × DiskPath) : String × DiskPath :=
  (normalRoot g.1, current.target g.2)

variable {given given' : List (String × DiskPath)}

theorem addAll_eq_ok_iff : addAll current roots given = .ok roots'
    ↔ (∀ g ∈ given, (current.join g.2).isUsable = true)
      ∧ roots' = (given.map (entry current)).foldl (fun m p => OrderedMap.insert m p.1 p.2) roots := by
  induction given generalizing roots with
  | nil =>
    refine ⟨fun h => ⟨fun g hg => absurd hg List.not_mem_nil, (Except.ok.inj h).symm⟩, ?_⟩
    rintro ⟨-, rfl⟩
    rfl
  | cons g given ih =>
    rw [List.forall_mem_cons, List.map_cons, List.foldl_cons, and_assoc, ← ih, addAll, List.foldlM_cons]
    cases hd : current.resolve g.2 with
    | error e =>
      have hunusable : ¬(current.join g.2).isUsable = true := fun h => by
        cases hd.symm.trans (DiskPath.resolve_eq_ok_iff.2 ⟨h, rfl⟩)
      simp [add, hd, hunusable, Except.map, bind, Except.bind]
    | ok d =>
      obtain ⟨husable, rfl⟩ := DiskPath.resolve_eq_ok_iff.1 hd
      simp [add, hd, husable, Except.map, bind, Except.bind, entry, addAll]

theorem addAll_nil_eq_ok_iff : addAll current [] given = .ok roots
    ↔ (∀ g ∈ given, (current.join g.2).isUsable = true)
      ∧ roots = OrderedMap.ofPairs (given.map (entry current)) := addAll_eq_ok_iff

theorem mem_keys_of_addAll (h : addAll current [] given = .ok roots) :
    root ∈ OrderedMap.keys roots ↔ ∃ g ∈ given, normalRoot g.1 = root := by
  obtain ⟨-, rfl⟩ := addAll_nil_eq_ok_iff.1 h
  simp only [OrderedMap.mem_keys_ofPairs, List.map_map, List.mem_map, Function.comp_apply, entry]

theorem Regular.insert (h : roots.Regular) (root : String) (directory : DiskPath) :
    Regular (OrderedMap.insert roots (normalRoot root) directory) := by
  refine ⟨OrderedMap.nodup_keys_insert h.nodup _ directory, fun r hr => ?_⟩
  rw [OrderedMap.keys_insert] at hr
  split_ifs at hr
  · exact h.isRoot r hr
  · rcases List.mem_append.1 hr with hr | hr
    · exact h.isRoot r hr
    · rw [List.mem_singleton.1 hr]
      exact isRoot_normalRoot root

theorem Regular.add (h : roots.Regular) {directory : DiskPath}
    (hadd : roots.add current root directory = .ok roots') : roots'.Regular := by
  obtain ⟨d, -, rfl⟩ := exists_of_map_eq_ok hadd
  exact h.insert root d

theorem regular_addAll : ∀ {given : List (String × DiskPath)} {roots : VirtualRoots}, roots.Regular →
    addAll current roots given = .ok roots' → roots'.Regular
  | [], roots, hroots, h => Except.ok.inj h ▸ hroots
  | g :: given, roots, hroots, h => by
    rw [addAll, List.foldlM_cons] at h
    cases hadd : roots.add current g.1 g.2 with
    | error e =>
      rw [hadd] at h
      cases h
    | ok next =>
      rw [hadd] at h
      exact regular_addAll (hroots.add hadd) h

theorem regular_of_addAll (h : addAll current [] given = .ok roots) : roots.Regular :=
  regular_addAll ⟨by simp [OrderedMap.keys], by simp [OrderedMap.keys]⟩ h

/-- Whether a root is registered in some place and no later one has its spelling. -/
def IsLast (given : List (String × DiskPath)) (g : String × DiskPath) : Prop :=
  ∃ before after, given = before ++ g :: after ∧ ∀ other ∈ after, normalRoot other.1 ≠ normalRoot g.1

theorem IsLast.mem {g : String × DiskPath} (h : IsLast given g) : g ∈ given := by
  obtain ⟨before, after, rfl, -⟩ := h
  exact List.mem_append_right _ List.mem_cons_self

theorem exists_isLast : ∀ {given : List (String × DiskPath)},
    (∃ g ∈ given, normalRoot g.1 = root) → ∃ g, IsLast given g ∧ normalRoot g.1 = root
  | [], h => by simp at h
  | g :: given, h => by
    by_cases hlater : ∃ g ∈ given, normalRoot g.1 = root
    · obtain ⟨g', ⟨before, after, rfl, hafter⟩, hroot⟩ := exists_isLast hlater
      exact ⟨g', ⟨g :: before, after, rfl, hafter⟩, hroot⟩
    · obtain ⟨g', hg', rfl⟩ := h
      rcases List.mem_cons.1 hg' with rfl | hg'
      · exact ⟨g', ⟨[], given, rfl, fun other ho he => hlater ⟨other, ho, he⟩⟩, rfl⟩
      · exact absurd ⟨g', hg', rfl⟩ hlater

theorem IsLast.get? (h : addAll current [] given = .ok roots) {g : String × DiskPath}
    (hg : IsLast given g) : OrderedMap.get? roots (normalRoot g.1) = some (current.target g.2) := by
  obtain ⟨before, after, rfl, hafter⟩ := hg
  obtain ⟨-, rfl⟩ := addAll_nil_eq_ok_iff.1 h
  rw [OrderedMap.ofPairs, List.map_append, List.foldl_append, List.map_cons, List.foldl_cons,
    OrderedMap.get?_foldl_insert_of_not_mem, entry, OrderedMap.get?_insert, if_pos rfl]
  simp only [List.map_map, List.mem_map, Function.comp_apply, entry, not_exists, not_and]
  exact hafter

/-- Whether a path gets its file from a registered root: it lies under the root, and under no longer
one, and the root is not registered again. -/
structure Decides (given : List (String × DiskPath)) (path : String) (g : String × DiskPath) : Prop where
  isLast : IsLast given g
  under : IsUnder path (normalRoot g.1)
  longest : ∀ other ∈ given, IsUnder path (normalRoot other.1) →
    (normalRoot other.1).length ≤ (normalRoot g.1).length

theorem Decides.isLongest (h : addAll current [] given = .ok roots) {g : String × DiskPath}
    (hg : Decides given path g) : roots.IsLongest path (normalRoot g.1) where
  mem := (mem_keys_of_addAll h).2 ⟨g, hg.isLast.mem, rfl⟩
  under := hg.under
  longest other hother hu := by
    obtain ⟨o, ho, rfl⟩ := (mem_keys_of_addAll h).1 hother
    exact hg.longest o ho hu

theorem exists_decides (h : addAll current [] given = .ok roots) (hroot : roots.IsLongest path root) :
    ∃ g, Decides given path g ∧ normalRoot g.1 = root := by
  obtain ⟨g, hg, rfl⟩ := exists_isLast ((mem_keys_of_addAll h).1 hroot.mem)
  exact ⟨g, ⟨hg, hroot.under, fun other ho hu =>
    hroot.longest _ ((mem_keys_of_addAll h).2 ⟨other, ho, rfl⟩) hu⟩, rfl⟩

theorem toDisk?_eq_some_iff_of_addAll (h : addAll current [] given = .ok roots) {file : DiskPath} :
    roots.toDisk? path = some file ↔ ∃ g directory, Decides given path g
      ∧ current.resolve g.2 = .ok directory
      ∧ file = directory.child (remainder (normalRoot g.1) path) := by
  have hregular := regular_of_addAll h
  have husable := (addAll_nil_eq_ok_iff.1 h).1
  have hfile : ∀ g, Decides given path g → roots.toDisk? path
      = some ((current.target g.2).child (remainder (normalRoot g.1) path)) := fun g hg =>
    (hg.isLongest h).toDisk? hregular (hg.isLast.get? h)
  constructor
  · intro hsome
    have hunder : ¬∀ root ∈ OrderedMap.keys roots, ¬IsUnder path root := by
      rw [← toDisk?_eq_none_iff hregular, hsome]
      simp
    obtain ⟨best, -, hbest, -⟩ := (exists_isLongest_or roots path).resolve_right hunder
    obtain ⟨g, hg, rfl⟩ := exists_decides h hbest
    have hdirectory := DiskPath.resolve_eq_ok_iff.2 ⟨husable g hg.isLast.mem, rfl⟩
    rw [hfile g hg] at hsome
    exact ⟨g, _, hg, hdirectory, (Option.some.inj hsome).symm⟩
  · rintro ⟨g, directory, hg, hdirectory, hchild⟩
    rw [hfile g hg, hchild, (DiskPath.resolve_eq_ok_iff.1 hdirectory).2]

/-- Roots of different spellings may be registered in any order. -/
theorem exists_addAll_of_perm (h : addAll current [] given = .ok roots) (hperm : given.Perm given')
    (hnodup : (given.map fun g => normalRoot g.1).Nodup) :
    ∃ roots', addAll current [] given' = .ok roots' ∧ roots.Perm roots' := by
  obtain ⟨husable, rfl⟩ := addAll_nil_eq_ok_iff.1 h
  have hkeys : ∀ {gs : List (String × DiskPath)}, (gs.map fun g => normalRoot g.1).Nodup →
      OrderedMap.ofPairs (gs.map (entry current)) = gs.map (entry current) := by
    intro gs hgs
    refine OrderedMap.ofPairs_eq_self ?_
    rwa [OrderedMap.keys, List.map_map]
  refine ⟨_, addAll_nil_eq_ok_iff.2 ⟨fun g hg => husable g (hperm.mem_iff.2 hg), rfl⟩, ?_⟩
  rw [hkeys hnodup, hkeys ((hperm.map _).nodup_iff.1 hnodup)]
  exact hperm.map _

theorem toDisk?_of_perm (h : roots.Regular) (h' : roots'.Regular) (hperm : roots.Perm roots') :
    roots.toDisk? path = roots'.toDisk? path := by
  refine toDisk?_congr h h' fun root _ => Option.ext fun directory => ?_
  rw [OrderedMap.get?_eq_some_iff h.nodup, OrderedMap.get?_eq_some_iff h'.nodup, hperm.mem_iff]

theorem toDisk?_of_add (h : roots.Regular) {directory : DiskPath}
    (hadd : roots.add current root directory = .ok roots') (hpath : ¬IsUnder path (normalRoot root)) :
    roots'.toDisk? path = roots.toDisk? path := by
  refine toDisk?_congr (h.add hadd) h fun other hother => ?_
  obtain ⟨d, -, rfl⟩ := exists_of_map_eq_ok hadd
  rw [OrderedMap.get?_insert, if_neg]
  rintro rfl
  exact hpath hother

/-- A virtual path has a file if it lies under a registered root, namely in the directory of the
longest one; roots of different spellings may be registered in any order, and one more root changes
nothing but what lies under it. -/
theorem toDisk?_of_addAll (h : addAll current [] given = .ok roots) :
    (∀ path, (roots.toDisk? path = none ↔ ∀ g ∈ given, ¬IsUnder path (normalRoot g.1))
      ∧ ∀ file, roots.toDisk? path = some file ↔ ∃ g directory, Decides given path g
        ∧ current.resolve g.2 = .ok directory
        ∧ file = directory.child (remainder (normalRoot g.1) path))
    ∧ (∀ given' : List (String × DiskPath), given.Perm given' →
      (given.map fun g => normalRoot g.1).Nodup →
      ∃ roots', addAll current [] given' = .ok roots'
        ∧ ∀ path, roots'.toDisk? path = roots.toDisk? path)
    ∧ ∀ root directory roots', roots.add current root directory = .ok roots' →
      ∀ path, ¬IsUnder path (normalRoot root) → roots'.toDisk? path = roots.toDisk? path := by
  have hregular := regular_of_addAll h
  refine ⟨fun path => ⟨?_, fun file => toDisk?_eq_some_iff_of_addAll h⟩, ?_, ?_⟩
  · rw [toDisk?_eq_none_iff hregular]
    simp only [mem_keys_of_addAll h, forall_exists_index, and_imp, forall_apply_eq_imp_iff₂]
  · intro given' hperm hnodup
    obtain ⟨roots', h', hroots⟩ := exists_addAll_of_perm h hperm hnodup
    exact ⟨roots', h', fun path => (toDisk?_of_perm hregular (regular_of_addAll h') hroots).symm⟩
  · exact fun root directory roots' hadd path hpath => toDisk?_of_add hregular hadd hpath

end VirtualRoots

namespace NestedRoots

open VirtualRoots

/-! ### A root inside of another one -/

def outer : String × DiskPath := ("Project/", .ofString "/a")

def inner : String × DiskPath := ("/Project/Sub", .ofString "/b")

def roots : VirtualRoots := [("/Project", ⟨.root, ["a"]⟩), ("/Project/Sub", ⟨.root, ["b"]⟩)]

theorem decides_inner : Decides [outer, inner] "/Project/Sub/x.ush" inner where
  isLast := ⟨[outer], [], rfl, fun _ h => absurd h List.not_mem_nil⟩
  under := by decide
  longest := by decide

theorem toDisk?_of_nested : addAll .fileSystem [] [outer, inner] = .ok roots
    ∧ roots.toDisk? "/Project/Sub/x.ush" = some ⟨.root, ["b", "x.ush"]⟩
    ∧ roots.toDisk? "/ProjectX/x.ush" = none
    ∧ ∃ roots', addAll .fileSystem [] [inner, outer] = .ok roots'
      ∧ roots'.toDisk? "/Project/Sub/x.ush" = some ⟨.root, ["b", "x.ush"]⟩ := by
  have hroots : addAll .fileSystem [] [outer, inner] = .ok roots := by decide
  obtain ⟨hpaths, hperm, -⟩ := toDisk?_of_addAll hroots
  have hinner : roots.toDisk? "/Project/Sub/x.ush" = some ⟨.root, ["b", "x.ush"]⟩ :=
    ((hpaths _).2 _).2 ⟨inner, ⟨.root, ["b"]⟩, decides_inner, by decide, by decide⟩
  obtain ⟨roots', hroots', hsame⟩ := hperm [inner, outer] (List.Perm.swap _ _ _) (by decide)
  exact ⟨hroots, hinner, (hpaths _).1.2 (by decide), roots', hroots', (hsame _).trans hinner⟩

end NestedRoots

end ShaderGraph
