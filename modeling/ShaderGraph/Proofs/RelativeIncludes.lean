import ShaderGraph.Include.Directive
import ShaderGraph.Proofs.VirtualPaths

/-!
# Relative includes

A relative include is brought to its normal form in the virtual folder of its source, but a virtual
path with a slash at its start is taken as it is written. So the two spellings of one file, `q` and `q`
behind the folder, may lead to two files: a `..` stays in the second one, and what stands for nothing
in it, a point or a slash too many, keeps it from the root that it lies under. They lead to the same
file if and only if neither makes a difference (`VirtualRoots.diskPath_eq_iff`).
-/

namespace ShaderGraph

open Text DiskPath

/-! ## Settled names -/

/-- Names of which none leads to the directory above. -/
def Settled (names : List String) : Prop := ∀ n ∈ names, IsName n ∧ n ≠ ".."

instance (names : List String) : Decidable (Settled names) := by
  unfold Settled
  infer_instance

namespace Settled

variable {names others : List String}

theorem isName (h : Settled names) : ∀ n ∈ names, IsName n := fun n hn => (h n hn).1

theorem not_mem (h : Settled names) : ".." ∉ names := fun hn => (h _ hn).2 rfl

theorem of_subset (h : Settled names) (hsub : others ⊆ names) : Settled others := fun n hn => h n (hsub hn)

theorem append (h : Settled names) (h' : Settled others) : Settled (names ++ others) := fun n hn =>
  (List.mem_append.1 hn).elim (h n) (h' n)

end Settled

/-- Names that are kept one after the other are among those given, and not `..`. -/
theorem mem_foldl_of_step {step : List String → String → List String} {n : String}
    (hstep : ∀ latest name, n ∈ step latest name → n = name ∧ n ≠ ".." ∨ n ∈ latest) :
    ∀ {names latest : List String},
      n ∈ names.foldl step latest → n ∈ names ∧ n ≠ ".." ∨ n ∈ latest
  | [], _, h => .inr h
  | name :: names, latest, h => by
    have htail : n ∈ names.foldl step (step latest name) := h
    rcases mem_foldl_of_step hstep htail with ⟨hn, hup⟩ | hn
    · exact .inl ⟨List.mem_cons_of_mem _ hn, hup⟩
    · rcases hstep _ _ hn with ⟨rfl, hup⟩ | hn
      · exact .inl ⟨List.mem_cons_self, hup⟩
      · exact .inr hn

namespace DiskPath

theorem mem_walk {latest : List String} {n name : String} (h : n ∈ walk latest name) :
    n = name ∧ n ≠ ".." ∨ n ∈ latest := by
  unfold walk at h
  split_ifs at h with hup
  · exact .inr (List.mem_of_mem_drop h)
  · rcases List.mem_cons.1 h with rfl | h
    · exact .inl ⟨rfl, hup⟩
    · exact .inr h

theorem settled_target {directory p : DiskPath} (h : directory.IsProper) (hp : p.IsProper) :
    Settled (directory.target p).names := by
  intro n hn
  rcases mem_foldl_of_step (fun _ _ => mem_walk) (List.mem_reverse.1 hn) with ⟨hn, hup⟩ | hn
  · refine ⟨?_, hup⟩
    unfold join at hn
    split_ifs at hn
    · exact hp n hn
    · exact (List.mem_append.1 hn).elim (h n) (hp n)
  · cases hn

end DiskPath

namespace PathText

variable {names latest start : List String} {n name : String} {rooted : Bool}

theorem mem_walk (h : n ∈ PathText.walk true latest name) : n = name ∧ n ≠ ".." ∨ n ∈ latest := by
  rw [PathText.walk.eq_def] at h
  by_cases hup : name = ".."
  · rw [if_pos hup] at h
    cases latest with
    | nil => cases h
    | cons m latest =>
      right
      dsimp only at h
      split_ifs at h with hm
      · exact (List.mem_cons.1 h).elim (fun he => he.trans hm.symm ▸ List.mem_cons_self) id
      · exact List.mem_cons_of_mem _ h
  · rw [if_neg hup] at h
    rcases List.mem_cons.1 h with rfl | h
    · exact .inl ⟨rfl, hup⟩
    · exact .inr h

theorem foldl_walk_of_not_mem : ∀ {names latest : List String}, ".." ∉ names →
    names.foldl (PathText.walk rooted) latest = names.reverse ++ latest
  | [], _, _ => rfl
  | name :: names, latest, h => by
    rw [List.mem_cons, not_or] at h
    rw [List.foldl_cons, foldl_walk_of_not_mem h.2, PathText.walk.eq_def, if_neg (Ne.symm h.1),
      List.reverse_cons, List.append_assoc]
    rfl

/-- The names that are left when some more are walked along from the root. -/
def walked (start names : List String) : List String :=
  (names.foldl (PathText.walk true) start.reverse).reverse

theorem settled_walked (h : Settled start) (hnames : ∀ n ∈ names, IsName n) :
    Settled (walked start names) := by
  intro n hn
  rcases mem_foldl_of_step (fun _ _ => mem_walk) (List.mem_reverse.1 hn) with ⟨hn, hup⟩ | hn
  · exact ⟨hnames n hn, hup⟩
  · exact h n (List.mem_reverse.1 hn)

theorem walked_of_not_mem (h : ".." ∉ names) : walked start names = start ++ names := by
  rw [walked, foldl_walk_of_not_mem h, List.reverse_append, List.reverse_reverse, List.reverse_reverse]

end PathText

namespace VirtualRoots

variable {roots : VirtualRoots} {current file directory : DiskPath} {path root q : String}
  {names others : List String}

/-! ## Paths from the root -/

/-- The path of some names from the root. -/
def fromRoot (names : List String) : String := "/" ++ "/".intercalate names

theorem toList_fromRoot (names : List String) :
    (fromRoot names).toList = '/' :: ("/".intercalate names).toList := by
  rw [fromRoot, String.toList_append]
  rfl

theorem namesOf_fromRoot (h : ∀ n ∈ names, IsName n) : namesOf (fromRoot names).toList = names := by
  rw [toList_fromRoot, namesOf_cons_slash, namesOf_joined h]

theorem fromRoot_inj (h : ∀ n ∈ names, IsName n) (h' : ∀ n ∈ others, IsName n) :
    fromRoot names = fromRoot others ↔ names = others := by
  refine ⟨fun he => ?_, congrArg fromRoot⟩
  rw [← namesOf_fromRoot h, he, namesOf_fromRoot h']

theorem toText_eq_fromRoot (names : List String) : (⟨.root, names⟩ : DiskPath).toText = fromRoot names :=
  if_neg (by simp)

theorem isRoot_fromRoot (h : ∀ n ∈ names, IsName n) : IsRoot (fromRoot names) := by
  by_cases hnames : names = []
  · rw [hnames]
    exact .inl (by decide)
  · refine .inr ⟨beginsWith_iff.2 ⟨("/".intercalate names).toList, (toList_fromRoot names).symm⟩, ?_⟩
    intro hlast
    obtain ⟨before, hbefore⟩ := List.getLast?_eq_some_iff.1 hlast
    have hpieces : pieces '/' (fromRoot names).toList = [] :: names.map String.toList := by
      rw [toList_fromRoot, ← pieces_joined hnames h]
      exact pieces_append_cons '/' _ []
    -- a slash at the end would leave an empty name
    rw [hbefore, pieces_append_cons] at hpieces
    obtain ⟨p, ps, hp⟩ := List.exists_cons_of_ne_nil (pieces_ne_nil '/' before)
    rw [hp] at hpieces
    have hempty : [] ∈ names.map String.toList := by
      rw [← (List.cons.inj hpieces).2]
      simp [pieces]
    obtain ⟨n, hn, he⟩ := List.mem_map.1 hempty
    exact (h n hn).1 he

theorem spelled_fromRoot (h : ∀ n ∈ names, IsName n) (h' : ∀ n ∈ others, IsName n) :
    spelled (fromRoot names) others = fromRoot (names ++ others) := by
  by_cases hothers : others = []
  · rw [hothers, spelled, if_pos rfl, List.append_nil]
  · rw [← String.toList_inj, toList_spelled (isRoot_fromRoot h) hothers h', toList_fromRoot]
    rcases stem_cases (isRoot_fromRoot h) with ⟨hroot, hstem⟩ | ⟨hstem, hlast⟩
    · have hnames : names = [] := by
        rw [← namesOf_fromRoot h, hroot]
        decide
      rw [hstem, hnames]
      rfl
    · have hnames : names ≠ [] := by
        rintro rfl
        exact hlast (by decide)
      rw [hstem, toList_fromRoot, String.intercalate_append_of_ne_nil hnames hothers, String.toList_append,
        String.toList_append, List.append_assoc]
      rfl

theorem folder_spelled (h : IsRoot root) {n : String} (hn : IsName n) :
    PathText.folder (spelled root [n]) = root := by
  have hspelled : (spelled root [n]).toList = stem root ++ '/' :: n.toList := by
    rw [toList_spelled h (by simp) (by simpa using hn), String.intercalate_singleton]
  have hhead : (spelled root [n]).toList.reverse.dropWhile (· != '/') = '/' :: (stem root).reverse := by
    rw [hspelled, List.reverse_append, List.reverse_cons, List.append_assoc,
      List.dropWhile_append_of_pos]
    · rfl
    · intro c hc
      rw [bne_iff_ne]
      rintro rfl
      exact hn.2.2 (List.mem_reverse.1 hc)
  simp only [PathText.folder, hhead, List.reverse_cons, List.reverse_reverse, String.toList_ofList]
  rcases stem_cases h with ⟨rfl, hstem⟩ | ⟨hstem, hlast⟩
  · rw [hstem, if_pos (by simp)]
    rfl
  · have hall : ¬(stem root ++ ['/']).all (· = '/') = true := by
      intro hall
      rw [hstem, List.all_append, Bool.and_eq_true, List.all_eq_true] at hall
      obtain ⟨c, hc⟩ : ∃ c, root.toList.getLast? = some c := by
        rw [← Option.ne_none_iff_exists', ne_eq, List.getLast?_eq_none_iff]
        exact fun hempty => h.ne_empty (by simpa using hempty)
      refine hlast (hc.trans ?_)
      rw [of_decide_eq_true (hall.1 c (List.mem_of_getLast? hc))]
    rw [if_neg hall, hstem, PathText.dropTrailingSlashes, String.toList_ofList, List.reverse_append]
    exact PathText.dropTrailingSlashes_eq_self hlast

theorem folder_fromRoot (h : ∀ n ∈ names, IsName n) :
    PathText.folder (fromRoot names) = fromRoot names.dropLast := by
  rcases List.eq_nil_or_concat names with rfl | ⟨above, n, rfl⟩
  · decide
  · have habove : ∀ m ∈ above, IsName m := fun m hm => h m (by simp [hm])
    have hn : IsName n := h n (by simp)
    rw [List.concat_eq_append, List.dropLast_concat, ← spelled_fromRoot habove (by simpa using hn),
      folder_spelled (isRoot_fromRoot habove) hn]

theorem ofChars_of_head? {cs : List Char} (h : cs.head? ≠ some '/') : Anchor.ofChars ('/' :: cs) = .root := by
  unfold Anchor.ofChars
  split <;> simp_all

theorem namesOf_stem (h : IsRoot root) : namesOf (stem root) = namesOf root.toList := by
  rcases stem_cases h with ⟨rfl, hstem⟩ | ⟨hstem, -⟩
  · rw [hstem]
    decide
  · rw [hstem]

/-- What a relative path means in a folder: its names are walked along from there. -/
theorem normal_join_fromRoot (h : ∀ n ∈ names, IsName n) (hup : ".." ∉ names)
    (hq : q.toList.head? ≠ some '/') : PathText.normal (PathText.join (fromRoot names) q)
      = fromRoot (PathText.walked names (namesOf q.toList)) := by
  have hroot := isRoot_fromRoot h
  have hpath := toList_join hroot hq
  have hnames : namesOf (PathText.join (fromRoot names) q).toList = names ++ namesOf q.toList := by
    rw [hpath, namesOf_append_cons, namesOf_stem hroot, namesOf_fromRoot h]
  have hanchor : Anchor.ofChars (PathText.join (fromRoot names) q).toList = .root := by
    rw [hpath]
    rcases stem_cases hroot with ⟨-, hstem⟩ | ⟨hstem, hlast⟩
    · rw [hstem]
      exact ofChars_of_head? hq
    · have hjoined : ("/".intercalate names).toList ≠ [] := by
        intro hempty
        rw [toList_fromRoot, hempty] at hlast
        exact hlast rfl
      rw [hstem, toList_fromRoot, List.cons_append]
      refine ofChars_of_head? ?_
      rw [List.head?_append_of_ne_nil _ hjoined]
      exact head?_joined h
  have hwalk : (names ++ namesOf q.toList).foldl (PathText.walk true) []
      = (namesOf q.toList).foldl (PathText.walk true) names.reverse := by
    rw [List.foldl_append, PathText.foldl_walk_of_not_mem hup, List.append_nil]
  simp only [PathText.normal, hnames, hanchor]
  rw [if_neg (by simp)]
  exact congrArg (fun latest => fromRoot (List.reverse latest)) hwalk

/-- A path that lies under a root has the names of the root first. -/
theorem IsUnder.namesOf_eq (h : IsUnder path root) :
    namesOf path.toList = namesOf root.toList ++ namesOf (remainder root path).toList := by
  by_cases hslash : root = "/"
  · obtain ⟨tail, htail⟩ := h.isPrefix
    rw [namesOf_remainder htail.symm, ← htail, hslash]
    exact namesOf_cons_slash tail
  · obtain ⟨tail, htail, hstart⟩ := h.exists_tail hslash
    rw [namesOf_remainder htail, htail]
    rcases hstart with rfl | ⟨rest, rfl⟩
    · rw [List.append_nil]
      exact (List.append_nil _).symm
    · rw [namesOf_append_cons, namesOf_cons_slash]

/-! ## Plain roots -/

/-- Whether a virtual path is in its normal form: it is spelled by its names, of which none is `..`. -/
def IsNormal (path : String) : Prop := path = fromRoot (namesOf path.toList) ∧ ".." ∉ namesOf path.toList

instance (path : String) : Decidable (IsNormal path) := by
  unfold IsNormal
  infer_instance

/-- Roots in normal form, with directories that are resolved. -/
structure Plain (roots : VirtualRoots) : Prop extends Regular roots where
  normal : ∀ root ∈ OrderedMap.keys roots, IsNormal root
  directory : ∀ root directory, OrderedMap.get? roots root = some directory →
    directory.anchor = .root ∧ Settled directory.names

theorem IsNormal.settled (h : IsNormal path) : Settled (namesOf path.toList) := fun _ hn =>
  ⟨isName_of_mem_namesOf hn, fun hup => h.2 (hup ▸ hn)⟩

theorem plain_of_addAll {given : List (String × DiskPath)} (h : addAll current [] given = .ok roots)
    (hcurrent : current.IsProper) (hgiven : ∀ g ∈ given, IsNormal (normalRoot g.1) ∧ g.2.IsProper) :
    roots.Plain where
  toRegular := regular_of_addAll h
  normal root hroot := by
    obtain ⟨g, hg, rfl⟩ := (mem_keys_of_addAll h).1 hroot
    exact (hgiven g hg).1
  directory root directory hdirectory := by
    have hkey := OrderedMap.isSome_get?.1 (Option.isSome_iff_exists.2 ⟨_, hdirectory⟩)
    obtain ⟨g, hg, rfl⟩ := exists_isLast ((mem_keys_of_addAll h).1 hkey)
    obtain rfl := Option.some.inj ((hg.get? h).symm.trans hdirectory)
    exact ⟨rfl, settled_target hcurrent (hgiven g hg.mem).2⟩

theorem IsNormal.isUnder (h : IsNormal root) (hnames : ∀ n ∈ names, IsName n) :
    IsUnder (fromRoot (namesOf root.toList ++ names)) root := by
  have hspelled := isUnder_spelled (isRoot_fromRoot h.settled.isName) hnames
  rwa [spelled_fromRoot h.settled.isName hnames, ← h.1] at hspelled

/-- Of two normal roots that a path lies under, the longer one has the names of the other first. -/
theorem IsNormal.isPrefix_namesOf {other : String} (h : IsNormal root) (h' : IsNormal other)
    (hunder : IsUnder path root) (hunder' : IsUnder path other) (hlength : root.length ≤ other.length) :
    namesOf root.toList <+: namesOf other.toList := by
  have hpre : namesOf root.toList <+: namesOf path.toList := ⟨_, hunder.namesOf_eq.symm⟩
  have hpre' : namesOf other.toList <+: namesOf path.toList := ⟨_, hunder'.namesOf_eq.symm⟩
  rcases List.prefix_or_prefix_of_prefix hpre hpre' with hle | ⟨more, hmore⟩
  · exact hle
  · have hroot : IsUnder root other := by
      have hmore' : ∀ n ∈ more, IsName n := fun n hn =>
        h.settled.isName n (hmore ▸ List.mem_append_right _ hn)
      have hunder := h'.isUnder hmore'
      rwa [hmore, ← h.1] at hunder
    have hback : other.length ≤ root.length := by
      rw [← String.length_toList, ← String.length_toList]
      exact hroot.isPrefix.length_le
    have hsame := hunder.eq_of_length hunder' (le_antisymm hlength hback)
    exact hsame ▸ List.prefix_refl _

/-! ## Two spellings of a path -/

/-- The file of a path, as text: what the path has behind the longest root is below its directory. -/
theorem IsLongest.map_toText (h : roots.IsLongest path root) (hroots : roots.Plain)
    (hdirectory : OrderedMap.get? roots root = some directory) :
    (roots.toDisk? path).map DiskPath.toText
      = some (fromRoot (directory.names ++ namesOf (remainder root path).toList)) := by
  rw [h.toDisk? hroots.toRegular hdirectory, child_eq (head?_remainder _ _), Option.map_some,
    (hroots.directory root directory hdirectory).1, toText_eq_fromRoot]

/-- Whether a root has the directory that another root, whose names it starts with, has for it. -/
def Continues (roots : VirtualRoots) (outer inner : String) : Prop :=
  ∃ directory names, OrderedMap.get? roots outer = some directory
    ∧ namesOf inner.toList = namesOf outer.toList ++ names
    ∧ OrderedMap.get? roots inner = some ⟨directory.anchor, directory.names ++ names⟩

/-- A path in normal form and another spelling of it, which has some names behind those of a folder. -/
structure Spellings (relative absolute : String) (start names : List String) : Prop where
  settled_start : Settled start
  isName : ∀ n ∈ names, IsName n
  relative_eq : relative = fromRoot (PathText.walked start names)
  names_absolute : namesOf absolute.toList = start ++ names

section Spellings

variable {relative absolute outer inner : String} {start : List String} {d e : DiskPath}

theorem Spellings.settled (h : Spellings relative absolute start names) :
    Settled (PathText.walked start names) := PathText.settled_walked h.settled_start h.isName

theorem Spellings.names_relative (h : Spellings relative absolute start names) :
    namesOf relative.toList = PathText.walked start names := by
  rw [h.relative_eq, namesOf_fromRoot h.settled.isName]

/-- If no name leads upwards, the longest root of the normal form goes on from that of the other
spelling. -/
theorem Spellings.exists_more (h : Spellings relative absolute start names) (hroots : roots.Plain)
    (houter : roots.IsLongest absolute outer) (hinner : roots.IsLongest relative inner)
    (hup : ".." ∉ names) : ∃ more, namesOf inner.toList = namesOf outer.toList ++ more
      ∧ namesOf (remainder outer absolute).toList = more ++ namesOf (remainder inner relative).toList := by
  have hsame : namesOf outer.toList ++ namesOf (remainder outer absolute).toList = start ++ names :=
    houter.under.namesOf_eq.symm.trans h.names_absolute
  have hunder : IsUnder relative outer := by
    rw [h.relative_eq, PathText.walked_of_not_mem hup, ← hsame]
    exact (hroots.normal outer houter.mem).isUnder fun _ => isName_of_mem_namesOf
  obtain ⟨more, hmore⟩ := (hroots.normal outer houter.mem).isPrefix_namesOf (hroots.normal inner hinner.mem)
    hunder hinner.under (hinner.longest outer houter.mem hunder)
  refine ⟨more, hmore.symm, (List.append_right_inj (namesOf outer.toList)).1 ?_⟩
  rw [hsame, ← List.append_assoc, hmore, ← hinner.under.namesOf_eq, h.names_relative,
    PathText.walked_of_not_mem hup]

theorem Spellings.names_eq_iff (h : Spellings relative absolute start names) (hroots : roots.Plain)
    (houter : roots.IsLongest absolute outer) (hinner : roots.IsLongest relative inner)
    (hd : OrderedMap.get? roots outer = some d) (he : OrderedMap.get? roots inner = some e) :
    e.names ++ namesOf (remainder inner relative).toList
        = d.names ++ namesOf (remainder outer absolute).toList
      ↔ ".." ∉ names ∧ roots.Continues outer inner := by
  obtain ⟨hdroot, hdnames⟩ := hroots.directory outer d hd
  obtain ⟨heroot, henames⟩ := hroots.directory inner e he
  constructor
  · intro heq
    have hup : ".." ∉ names := by
      intro hup
      -- what leads upwards in the one file would stand in the other, which is resolved
      have hmem : ".." ∈ namesOf (remainder outer absolute).toList := by
        refine (List.mem_append.1 ?_).resolve_left (hroots.normal outer houter.mem).2
        rw [← houter.under.namesOf_eq, h.names_absolute]
        exact List.mem_append_right _ hup
      rcases List.mem_append.1 (heq ▸ List.mem_append_right d.names hmem) with hmem | hmem
      · exact henames.not_mem hmem
      · refine h.settled.not_mem ?_
        rw [← h.names_relative, hinner.under.namesOf_eq]
        exact List.mem_append_right _ hmem
    obtain ⟨more, hmore, hrest⟩ := h.exists_more hroots houter hinner hup
    refine ⟨hup, d, more, hd, hmore, ?_⟩
    rw [hrest, ← List.append_assoc] at heq
    rw [he, ← List.append_cancel_right heq, hdroot, ← heroot]
  · rintro ⟨hup, d', names', hd', hnames', he'⟩
    obtain rfl := Option.some.inj (hd.symm.trans hd')
    obtain rfl := Option.some.inj (he.symm.trans he')
    obtain ⟨more, hmore, hrest⟩ := h.exists_more hroots houter hinner hup
    obtain rfl := List.append_cancel_left (hnames'.symm.trans hmore)
    rw [hrest, List.append_assoc]

/-- Two spellings have one file, unless something leads upwards or a root moves away what is below
another one. -/
theorem Spellings.map_toText_eq_iff (h : Spellings relative absolute start names) (hroots : roots.Plain) :
    (roots.toDisk? relative).map DiskPath.toText = (roots.toDisk? absolute).map DiskPath.toText
      ↔ roots.toDisk? relative = none ∧ roots.toDisk? absolute = none
        ∨ ".." ∉ names ∧ ∃ outer inner, roots.IsLongest absolute outer ∧ roots.IsLongest relative inner
          ∧ roots.Continues outer inner := by
  have hsome : ∀ {path root}, roots.IsLongest path root → roots.toDisk? path ≠ none := by
    intro path root hroot hnone
    exact (toDisk?_eq_none_iff hroots.toRegular).1 hnone root hroot.mem hroot.under
  rcases exists_isLongest_or roots relative with ⟨inner, e, hinner, he⟩ | hnone
  · rcases exists_isLongest_or roots absolute with ⟨outer, d, houter, hd⟩ | hnone'
    · have hnames : ∀ {root path : String} {directory : DiskPath},
          OrderedMap.get? roots root = some directory →
          ∀ n ∈ directory.names ++ namesOf (remainder root path).toList, IsName n := by
        intro root path directory hdirectory n hn
        exact (List.mem_append.1 hn).elim ((hroots.directory root directory hdirectory).2.isName n)
          isName_of_mem_namesOf
      rw [hinner.map_toText hroots he, houter.map_toText hroots hd, Option.some.injEq,
        fromRoot_inj (hnames he) (hnames hd), h.names_eq_iff hroots houter hinner hd he]
      constructor
      · exact fun ⟨hup, hcontinues⟩ => .inr ⟨hup, outer, inner, houter, hinner, hcontinues⟩
      · rintro (⟨hnone, -⟩ | ⟨hup, outer', inner', houter', hinner', hcontinues⟩)
        · exact absurd hnone (hsome hinner)
        · obtain rfl := houter.unique houter'
          obtain rfl := hinner.unique hinner'
          exact ⟨hup, hcontinues⟩
    · rw [← toDisk?_eq_none_iff hroots.toRegular] at hnone'
      rw [hnone', Option.map_none, Option.map_eq_none_iff]
      refine ⟨fun hnone => absurd hnone (hsome hinner), ?_⟩
      rintro (⟨hnone, -⟩ | ⟨-, outer, -, houter, -⟩)
      · exact hnone
      · exact absurd hnone' (hsome houter)
  · rw [← toDisk?_eq_none_iff hroots.toRegular] at hnone
    rw [hnone, Option.map_none, eq_comm, Option.map_eq_none_iff]
    refine ⟨fun hnone' => .inl ⟨rfl, hnone'⟩, ?_⟩
    rintro (⟨-, hnone'⟩ | ⟨-, -, inner, -, hinner, -⟩)
    · exact hnone'
    · exact absurd hnone (hsome hinner)

end Spellings

/-- The virtual folder of a source is in its normal form. -/
theorem exists_eq_fromRoot_of_folderOf {folder : String} (h : roots.Plain) (hcurrent : current.IsProper)
    (hfile : file.IsProper) (hfolder : Include.folderOf roots current file = .ok folder)
    (hne : folder ≠ "") : ∃ names, Settled names ∧ folder = fromRoot names := by
  obtain ⟨path?, hpath, rfl⟩ := exists_of_map_eq_ok hfolder
  obtain ⟨target, htarget, rfl⟩ := exists_of_map_eq_ok hpath
  obtain ⟨-, rfl⟩ := DiskPath.resolve_eq_ok_iff.1 htarget
  cases hv : roots.virtualOf? (current.target file) with
  | none =>
    rw [hv] at hne
    exact absurd rfl hne
  | some path =>
    obtain ⟨root, directory, names, htaken, rfl⟩ := exists_taken hv
    have hroot := h.normal root (List.mem_map_of_mem htaken.mem)
    have hnames : Settled names := by
      have hsettled := settled_target hcurrent hfile
      rw [htaken.file_eq] at hsettled
      exact hsettled.of_subset (List.subset_append_right _ _)
    have hall := hroot.settled.append hnames
    refine ⟨_, hall.of_subset (List.dropLast_subset _), ?_⟩
    rw [Option.map_some, Option.getD_some, hroot.1, spelled_fromRoot hroot.settled.isName hnames.isName,
      namesOf_fromRoot hroot.settled.isName, folder_fromRoot hall.isName]

end VirtualRoots

namespace Directive

/-- The directive that includes a path. -/
def includeLine (path : String) : String := "#include \"" ++ path ++ "\""

theorem toList_includeLine (path : String) :
    (includeLine path).toList = "#include".toList ++ ' ' :: '"' :: (path.toList ++ ['"']) := by
  rw [includeLine, String.toList_append, String.toList_append]
  rfl

theorem include?_includeLine {path : String} (hne : path ≠ "") (hquote : '"' ∉ path.toList) :
    include? (includeLine path).toList = some (path.toList, []) := by
  have hword : afterWord? "#include".toList (includeLine path).toList
      = some (' ' :: '"' :: (path.toList ++ ['"'])) := by
    rw [afterWord?, dropLiteral?_eq_some_iff, toList_includeLine]
    rfl
  have hall : ∀ c ∈ path.toList, (c != '"') = true := by
    intro c hc
    rw [bne_iff_ne]
    rintro rfl
    exact hquote hc
  have htake : (path.toList ++ ['"']).takeWhile (· != '"') = path.toList := by
    rw [List.takeWhile_append_of_pos hall]
    exact List.append_nil _
  have hdrop : (path.toList ++ ['"']).dropWhile (· != '"') = ['"'] := by
    rw [List.dropWhile_append_of_pos hall]
    rfl
  have hgap : (' ' :: '"' :: (path.toList ++ ['"'])).dropWhile isGap = '"' :: (path.toList ++ ['"']) := rfl
  unfold include?
  simp only [hword, Option.map_some, hgap, hdrop, htake]
  rw [if_neg (by simpa using hne)]

theorem collect_nil {α : Type} {read? : List Char → Option (α × List Char)} (h : read? [] = none) :
    ∀ n, collect read? n [] = []
  | 0 => rfl
  | n + 1 => by
    rw [collect, h]
    exact collect_nil h n

theorem includePaths_includeLine {path : String} (hne : path ≠ "") (hquote : '"' ∉ path.toList) :
    includePaths (includeLine path) = [path] := by
  rw [includePaths, lineCount, collect, include?_includeLine hne hquote]
  have hnone : include? [] = none := rfl
  simp only [afterLine, List.dropWhile_nil, List.drop_nil, collect_nil hnone, List.map_cons, List.map_nil,
    String.ofList_toList]

end Directive

namespace Include

theorem ofSource_includeLine {roots : VirtualRoots} {current file : DiskPath} {folder path : String}
    (hfolder : folderOf roots current file = .ok folder) (hne : path ≠ "") (hquote : '"' ∉ path.toList) :
    ofSource roots current file (Directive.includeLine path)
      = .ok [⟨virtualPathOf folder path,
        (roots.toDisk? (virtualPathOf folder path)).map DiskPath.toText⟩] := by
  rw [ofSource, hfolder, Except.map, ofText, Directive.includePaths_includeLine hne hquote]
  rfl

end Include

namespace VirtualRoots

variable {roots : VirtualRoots} {current file : DiskPath}

/-- The two spellings of a file that a source includes, relative to its virtual folder and behind it,
have one file on the disk if and only if nothing in them leads upwards and a root which only the first
one lies under has the directory that the other root has for it, or if neither has a file. -/
theorem diskPath_eq_iff {given : List (String × DiskPath)} {folder q : String}
    (h : addAll current [] given = .ok roots) (hcurrent : current.IsProper)
    (hgiven : ∀ g ∈ given, IsNormal (normalRoot g.1) ∧ g.2.IsProper) (hfile : file.IsProper)
    (hfolder : Include.folderOf roots current file = .ok folder) (hne : folder ≠ "")
    (hq : q ≠ "") (hrelative : q.toList.head? ≠ some '/')
    (hquote : '"' ∉ (folder ++ "/" ++ q).toList) :
    ∃ relative absolute : Include,
      Include.ofSource roots current file (Directive.includeLine q) = .ok [relative]
      ∧ Include.ofSource roots current file (Directive.includeLine (folder ++ "/" ++ q)) = .ok [absolute]
      ∧ relative.virtualPath = PathText.normal (PathText.join folder q)
      ∧ absolute.virtualPath = folder ++ "/" ++ q
      ∧ (relative.diskPath = absolute.diskPath
        ↔ relative.diskPath = none ∧ absolute.diskPath = none
          ∨ ".." ∉ namesOf q.toList ∧ ∃ outer inner, roots.IsLongest absolute.virtualPath outer
            ∧ roots.IsLongest relative.virtualPath inner ∧ roots.Continues outer inner) := by
  have hroots := plain_of_addAll h hcurrent hgiven
  obtain ⟨names, hnames, rfl⟩ := exists_eq_fromRoot_of_folderOf hroots hcurrent hfile hfolder hne
  have hpath : (fromRoot names ++ "/" ++ q).toList = (fromRoot names).toList ++ '/' :: q.toList := by
    rw [String.toList_append, String.toList_append, List.append_assoc]
    rfl
  have hspellings : Spellings (PathText.normal (PathText.join (fromRoot names) q))
      (fromRoot names ++ "/" ++ q) names (namesOf q.toList) := by
    refine ⟨hnames, fun _ => isName_of_mem_namesOf, ?_, ?_⟩
    · exact normal_join_fromRoot hnames.isName hnames.not_mem hrelative
    · rw [hpath, namesOf_append_cons, namesOf_fromRoot hnames.isName]
  have hrelativePath : Include.virtualPathOf (fromRoot names) q
      = PathText.normal (PathText.join (fromRoot names) q) := by
    refine if_neg ?_
    rw [Bool.or_eq_true, not_or, beginsWith_iff, String.isEmpty_iff]
    refine ⟨fun ⟨rest, hrest⟩ => hrelative ?_, hne⟩
    rw [← hrest]
    rfl
  have habsolutePath : Include.virtualPathOf (fromRoot names) (fromRoot names ++ "/" ++ q)
      = fromRoot names ++ "/" ++ q := by
    refine if_pos ?_
    rw [Bool.or_eq_true, beginsWith_iff, hpath, toList_fromRoot]
    exact .inl ⟨_, rfl⟩
  rw [hpath] at hquote
  refine ⟨_, _, Include.ofSource_includeLine hfolder hq fun hmem => hquote (by simp [hmem]),
    Include.ofSource_includeLine hfolder ?_ (hpath ▸ hquote), hrelativePath, habsolutePath, ?_⟩
  · rw [ne_eq, ← String.toList_inj, hpath]
    simp
  · rw [hrelativePath, habsolutePath, Option.map_eq_none_iff, Option.map_eq_none_iff]
    exact hspellings.map_toText_eq_iff hroots

end VirtualRoots

namespace ParentInclude

open VirtualRoots HiddenFile

/-! ### An include from the directory above -/

/-- Whether some names never lead above a directory that is so many names deep. -/
def staysBelow : Nat → List String → Bool
  | _, [] => true
  | depth, n :: names =>
    if n = ".." then 0 < depth && staysBelow (depth - 1) names else staysBelow (depth + 1) names

theorem folderOf_hidden : addAll .fileSystem [] given = .ok roots
    ∧ (DiskPath.fileSystem.IsProper ∧ ∀ g ∈ given, IsNormal (normalRoot g.1) ∧ g.2.IsProper)
    ∧ Include.folderOf roots .fileSystem (.ofString "/a/lib.hlsl") = .ok "/Project"
    ∧ Include.folderOf roots .fileSystem (.ofString "/b/lib.hlsl") = .ok "/Project/Sub" := by
  decide

/-- With no root on the way, a point makes no difference. -/
theorem diskPath_eq_of_point : addAll .fileSystem [] given = .ok roots
    ∧ Include.folderOf roots .fileSystem (.ofString "/a/lib.hlsl") = .ok "/Project"
    ∧ ∃ relative absolute : Include,
      Include.ofSource roots .fileSystem (.ofString "/a/lib.hlsl") (Directive.includeLine "./x.ush")
        = .ok [relative]
      ∧ Include.ofSource roots .fileSystem (.ofString "/a/lib.hlsl")
        (Directive.includeLine "/Project/./x.ush") = .ok [absolute]
      ∧ relative.diskPath = absolute.diskPath := by
  obtain ⟨hroots, ⟨hcurrent, hgiven⟩, hfolder, -⟩ := folderOf_hidden
  obtain ⟨relative, absolute, hrelative, habsolute, hpath, hpath', hiff⟩ :=
    diskPath_eq_iff (q := "./x.ush") hroots hcurrent hgiven (isProper_ofString _) hfolder (by decide)
      (by decide) (by decide) (by decide)
  refine ⟨hroots, hfolder, relative, absolute, hrelative, habsolute, hiff.2 (.inr ⟨by decide, ?_⟩)⟩
  rw [hpath, hpath']
  exact ⟨"/Project", "/Project", ⟨by decide, by decide, by decide⟩, ⟨by decide, by decide, by decide⟩,
    ⟨.root, ["a"]⟩, [], rfl, rfl, rfl⟩

theorem not_forall_spellings_agree : ¬∀ (current : DiskPath) (given : List (String × DiskPath))
    (roots : VirtualRoots) (file : DiskPath) (folder q : String), addAll current [] given = .ok roots →
      Include.folderOf roots current file = .ok folder → folder ≠ "" → q ≠ "" →
      q.toList.head? ≠ some '/' → '"' ∉ (folder ++ "/" ++ q).toList →
      staysBelow (namesOf folder.toList).length (namesOf q.toList) = true →
      ∃ relative absolute : Include,
        Include.ofSource roots current file (Directive.includeLine q) = .ok [relative]
        ∧ Include.ofSource roots current file (Directive.includeLine (folder ++ "/" ++ q))
          = .ok [absolute]
        ∧ relative.diskPath = absolute.diskPath := by
  intro hclaim
  obtain ⟨hroots, -, -, hfolder⟩ := folderOf_hidden
  obtain ⟨relative, absolute, hrelative, habsolute, hsame⟩ := hclaim _ _ _ _ _ "../x.ush" hroots hfolder
    (by decide) (by decide) (by decide) (by decide) (by decide)
  have hrelative' : Include.ofSource roots .fileSystem (.ofString "/b/lib.hlsl")
      (Directive.includeLine "../x.ush") = .ok [⟨"/Project/x.ush", some "/a/x.ush"⟩] := by decide
  have habsolute' : Include.ofSource roots .fileSystem (.ofString "/b/lib.hlsl")
      (Directive.includeLine ("/Project/Sub" ++ "/" ++ "../x.ush"))
        = .ok [⟨"/Project/Sub/../x.ush", some "/b/../x.ush"⟩] := by decide
  obtain rfl := List.head_eq_of_cons_eq (Except.ok.inj (hrelative'.symm.trans hrelative))
  obtain rfl := List.head_eq_of_cons_eq (Except.ok.inj (habsolute'.symm.trans habsolute))
  exact absurd hsame (by decide)

end ParentInclude

end ShaderGraph
