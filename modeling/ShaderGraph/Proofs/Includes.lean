import ShaderGraph.Proofs.Routine

/-!
# Which includes are read

Whether an include has a file depends on the names of the virtual roots, and these are fixed by the
project, wherever their directories are. So the virtual paths of the includes tell how many texts an
update reads.
-/

namespace ShaderGraph

open Routine

theorem exists_of_map_eq_ok {ε α β : Type} {x : Except ε α} {f : α → β} {b : β}
    (h : x.map f = .ok b) : ∃ a, x = .ok a ∧ f a = b := by
  cases x with
  | error e => cases h
  | ok a => exact ⟨a, rfl, Except.ok.inj h⟩

namespace VirtualRoots

theorem isSome_foldl_longer :
    ∀ (found : List (String × DiskPath × String)) (best : Option (String × DiskPath × String)),
      (found.foldl longer best).isSome = (best.isSome || !found.isEmpty)
  | [], best => by simp
  | f :: found, best => by
    have hlonger : (longer best f).isSome = true := by
      cases best with
      | none => rfl
      | some b =>
        simp only [longer]
        split <;> rfl
    rw [List.foldl_cons, isSome_foldl_longer found, hlonger]
    simp

/-- The names of the roots decide which virtual paths have a file. -/
theorem isSome_toDisk? (roots : VirtualRoots) (path : String) :
    (roots.toDisk? path).isSome
      = (OrderedMap.keys roots).any fun root => (below? root path).isSome := by
  unfold toDisk?
  rw [Option.isSome_map, isSome_foldl_longer]
  induction roots with
  | nil => rfl
  | cons r roots ih =>
    rw [OrderedMap.keys, List.map_cons, List.any_cons, ← OrderedMap.keys, ← ih, List.filterMap_cons]
    cases below? r.1 path <;> simp

theorem keys_add {roots rs : VirtualRoots} {current directory : DiskPath} {root : String}
    (h : roots.add current root directory = .ok rs) :
    OrderedMap.keys rs = if normalRoot root ∈ OrderedMap.keys roots then OrderedMap.keys roots
      else OrderedMap.keys roots ++ [normalRoot root] := by
  obtain ⟨d, -, rfl⟩ := exists_of_map_eq_ok h
  exact OrderedMap.keys_insert _ _ _

theorem keys_foldlM_add {current current' : DiskPath} {directory : String → DiskPath} :
    ∀ {ps : List (String × String)} {a b rs rs' : VirtualRoots},
      OrderedMap.keys a = OrderedMap.keys b →
      ps.foldlM (fun rs r => add rs current r.1 (directory r.2)) a = .ok rs →
      ps.foldlM (fun rs r => add rs current' r.1 (directory r.2)) b = .ok rs' →
      OrderedMap.keys rs = OrderedMap.keys rs'
  | [], a, b, rs, rs', hkeys, h, h' => by
    obtain rfl := Except.ok.inj h
    obtain rfl := Except.ok.inj h'
    exact hkeys
  | r :: ps, a, b, rs, rs', hkeys, h, h' => by
    rw [List.foldlM_cons] at h h'
    cases ha : add a current r.1 (directory r.2) with
    | error e => rw [ha] at h; cases h
    | ok a' =>
      cases hb : add b current' r.1 (directory r.2) with
      | error e => rw [hb] at h'; cases h'
      | ok b' =>
        rw [ha] at h
        rw [hb] at h'
        refine keys_foldlM_add (a := a') (b := b') ?_ h h'
        rw [keys_add ha, keys_add hb, hkeys]

end VirtualRoots

/-- A project gives its roots the same names in every directory. -/
theorem Project.keys_roots {p : Project} {current current' : DiskPath} {rs rs' : VirtualRoots}
    (h : p.roots current = .ok rs) (h' : p.roots current' = .ok rs') :
    OrderedMap.keys rs = OrderedMap.keys rs' :=
  VirtualRoots.keys_foldlM_add rfl h h'

namespace Include

/-- The number of virtual paths that have a file. -/
def fileCount (roots : VirtualRoots) (paths : List String) : Nat :=
  paths.countP fun path => (roots.toDisk? path).isSome

theorem fileCount_congr {rs rs' : VirtualRoots} (h : OrderedMap.keys rs = OrderedMap.keys rs')
    (paths : List String) : fileCount rs paths = fileCount rs' paths := by
  unfold fileCount
  simp only [VirtualRoots.isSome_toDisk?, h]

theorem countP_ofText (roots : VirtualRoots) (folder text : String) :
    (ofText roots folder text).countP (·.diskPath.isSome)
      = fileCount roots ((ofText roots folder text).map (·.virtualPath)) := by
  unfold fileCount ofText
  rw [List.countP_map, List.countP_map, List.countP_map]
  refine List.countP_congr fun path _ => ?_
  simp

theorem exists_folder {roots : VirtualRoots} {current file : DiskPath} {text : String}
    {includes : List Include} (h : ofSource roots current file text = .ok includes) :
    ∃ folder, includes = ofText roots folder text := by
  obtain ⟨folder, -, rfl⟩ := exists_of_map_eq_ok h
  exact ⟨folder, rfl⟩

end Include

variable {σ : Type} [Sources (Routine σ)]

/-- A text is read for each include that has a file. -/
theorem yields_readIncludes :
    ∀ is : List Include, Yields (readIncludes is : Routine σ (Except Failure (List String)))
      fun r => ∀ texts, r = .ok texts → texts.length = is.countP (·.diskPath.isSome)
  | [] => yields_pure fun texts h => by
    obtain rfl := Except.ok.inj h
    rfl
  | i :: is => by
    unfold readIncludes
    cases hi : i.diskPath with
    | none =>
      rw [List.countP_cons_of_neg (by simp [hi])]
      exact yields_readIncludes is
    | some path =>
      rw [List.countP_cons_of_pos (by simp [hi])]
      refine Yields.bind yields_of_result fun r _ => ?_
      cases r with
      | error e => exact yields_pure fun texts h => by cases h
      | ok text =>
        refine Yields.bind (yields_readIncludes is) fun rest hrest => yields_pure fun texts h => ?_
        cases rest with
        | error e => cases h
        | ok rest =>
          obtain rfl := Except.ok.inj h
          rw [List.length_cons, hrest rest rfl]

end ShaderGraph
