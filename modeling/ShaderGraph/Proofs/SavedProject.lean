import ShaderGraph.Project.File
import ShaderGraph.Proofs.Includes
import ShaderGraph.Proofs.OrderedMap

/-!
# Projects that are saved and loaded

A project that was read from a mapping is written as one and read back. Every option is as it was
but for the defines of a library: these were read from a mapping whose keys show alike more than
once if they are of different types, as `1` and `"1"`, and are written with one value for each name.
So the project is the same exactly if no library has two defines of one name
(`Project.unchanged_iff_nodup`).
-/

namespace ShaderGraph

open Checked Yaml

/-! ## Checks that succeed -/

namespace Checked

variable {α β : Type}

@[simp]
theorem both_ok (f : α → β) (a : α) : both (.ok f) (.ok a) = .ok (f a) := rfl

@[simp]
theorem within_ok (key : String) (a : α) : within key (.ok a) = .ok a := rfl

theorem all_map_ok (as : List α) : all (as.map .ok) = .ok as := by
  induction as with
  | nil => rfl
  | cons a as ih => rw [List.map_cons, all, ih, both_ok, both_ok]

theorem both_eq_ok_iff {f : Checked (α → β)} {x : Checked α} {b : β} :
    both f x = .ok b ↔ ∃ g a, f = .ok g ∧ x = .ok a ∧ g a = b := by
  cases f <;> cases x <;> simp [both]

theorem within_eq_ok_iff {key : String} {x : Checked α} {a : α} :
    within key x = .ok a ↔ x = .ok a := by
  cases x <;> simp [within]

end Checked

namespace Yaml

variable {α β : Type} {known : List String} {entries : List (Yaml × Yaml)}

theorem eq_ok_of_refusingUnknown {x : Checked α} {a : α}
    (h : refusingUnknown known entries x = .ok a) : x = .ok a := by
  unfold refusingUnknown at h
  split at h
  · exact h
  · obtain ⟨_, _, -, herror, -⟩ := both_eq_ok_iff.1 h
    cases herror

theorem eq_or_exists_of_field {key : String} {default a : α} {f : Yaml → Checked α}
    (h : field entries key default f = .ok a) : a = default ∨ ∃ v, f v = .ok a := by
  unfold field at h
  split at h
  · exact .inr ⟨_, within_eq_ok_iff.1 h⟩
  · exact .inl (Except.ok.inj h).symm

theorem nodup_keys_of_checkTextMap {v : Yaml} {m : OrderedMap String String}
    (h : checkTextMap v = .ok m) : (OrderedMap.keys m).Nodup := by
  unfold checkTextMap at h
  split at h
  · obtain ⟨ps, -, rfl⟩ := exists_of_map_eq_ok h
    exact OrderedMap.nodup_keys_ofPairs ps
  · cases h

/-! ## What is written passes its check -/

theorem checkList_sequence {f : Yaml → Checked β} {w : α → Yaml} {g : α → β}
    (h : ∀ a, f (w a) = .ok (g a)) (as : List α) :
    checkList f (.sequence (as.map w)) = .ok (as.map g) := by
  have hitems : ((as.map w).mapIdx fun i v => within (toString i) (f v))
      = (as.map g).map Except.ok := by
    apply List.ext_getElem
    · simp
    · intro i hi hj
      simp [h]
  change Checked.all ((as.map w).mapIdx fun i v => within (toString i) (f v)) = _
  rw [hitems, all_map_ok]

theorem checkList_texts (ss : List String) : checkList checkText (.texts ss) = .ok ss := by
  have hids := checkList_sequence (f := checkText) (w := text) (g := id) (fun _ => rfl) ss
  rwa [List.map_id] at hids

theorem checkTextMap_ofFields (m : OrderedMap String String) :
    checkTextMap (.ofFields (m.map fun p => (p.1, .text p.2))) = .ok (OrderedMap.ofPairs m) := by
  have hentries : ((m.map fun p => (p.1, Yaml.text p.2)).map fun p => (text p.1, p.2)).map
      (fun e => within e.1.pathName
        (both (both (.ok Prod.mk) (within "[key]" e.1.checkText)) e.2.checkText))
      = m.map Except.ok := by
    rw [List.map_map, List.map_map]
    rfl
  have hall := congrArg (fun es => (Checked.all es).map OrderedMap.ofPairs) hentries
  rw [all_map_ok] at hall
  exact hall

theorem checkDefines_ofFields (m : OrderedMap String String) :
    checkDefines (.ofFields (m.map fun p => (p.1, .text p.2)))
      = .ok (m.map fun p => ⟨p.1, p.2⟩) := by
  change ((m.map fun p => (p.1, Yaml.text p.2)).map fun p => (text p.1, p.2)).mapM
    (fun e => checkDefine e.1 e.2) = _
  induction m with
  | nil => rfl
  | cons p m ih =>
    rw [List.map_cons, List.map_cons, List.mapM_cons, ih]
    rfl

end Yaml

theorem EditorSettings.check_ofFields (e : EditorSettings) :
    check (.ofFields [("path", .text e.path), ("arguments", .text e.arguments)]) = .ok e := by
  simp [check, ofFields, unfold, refusingUnknown, unknownIssues, field, option?, checkText]

/-! ## Defines of one name -/

namespace Library

/-- The defines of a library as a map: each name at its first place with its last value. -/
def defineMap (l : Library) : OrderedMap String String :=
  OrderedMap.ofPairs (l.additionalDefines.map fun d => (d.name, d.value))

/-- A library with one define for each name. -/
def merged (l : Library) : Library :=
  { l with additionalDefines := l.defineMap.map fun p => ⟨p.1, p.2⟩ }

theorem merged_eq_self_iff {l : Library} :
    l.merged = l ↔ (l.additionalDefines.map (·.name)).Nodup := by
  have hkeys : OrderedMap.keys (l.additionalDefines.map fun d => (d.name, d.value))
      = l.additionalDefines.map (·.name) := by
    rw [OrderedMap.keys, List.map_map]
    rfl
  constructor
  · intro h
    have hdefines : l.additionalDefines = l.defineMap.map fun p => ⟨p.1, p.2⟩ :=
      (congrArg additionalDefines h).symm
    rw [hdefines, List.map_map]
    exact OrderedMap.nodup_keys_ofPairs _
  · intro h
    have hmap : l.defineMap = l.additionalDefines.map fun d => (d.name, d.value) :=
      OrderedMap.ofPairs_eq_self (hkeys ▸ h)
    rw [merged, hmap, List.map_map]
    exact congrArg (fun defines => { l with additionalDefines := defines }) (List.map_id _)

theorem check_libraryToYaml (l : Library) : check (Project.libraryToYaml l) = .ok l.merged := by
  have hdefines := checkDefines_ofFields l.defineMap
  have hwritten : Project.libraryToYaml l = .ofFields [
      ("name", .text l.name), ("file", .text l.file),
      ("update_on_file_change", .bool l.updateOnFileChange),
      ("update_on_include_change", .bool l.updateOnIncludeChange),
      ("put_functions_in_subdirectory", .bool l.putFunctionsInSubdirectory),
      ("accurate_errors", .bool l.accurateErrors), ("categories", .texts l.categories),
      ("include_file_paths", .texts l.includeFilePaths),
      ("additional_defines", .ofFields (l.defineMap.map fun p => (p.1, .text p.2)))] := rfl
  generalize Yaml.ofFields (l.defineMap.map fun p => (p.1, .text p.2)) = defines
    at hdefines hwritten
  rw [hwritten, ofFields]
  simp [check, unfold, refusingUnknown, unknownIssues, field, requiredField, option?, checkText,
    checkBool, optionNames, checkList_texts, hdefines, merged]

end Library

/-! ## Reading back a project -/

namespace Project

variable {root : DiskPath} {p : Project} {entries : List (Yaml × Yaml)}

/-- What is read back of a project, seen from a root. -/
def readBack (root : DiskPath) (p : Project) : Project :=
  { p with
    root := root
    virtualRoots := OrderedMap.ofPairs p.virtualRoots
    libraries := p.libraries.map Library.merged }

/-- The options that are written of a project. -/
def writtenOptions (p : Project) : List (Yaml × Yaml) := [
  (.text "output_dir", .text p.outputDir),
  (.text "virtual_roots", .ofFields (p.virtualRoots.map fun r => (r.1, .text r.2))),
  (.text "libraries", .sequence (p.libraries.map libraryToYaml)),
  (.text "editor",
    .ofFields [("path", .text p.editor.path), ("arguments", .text p.editor.arguments)])]

/-- What is written of a project: the version, then the options. -/
def writtenEntries (p : Project) : List (Yaml × Yaml) :=
  (.text "version", .int configVersion) :: p.writtenOptions

theorem entries?_toYaml (p : Project) : p.toYaml.entries? = some p.writtenEntries := rfl

theorem check_writtenOptions (root : DiskPath) (p : Project) :
    check root p.writtenOptions = .ok (p.readBack root) := by
  have hroots := checkTextMap_ofFields p.virtualRoots
  have hlibraries := checkList_sequence Library.check_libraryToYaml p.libraries
  have heditor := EditorSettings.check_ofFields p.editor
  simp [check, writtenOptions, refusingUnknown, unknownIssues, field, option?, optionNames,
    checkText, hroots, hlibraries, heditor, readBack]

theorem ofEntries_writtenEntries (root : DiskPath) (p : Project) :
    ofEntries root p.writtenEntries = .ok (p.readBack root) := by
  have hoptions : options p.writtenEntries = p.writtenOptions := by
    simp [options, writtenEntries, writtenOptions, ofFields]
  have hversion : isVersion ((option? p.writtenEntries "version").getD .null) = true := by
    simp [option?, writtenEntries, isVersion]
  rw [ofEntries]
  simp only [hversion, hoptions, check_writtenOptions, if_true]

/-- A project that was read has the root it is seen from, and no virtual root twice. -/
theorem root_eq_and_nodup_of_ofEntries (h : ofEntries root entries = .ok p) :
    p.root = root ∧ (OrderedMap.keys p.virtualRoots).Nodup := by
  unfold ofEntries at h
  simp only [] at h
  split_ifs at h
  split at h
  · rename_i hcheck
    cases h
    -- the options are read one after the other, the editor last
    obtain ⟨_, editor, hlibraries, -, rfl⟩ := both_eq_ok_iff.1 (eq_ok_of_refusingUnknown hcheck)
    obtain ⟨_, libraries, hplaces, -, rfl⟩ := both_eq_ok_iff.1 hlibraries
    obtain ⟨_, roots, hdirectory, hroots, rfl⟩ := both_eq_ok_iff.1 hplaces
    obtain ⟨_, directory, hroot, -, rfl⟩ := both_eq_ok_iff.1 hdirectory
    cases hroot
    refine ⟨rfl, ?_⟩
    rcases eq_or_exists_of_field hroots with rfl | ⟨v, hv⟩
    · exact List.nodup_nil
    · exact nodup_keys_of_checkTextMap hv
  · cases h

/-- A project that was read from a mapping is read back with one define for each name and all else
as it was, so unchanged exactly if no library has two defines of one name. -/
theorem unchanged_iff_nodup (h : ofEntries root entries = .ok p) :
    ∃ saved, p.toYaml.entries? = some saved
      ∧ ofEntries root saved = .ok { p with libraries := p.libraries.map Library.merged }
      ∧ (ofEntries root saved = .ok p
        ↔ ∀ l ∈ p.libraries, (l.additionalDefines.map (·.name)).Nodup) := by
  obtain ⟨rfl, hnodup⟩ := root_eq_and_nodup_of_ofEntries h
  have hback : ofEntries p.root p.writtenEntries
      = .ok { p with libraries := p.libraries.map Library.merged } := by
    rw [ofEntries_writtenEntries, readBack, OrderedMap.ofPairs_eq_self hnodup]
  refine ⟨p.writtenEntries, p.entries?_toYaml, hback, ?_⟩
  have hsame : { p with libraries := p.libraries.map Library.merged } = p
      ↔ p.libraries.map Library.merged = p.libraries.map id := by
    obtain ⟨root, directory, roots, libraries, editor⟩ := p
    simp
  rw [hback, Except.ok.injEq, hsame, List.map_inj_left]
  exact forall₂_congr fun l _ => Library.merged_eq_self_iff

end Project

namespace NumberedDefine

open Project

/-- A library with a define for the number `1` and one for the text `1`. -/
def entries : List (Yaml × Yaml) := [(.text "version", .int 1),
  (.text "libraries", .sequence [.mapping [
    (.text "name", .text "L"), (.text "file", .text "l.hlsl"),
    (.text "additional_defines", .mapping [(.int 1, .text "a"), (.text "1", .text "b")])]])]

def project : Project where
  root := .ofString "/p"
  libraries := [{
    name := "L"
    file := "l.hlsl"
    additionalDefines := [⟨"1", "a"⟩, ⟨"1", "b"⟩] }]

theorem ofEntries_eq : ofEntries project.root entries = .ok project := by decide +kernel

theorem unchanged_iff_nodup_of_numbered : ofEntries project.root entries = .ok project
    ∧ ∃ saved, project.toYaml.entries? = some saved
      ∧ ofEntries project.root saved
        = .ok { project with libraries := project.libraries.map Library.merged }
      ∧ (ofEntries project.root saved = .ok project
        ↔ ∀ l ∈ project.libraries, (l.additionalDefines.map (·.name)).Nodup) :=
  ⟨ofEntries_eq, unchanged_iff_nodup ofEntries_eq⟩

/-- Not every project that was read is read back unchanged: of two defines of one name one is
left. -/
theorem not_forall_unchanged : ¬∀ root entries p, ofEntries root entries = .ok p →
    ∃ saved, p.toYaml.entries? = some saved ∧ ofEntries root saved = .ok p := by
  intro h
  obtain ⟨saved, hsaved, hsame⟩ := h _ _ _ ofEntries_eq
  rw [entries?_toYaml, Option.some.injEq] at hsaved
  rw [← hsaved, ofEntries_writtenEntries, Except.ok.injEq] at hsame
  exact absurd (congrArg (fun p => p.libraries.map fun l => l.additionalDefines.length) hsame)
    (by decide +kernel)

end NumberedDefine

end ShaderGraph
