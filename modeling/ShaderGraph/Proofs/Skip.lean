import ShaderGraph.Proofs.Fingerprint
import ShaderGraph.Proofs.Header
import ShaderGraph.Proofs.Records
import ShaderGraph.Proofs.Shelf
import ShaderGraph.Proofs.Update

/-!
# What a skip leaves as it is

A function is skipped when the header of its artifact tells its fingerprint. If no two digested
texts have the same digest, what is stored is then what would be generated now, but for two things
that a fingerprint does not tell: the paths of the includes, of which only the texts are digested,
and the defines, whose digests nothing keeps apart from those of the texts. If these are as they
were, so are the number of digests and the place where the body ends. An include that moves is
enough for a stale artifact.
-/

namespace ShaderGraph

open Routine Text

/-! ## Two updates of a library -/

theorem length_join {α : Type} {n : Nat} {g : α → String} (h : ∀ a, (g a).toList.length = n) :
    ∀ as : List α, (String.join (as.map g)).toList.length = as.length * n
  | [] => by simp
  | a :: as => by
    rw [List.map_cons, String.join_cons, String.toList_append, List.length_append, h,
      length_join h as, List.length_cons, Nat.succ_mul, Nat.add_comm]

theorem Fingerprint.length_ofDependencies (includes : List String) (defines : List Define) :
    (ofDependencies includes defines).toList.length
      = includes.length * 32 + defines.length * 64 := by
  rw [ofDependencies, String.toList_append, List.length_append, length_join Digest.length_hash,
    length_join fun d => ?_]
  rw [String.toList_append, List.length_append, Digest.length_hash, Digest.length_hash]

def UpdateInputs.content (u : UpdateInputs) (f : ShaderFunction) : String :=
  Fingerprint.content f u.dependencies u.context.accurateErrors u.options

/-- The texts that updates digest for their functions. -/
def UpdateInputs.contents (us : List UpdateInputs) : List String :=
  us.flatMap fun u => u.functions.map u.content

/-- No two of some texts have the same digest. -/
def CollisionFree (texts : List String) : Prop :=
  ∀ s ∈ texts, ∀ t ∈ texts, Digest.hash s = Digest.hash t → s = t

theorem UpdateInputs.content_mem_contents {u : UpdateInputs} {us : List UpdateInputs} (hu : u ∈ us)
    {f : ShaderFunction} (hf : f ∈ u.functions) : u.content f ∈ contents us :=
  List.mem_flatMap.2 ⟨u, hu, List.mem_map_of_mem hf⟩

/-- An artifact is what would be generated now for a function, with the identifiers that it has. -/
def UpdateInputs.Reproduces (u : UpdateInputs) (f : ShaderFunction) (a : ArtifactRecord) : Prop :=
  ∃ s t, f.signature = .ok s ∧ a.identifiers.table = .ok t ∧ ∀ supply,
    (Artifact.generate f s (u.tag f) u.context (some t) supply).1.map Artifact.record = .ok a

/-- What would be generated has the fingerprint, the paths and the defines of this update. -/
theorem UpdateInputs.Reproduces.fields_eq {u : UpdateInputs} {f : ShaderFunction}
    {a : ArtifactRecord} (h : u.Reproduces f a) :
    a.fingerprint = .string (u.tag f)
      ∧ a.includeFilePaths = u.context.includeFilePaths.map .string
      ∧ a.additionalDefines = u.context.additionalDefines.map Define.fields := by
  obtain ⟨s, t, -, -, hgenerate⟩ := h
  obtain ⟨made, hmade, rfl⟩ := exists_of_map_eq_ok (hgenerate .counting)
  obtain ⟨n, -, rfl⟩ := Artifact.exists_of_generate_eq_ok hmade
  exact ⟨rfl, rfl, rfl⟩

namespace Library.Reads

variable {l : Library} {p : Project} {u v : UpdateInputs}

theorem scanned (h : l.Reads p u) {f : ShaderFunction} (hf : f ∈ u.functions) : f.Scanned := by
  obtain ⟨_, _, _, _, _, _, hscan, -, -, rfl⟩ := h
  exact scanned_of_mem_scan hscan hf

theorem options_eq (h : l.Reads p u) : u.options = l.metadata := by
  obtain ⟨_, _, _, _, _, _, -, -, -, rfl⟩ := h
  rfl

theorem accurateErrors_eq (h : l.Reads p u) : u.context.accurateErrors = l.accurateErrors := by
  obtain ⟨_, _, _, _, _, _, -, -, -, rfl⟩ := h
  rfl

theorem header_eq (hu : l.Reads p u) (hv : l.Reads p v) (tag : String) :
    Artifact.header u.context tag = Artifact.header v.context tag := by
  obtain ⟨_, _, _, _, _, _, -, -, -, rfl⟩ := hu
  obtain ⟨_, _, _, _, _, _, -, -, -, rfl⟩ := hv
  rfl

/-- The paths and the defines are all that changes in the context of a library. -/
theorem context_eq (hu : l.Reads p u) (hv : l.Reads p v)
    (hpaths : u.context.includeFilePaths = v.context.includeFilePaths)
    (hdefines : u.context.additionalDefines = v.context.additionalDefines) :
    u.context = v.context := by
  obtain ⟨_, _, _, _, _, _, -, -, -, rfl⟩ := hu
  obtain ⟨_, _, _, _, _, _, -, -, -, rfl⟩ := hv
  simp only [inputs, context] at hpaths hdefines ⊢
  rw [hpaths, hdefines]

theorem length_dependencies_eq (hu : l.Reads p u) (hv : l.Reads p v)
    (hpaths : u.context.includeFilePaths = v.context.includeFilePaths)
    (hdefines : u.context.additionalDefines = v.context.additionalDefines) :
    u.dependencies.toList.length = v.dependencies.toList.length := by
  obtain ⟨_, _, _, _, _, _, -, hroots, htexts, rfl⟩ := hu
  obtain ⟨_, _, _, _, _, _, -, hroots', htexts', rfl⟩ := hv
  simp only [inputs, context, List.append_cancel_left_eq] at hpaths hdefines ⊢
  rw [Fingerprint.length_ofDependencies, Fingerprint.length_ofDependencies, htexts, htexts',
    Include.countP_ofText, Include.countP_ofText, hpaths, hdefines,
    Include.fileCount_congr (Project.keys_roots hroots hroots')]

/-- If the paths and the defines are the same, functions with the same tag agree. -/
theorem agrees_of_tag_eq (hu : l.Reads p u) (hv : l.Reads p v)
    (hpaths : u.context.includeFilePaths = v.context.includeFilePaths)
    (hdefines : u.context.additionalDefines = v.context.additionalDefines) {f g : ShaderFunction}
    (hf : f ∈ u.functions) (hg : g ∈ v.functions) (h : u.tag f = v.tag g)
    (hfree : Digest.hash (u.content f) = Digest.hash (v.content g) → u.content f = v.content g) :
    f.Agrees l.accurateErrors g := by
  have hlength := hu.length_dependencies_eq hv hpaths hdefines
  unfold UpdateInputs.tag at h
  unfold UpdateInputs.content at hfree
  rw [hu.options_eq, hv.options_eq, hu.accurateErrors_eq, hv.accurateErrors_eq] at h hfree
  obtain ⟨hhead, hbody⟩ := Fingerprint.content_inj (hu.scanned hf) (hv.scanned hg)
    (hfree (Fingerprint.hash_eq_of_ofFunction_eq h))
  refine ⟨hhead, String.toList_inj.1 ?_⟩
  have hlists := congrArg String.toList hbody
  rw [String.toList_append, String.toList_append] at hlists
  exact (List.append_inj' hlists hlength).1

end Library.Reads

theorem ShaderFunction.SameHead.signature_eq {accurateErrors : Bool} {f g : ShaderFunction}
    (h : f.SameHead accurateErrors g) : f.signature = g.signature := by
  unfold signature
  rw [h.comment, h.returnType, h.arguments]

/-- A function that agrees with one that was generated earlier reproduces its artifact. -/
theorem Generation.reproduces {g : Generation} (hg : g.Sound) {u : UpdateInputs} {f : ShaderFunction}
    (hagrees : g.function.Agrees u.context.accurateErrors f) (htag : g.tag = u.tag f)
    (hcontext : g.inputs.context = u.context) : u.Reproduces f g.artifact.record := by
  have hsignature : f.signature = .ok g.signature := by rw [← hagrees.signature_eq, hg.signature]
  have hn : TexCoordinate.highest f.body = .ok g.texCoordinate := by
    rw [← hagrees.body, hg.texCoordinate]
  refine ⟨g.signature, g.table, hsignature, rfl, fun supply => ?_⟩
  unfold Artifact.generate artifact
  rw [hn, hg.named.naming_eq, hcontext, htag, Artifact.withIdentifiers_congr hagrees.name
    hagrees.comment hagrees.body hagrees.startLine]
  rfl

namespace LawfulStore

variable {σ : Type} [Sources (Routine σ)] [Journal (Routine σ)] [MonadStateOf Supply (Routine σ)]
  (D : LawfulStore σ) {l : Library} {p : Project} {us : List UpdateInputs} {s : σ}

theorem exists_of_skipped {u : UpdateInputs} (hu : inputsAt l p s = some u) {report : UpdateReport}
    (hreport : (exec (l.update p D.store) s).1 = .ok report) {f : ShaderFunction}
    (hf : f ∈ u.functions) (honce : (u.functions.map (·.name)).count f.name = 1)
    (hskip : f.name ∈ report.skipped) :
    D.artifact (exec (l.update p D.store) s).2 f.name = D.artifact s f.name
      ∧ ∃ a, D.artifact s f.name = some a ∧ a.comment.includes (u.tag f) = .ok true := by
  obtain ⟨_, _, hkept, h⟩ := D.exists_updated hu
  rw [hreport] at h
  rw [← hkept]
  exact h.exists_of_skipped rfl hf honce hskip

/-- A function that is alone in its name and skipped keeps its artifact, with the same fingerprint
unless the header has it from a name. The artifact is what would be generated now, with its own
identifiers, if and only if it has the fingerprint, the paths of the includes and the defines of
this update: all else is then the same. -/
theorem reproduces_iff_of_skipped (hs : D.Reached l p us s) {u : UpdateInputs}
    (hu : inputsAt l p s = some u) {report : UpdateReport}
    (hreport : (exec (l.update p D.store) s).1 = .ok report) {f : ShaderFunction}
    (hf : f ∈ u.functions) (honce : (u.functions.map (·.name)).count f.name = 1)
    (hskip : f.name ∈ report.skipped)
    (hfree : CollisionFree (UpdateInputs.contents (u :: us))) :
    ∃ a, D.artifact (exec (l.update p D.store) s).2 f.name = some a
      ∧ (a.fingerprint = .string (u.tag f)
        ∨ contains (Artifact.header u.context "") (u.tag f) = true)
      ∧ (u.Reproduces f a ↔ a.fingerprint = .string (u.tag f)
        ∧ a.includeFilePaths = u.context.includeFilePaths.map .string
        ∧ a.additionalDefines = u.context.additionalDefines.map Define.fields) := by
  obtain ⟨ht, a, ha, hheader⟩ := D.exists_of_skipped hu hreport hf honce hskip
  have hreads := reads_of_inputsAt hu
  obtain ⟨g, hg, hgu, hgf, -, rfl⟩ := hs.exists_generation ha
  have hgreads := hs.reads g.inputs hgu
  have hcontains : contains (Artifact.header g.inputs.context g.tag) (u.tag f) = true :=
    Except.ok.inj hheader
  rw [hgreads.header_eq hreads] at hcontains
  refine ⟨g.artifact.record, ht.trans ha,
    (Artifact.contains_header hcontains).imp_left (congrArg Json.string), fun h => h.fields_eq,
    fun ⟨hfingerprint, hrecordPaths, hrecordDefines⟩ => ?_⟩
  have htag : g.tag = u.tag f := Json.string.inj hfingerprint
  have hpaths : g.inputs.context.includeFilePaths = u.context.includeFilePaths :=
    List.map_injective_iff.2 (fun _ _ => Json.string.inj) hrecordPaths
  have hdefines : g.inputs.context.additionalDefines = u.context.additionalDefines :=
    List.map_injective_iff.2 Define.fields_injective hrecordDefines
  have hagrees := hgreads.agrees_of_tag_eq hreads hpaths hdefines hgf hf htag
    (hfree _ (UpdateInputs.content_mem_contents (List.mem_cons_of_mem _ hgu) hgf) _
      (UpdateInputs.content_mem_contents List.mem_cons_self hf))
  rw [← hreads.accurateErrors_eq] at hagrees
  exact Generation.reproduces hg hagrees htag (hgreads.context_eq hreads hpaths hdefines)

end LawfulStore

/-! ## An include that moves -/

namespace MovedInclude

def library : Library := { name := "Lib", file := "lib.hlsl" }

/-- A project without virtual roots, so that no include is found on the disk. -/
def project : Project := { root := .fileSystem }

/-- A shelf whose world has a source with one include and one function. -/
def withInclude (s : Shelf) (path : String) : Shelf :=
  let text := "#include \"" ++ path ++ "\"\nvoid Foo(out float R) \x7b R = 1; \x7d"
  { s with disk := s.disk.put ["lib.hlsl"] (.file text.toUTF8) }

theorem artifact_withInclude (s : Shelf) (path : String) :
    Shelf.lawful.artifact (withInclude s path) = Shelf.lawful.artifact s := rfl

def function : ShaderFunction := ⟨1, "", "void", "Foo", ["out float R"], " R = 1; "⟩

def first : Shelf := withInclude {} "/Engine/A.ush"

def middle : Shelf := (exec (library.update project Shelf.lawful.store) first).2

/-- Before the second update the include is another one. -/
def second : Shelf := withInclude middle "/Engine/B.ush"

def earlier : List UpdateInputs := (LawfulStore.inputsAt library project first).toList

theorem reached : Shelf.lawful.Reached library project earlier second := by
  have hstart : Shelf.lawful.Reached library project [] first := .start fun _ => rfl
  have hupdate : Shelf.lawful.Reached library project (earlier ++ []) middle := hstart.update
  rw [List.append_nil] at hupdate
  exact hupdate.edit (artifact_withInclude middle "/Engine/B.ush")

def parts (u : UpdateInputs) : List ShaderFunction × String × List String :=
  (u.functions, u.dependencies, u.context.includeFilePaths)

theorem parts_eq :
    (LawfulStore.inputsAt library project first).map parts
        = some ([function], "", ["/Engine/A.ush"])
      ∧ (LawfulStore.inputsAt library project second).map parts
        = some ([function], "", ["/Engine/B.ush"]) := by
  decide +kernel

theorem content_eq {s : Shelf} {u : UpdateInputs} {paths : List String}
    (hs : (LawfulStore.inputsAt library project s).map parts = some ([function], "", paths))
    (hu : LawfulStore.inputsAt library project s = some u) {t : String}
    (ht : t ∈ u.functions.map u.content) :
    t = Fingerprint.content function "" library.accurateErrors library.metadata := by
  rw [hu] at hs
  obtain ⟨hfunctions, hrest⟩ := Prod.mk.inj (Option.some.inj hs)
  rw [hfunctions, List.map_singleton, List.mem_singleton] at ht
  have hreads := LawfulStore.reads_of_inputsAt hu
  rw [ht, UpdateInputs.content, (Prod.mk.inj hrest).1, hreads.accurateErrors_eq, hreads.options_eq]

/-- Both updates digest the same text. -/
theorem collisionFree {u : UpdateInputs} (hu : LawfulStore.inputsAt library project second = some u) :
    CollisionFree (UpdateInputs.contents (u :: earlier)) := by
  have hall : ∀ t ∈ UpdateInputs.contents (u :: earlier),
      t = Fingerprint.content function "" library.accurateErrors library.metadata := by
    intro t ht
    obtain ⟨v, hv, htv⟩ := List.mem_flatMap.1 ht
    rcases List.mem_cons.1 hv with rfl | hv
    · exact content_eq parts_eq.2 hu htv
    · exact content_eq parts_eq.1 (Option.mem_toList.1 hv) htv
  intro s hs t ht _
  rw [hall s hs, hall t ht]

/-- The first update stores the path of the include, and the second one skips the function. -/
theorem runs_eq :
    (Shelf.lawful.artifact middle function.name).map
        (fun a => a.includeFilePaths.map Shelf.textOf) = some [some "/Engine/A.ush"]
      ∧ (exec (library.update project Shelf.lawful.store) second).1.toOption.map (·.skipped)
        = some ["Foo"] := by
  decide +kernel

theorem exists_skip :
    ∃ u report, LawfulStore.inputsAt library project second = some u
      ∧ (exec (library.update project Shelf.lawful.store) second).1 = .ok report
      ∧ function ∈ u.functions ∧ (u.functions.map (·.name)).count function.name = 1
      ∧ function.name ∈ report.skipped ∧ CollisionFree (UpdateInputs.contents (u :: earlier))
      ∧ u.context.includeFilePaths = ["/Engine/B.ush"] := by
  obtain ⟨u, hu, hparts⟩ := Option.map_eq_some_iff.1 parts_eq.2
  obtain ⟨hfunctions, hrest⟩ := Prod.mk.inj hparts
  have hskipped := runs_eq.2
  cases hreport : (exec (library.update project Shelf.lawful.store) second).1 with
  | error e =>
    rw [hreport] at hskipped
    cases hskipped
  | ok report =>
    rw [hreport] at hskipped
    have hskip : report.skipped = ["Foo"] := Option.some.inj hskipped
    refine ⟨u, report, hu, rfl, ?_, ?_, ?_, collisionFree hu, (Prod.mk.inj hrest).2⟩
    · rw [hfunctions]
      exact List.mem_cons_self
    · rw [hfunctions]
      decide
    · rw [hskip]
      exact List.mem_cons_self

theorem reproduces_iff_of_skipped_of_moved :
    Shelf.lawful.Reached library project earlier second ∧ ∃ u report,
      LawfulStore.inputsAt library project second = some u
      ∧ (exec (library.update project Shelf.lawful.store) second).1 = .ok report
      ∧ function ∈ u.functions ∧ (u.functions.map (·.name)).count function.name = 1
      ∧ function.name ∈ report.skipped ∧ CollisionFree (UpdateInputs.contents (u :: earlier))
      ∧ ∃ a, Shelf.lawful.artifact (exec (library.update project Shelf.lawful.store) second).2
          function.name = some a
        ∧ (a.fingerprint = .string (u.tag function)
          ∨ contains (Artifact.header u.context "") (u.tag function) = true)
        ∧ (u.Reproduces function a ↔ a.fingerprint = .string (u.tag function)
          ∧ a.includeFilePaths = u.context.includeFilePaths.map .string
          ∧ a.additionalDefines = u.context.additionalDefines.map Define.fields) := by
  obtain ⟨u, report, hu, hreport, hf, honce, hskip, hfree, -⟩ := exists_skip
  exact ⟨reached, u, report, hu, hreport, hf, honce, hskip, hfree,
    Shelf.lawful.reproduces_iff_of_skipped reached hu hreport hf honce hskip hfree⟩

/-- A skip can leave a stale artifact: it still has the path of the include that moved. -/
theorem not_forall_skipped_reproduces :
    ¬ ∀ (l : Library) (p : Project) (us : List UpdateInputs) (s : Shelf) (u : UpdateInputs)
        (report : UpdateReport) (f : ShaderFunction), Shelf.lawful.Reached l p us s →
      LawfulStore.inputsAt l p s = some u → (exec (l.update p Shelf.lawful.store) s).1 = .ok report →
      f ∈ u.functions → (u.functions.map (·.name)).count f.name = 1 → f.name ∈ report.skipped →
      (∃ signature, f.signature = .ok signature) → CollisionFree (UpdateInputs.contents (u :: us)) →
      ∃ a, Shelf.lawful.artifact (exec (l.update p Shelf.lawful.store) s).2 f.name = some a
        ∧ u.Reproduces f a := by
  intro h
  obtain ⟨u, report, hu, hreport, hf, honce, hskip, hfree, hpaths⟩ := exists_skip
  have hsignature : ∃ signature, function.signature = .ok signature := by
    have hsome : function.signature.toOption.isSome = true := by decide +kernel
    cases hs : function.signature with
    | error e =>
      rw [hs] at hsome
      cases hsome
    | ok signature => exact ⟨signature, rfl⟩
  obtain ⟨a, ha, hreproduces⟩ := h library project earlier second u report function reached hu
    hreport hf honce hskip hsignature hfree
  have hkept := (Shelf.lawful.exists_of_skipped hu hreport hf honce hskip).1
  have hstored := runs_eq.1
  rw [ha, second, artifact_withInclude] at hkept
  rw [← hkept, Option.map_some, hreproduces.fields_eq.2.1, hpaths] at hstored
  exact absurd hstored (by decide)

end MovedInclude

end ShaderGraph
