import ShaderGraph.Proofs.Neighbours
import ShaderGraph.Proofs.Options
import ShaderGraph.Proofs.Skip

/-!
# What a skip leaves as it is when the configuration changes

The options in a fingerprint are those that were in force when an artifact was generated. Three
things that an artifact tells are not among them: the name of the library, the path of its source
and the paths of the includes. So an artifact is stale after a skip if one of these has changed, and
only then.
-/

namespace ShaderGraph

open Routine Text

/-- What would be generated has the names of this update. -/
theorem UpdateInputs.Reproduces.names_eq {u : UpdateInputs} {f : ShaderFunction}
    {a : ArtifactRecord} (h : u.Reproduces f a) :
    a.library = .string u.context.libraryName ∧ a.sourceFile = .string u.context.sourceFile := by
  obtain ⟨s, t, -, -, hgenerate⟩ := h
  obtain ⟨made, hmade, rfl⟩ := exists_of_map_eq_ok (hgenerate .counting)
  obtain ⟨n, -, rfl⟩ := Artifact.exists_of_generate_eq_ok hmade
  exact ⟨rfl, rfl⟩

/-- The options of two libraries that enter what is generated, but for the names and the includes.
-/
structure Library.SameOptions (l l' : Library) : Prop where
  accurateErrors : l.accurateErrors = l'.accurateErrors
  categories : l.categories = l'.categories
  includeFilePaths : l.includeFilePaths = l'.includeFilePaths
  additionalDefines : l.additionalDefines = l'.additionalDefines

/-- The names in which two updates with the same options can differ. -/
structure Library.SameNames (l l' : Library) (includes includes' : List Include) : Prop where
  name : l.name = l'.name
  file : (DiskPath.ofString l.file).toText = (DiskPath.ofString l'.file).toText
  includes : includes.map (·.virtualPath) = includes'.map (·.virtualPath)

namespace Library

variable {l l' : Library} {includes includes' : List Include}

theorem SameOptions.context_eq_iff (h : l.SameOptions l') (defines : List Define) :
    l.context includes defines = l'.context includes' defines
      ↔ l.SameNames l' includes includes' := by
  unfold context
  rw [h.accurateErrors, h.categories, h.includeFilePaths, h.additionalDefines,
    GenerationContext.mk.injEq]
  constructor
  · rintro ⟨hfile, hname, -, -, hincludes, -⟩
    exact ⟨hname, hfile, List.append_cancel_left hincludes⟩
  · rintro ⟨hname, hfile, hincludes⟩
    exact ⟨hfile, hname, rfl, rfl, by rw [hincludes], rfl⟩

/-- Updates of two libraries that read the same have the same text to digest for a function only if
the options are the same. -/
theorem sameOptions_of_content_eq {fs : List ShaderFunction} {defines : List Define}
    {texts : List String} {f : ShaderFunction} (hf : f.Scanned)
    (h : (l.inputs fs includes defines texts).content f
      = (l'.inputs fs includes' defines texts).content f) : l.SameOptions l' := by
  obtain ⟨haccurate, hmetadata⟩ := Fingerprint.options_eq_of_content_eq hf h
  obtain ⟨hdefines, hcategories, hpaths⟩ := options_eq_of_metadata_eq hmetadata
  exact ⟨haccurate, hcategories, hpaths, hdefines⟩

end Library

/-- An artifact that was generated under some options is what would be generated under the same ones
if and only if it has the fingerprint and the names are the same. -/
theorem Generation.reproduces_iff {g : Generation} (hg : g.Sound) {l l' : Library}
    {fs : List ShaderFunction} {includes includes' : List Include} {defines : List Define}
    {texts : List String} {u' : UpdateInputs} (hgu : g.inputs = l.inputs fs includes defines texts)
    (hu' : u' = l'.inputs fs includes' defines texts)
    (hsame : g.tag = u'.tag g.function → l.SameOptions l') :
    u'.Reproduces g.function g.artifact.record
      ↔ g.tag = u'.tag g.function ∧ l.SameNames l' includes includes' := by
  subst hu'
  constructor
  · intro h
    obtain ⟨hfingerprint, hpaths, -⟩ := h.fields_eq
    obtain ⟨hlibrary, hsource⟩ := h.names_eq
    have htag := Json.string.inj hfingerprint
    have hname : g.inputs.context.libraryName = l'.name := Json.string.inj hlibrary
    have hfile : g.inputs.context.sourceFile = (DiskPath.ofString l'.file).toText :=
      Json.string.inj hsource
    have hlists : g.inputs.context.includeFilePaths
        = l'.includeFilePaths ++ includes'.map (·.virtualPath) :=
      List.map_injective_iff.2 (fun _ _ => Json.string.inj) hpaths
    rw [hgu] at hname hfile hlists
    rw [← (hsame htag).includeFilePaths] at hlists
    exact ⟨htag, hname, hfile, List.append_cancel_left hlists⟩
  · rintro ⟨htag, hnames⟩
    refine Generation.reproduces hg .refl htag ?_
    rw [hgu]
    exact ((hsame htag).context_eq_iff defines).2 hnames

namespace LawfulStore

variable {σ : Type} [Sources (Routine σ)] [Journal (Routine σ)] [MonadStateOf Supply (Routine σ)]
  (D : LawfulStore σ) {l l' : Library} {p p' : Project} {s t : σ}

theorem exists_of_updated {u : UpdateInputs} (hu : inputsAt l p s = some u) {report : UpdateReport}
    (hreport : (exec (l.update p D.store) s).1 = .ok report) {f : ShaderFunction}
    (hf : f ∈ u.functions) (honce : (u.functions.map (·.name)).count f.name = 1)
    (hupdated : f.name ∈ report.updated) :
    ∃ g : Generation, g.Sound ∧ g.inputs = u ∧ g.function = f
      ∧ D.artifact (exec (l.update p D.store) s).2 f.name = some g.artifact.record := by
  obtain ⟨_, _, -, h⟩ := D.exists_updated hu
  rw [hreport] at h
  exact h.exists_of_updated rfl hf honce hupdated

/-- A function is generated under one configuration, and an update under another one that reads the
same skips it. It keeps its artifact, with the same fingerprint unless the header has it from a
name, and under the same options. The artifact is what would be generated now, with its own
identifiers, if and only if it has the fingerprint and the names are the same too: that of the
library, the path of the source and the paths of the includes. -/
theorem reproduces_iff_of_reconfigured {fs : List ShaderFunction}
    {includes includes' : List Include} {defines : List Define} {texts : List String}
    {u u' : UpdateInputs}
    (hu : u = l.inputs fs includes defines texts) (hu' : u' = l'.inputs fs includes' defines texts)
    (hreads : inputsAt l p s = some u) (hreads' : inputsAt l' p' t = some u')
    {report report' : UpdateReport} (hreport : (exec (l.update p D.store) s).1 = .ok report)
    (hreport' : (exec (l'.update p' D.store) t).1 = .ok report') {f : ShaderFunction} (hf : f ∈ fs)
    (honce : (fs.map (·.name)).count f.name = 1) (hupdated : f.name ∈ report.updated)
    (ht : D.artifact t f.name = D.artifact (exec (l.update p D.store) s).2 f.name)
    (hskip : f.name ∈ report'.skipped) (hfree : CollisionFree (UpdateInputs.contents [u, u'])) :
    ∃ a, D.artifact (exec (l'.update p' D.store) t).2 f.name = some a
      ∧ (a.fingerprint = .string (u'.tag f)
        ∨ contains (Artifact.header u.context "") (u'.tag f) = true)
      ∧ (a.fingerprint = .string (u'.tag f) → l.SameOptions l')
      ∧ (u'.Reproduces f a
        ↔ a.fingerprint = .string (u'.tag f) ∧ l.SameNames l' includes includes') := by
  have hfu : f ∈ u.functions := by rw [hu]; exact hf
  have hfu' : f ∈ u'.functions := by rw [hu']; exact hf
  obtain ⟨g, hg, hgu, rfl, hmade⟩ := D.exists_of_updated hreads hreport hfu
    (by rw [hu]; exact honce) hupdated
  obtain ⟨hkept, a, ha, hheader⟩ := D.exists_of_skipped hreads' hreport' hfu'
    (by rw [hu']; exact honce) hskip
  obtain rfl : g.artifact.record = a := by
    rw [ht, hmade] at ha
    exact Option.some.inj ha
  have hcontains : contains (Artifact.header g.inputs.context g.tag) (u'.tag g.function) = true :=
    Except.ok.inj hheader
  have hsame : g.tag = u'.tag g.function → l.SameOptions l' := by
    intro htag
    rw [Generation.tag, hgu] at htag
    have hcontent : u.content g.function = u'.content g.function :=
      hfree _ (UpdateInputs.content_mem_contents List.mem_cons_self hfu) _
        (UpdateInputs.content_mem_contents (List.mem_cons_of_mem _ List.mem_cons_self) hfu')
        (Fingerprint.hash_eq_of_ofFunction_eq htag)
    subst hu hu'
    exact Library.sameOptions_of_content_eq ((reads_of_inputsAt hreads).scanned hfu) hcontent
  have hiff : g.artifact.record.fingerprint = .string (u'.tag g.function)
      ↔ g.tag = u'.tag g.function := ⟨Json.string.inj, congrArg Json.string⟩
  refine ⟨g.artifact.record, hkept.trans ha, ?_, hsame ∘ hiff.1, ?_⟩
  · rw [← hgu]
    exact (Artifact.contains_header hcontains).imp_left hiff.2
  · rw [hiff]
    exact Generation.reproduces_iff hg (hgu.trans hu) hu' hsame

end LawfulStore

/-! ## A source that moves -/

namespace MovedSource

def library : Library := { name := "Lib", file := "lib.hlsl" }

/-- The source has another path now, and the same text. -/
def moved : Library := { library with file := "moved.hlsl" }

def project : Project := { root := .fileSystem }

def text : String := "void Foo(out float R) \x7b R = 1; \x7d"

def function : ShaderFunction := ⟨0, "", "void", "Foo", ["out float R"], " R = 1; "⟩

def first : Ledger := .ofSource text

def second : Ledger :=
  .updated library project first { disk := MemoryDisk.put {} ["moved.hlsl"] (.file text.toUTF8) }

def inputs (l : Library) : UpdateInputs := l.inputs [function] [] (Directive.defines text) []

theorem inputsAt_first : LawfulStore.inputsAt library project first = some (inputs library) := by
  decide +kernel

theorem inputsAt_second : LawfulStore.inputsAt moved project second = some (inputs moved) := by
  decide +kernel

theorem signature_function : ∃ s, function.signature = .ok s :=
  exists_ok_of_isSome (by decide +kernel)

theorem exists_highest {l : Library} {f : ShaderFunction} (hf : f ∈ (inputs l).functions) :
    ∃ n, TexCoordinate.highest f.body = .ok n := by
  obtain rfl := List.mem_singleton.1 hf
  exact ⟨none, TexCoordinate.highest_of_references_eq_nil (by decide)⟩

theorem artifact_second : Ledger.recording.lawful.artifact second
    = Ledger.recording.lawful.artifact
      (exec (library.update project Ledger.recording.store) first).2 :=
  congrArg StoreView.artifacts (Ledger.view_updated ..)

/-- The options are the same, so both updates digest the same text. -/
theorem content_moved : (inputs moved).content function = (inputs library).content function := rfl

theorem collisionFree : CollisionFree (UpdateInputs.contents [inputs library, inputs moved]) := by
  have hall : ∀ t ∈ UpdateInputs.contents [inputs library, inputs moved],
      t = (inputs library).content function := by
    intro t ht
    simp only [UpdateInputs.contents, List.flatMap_cons, List.flatMap_nil, List.append_nil,
      List.mem_append] at ht
    rcases ht with ht | ht <;> obtain rfl := List.mem_singleton.1 ht
    · rfl
    · exact content_moved
  intro s hs t ht _
  rw [hall s hs, hall t ht]

/-- The first update generates the function. -/
theorem exists_updated : ∃ report,
    (exec (library.update project Ledger.recording.lawful.store) first).1 = .ok report
      ∧ function.name ∈ report.updated := by
  obtain ⟨report, hreport⟩ := Ledger.recording.exists_report inputsAt_first
    (Ledger.typed_ofSource _ _) fun f hf _ => exists_highest hf
  obtain ⟨_, h⟩ := Ledger.recording.exists_update inputsAt_first
  rw [hreport] at h
  have hdone := h.done_of_signature List.mem_cons_self signature_function
  refine ⟨report, hreport, hdone.resolve_right ?_⟩
  intro hskip
  obtain ⟨-, a, ha, -⟩ := Ledger.recording.lawful.exists_of_skipped inputsAt_first hreport
    List.mem_cons_self (by decide) hskip
  cases ha

/-- The second update finds the fingerprint and skips the function. -/
theorem exists_skipped {report : UpdateReport}
    (hreport : (exec (library.update project Ledger.recording.store) first).1 = .ok report)
    (hupdated : function.name ∈ report.updated) : ∃ report',
    (exec (moved.update project Ledger.recording.lawful.store) second).1 = .ok report'
      ∧ function.name ∈ report'.skipped := by
  have hview : Ledger.recording.view second
      = Ledger.recording.view (exec (library.update project Ledger.recording.store) first).2 :=
    Ledger.view_updated ..
  have htyped : (Ledger.recording.view second).Typed moved.name :=
    hview ▸ Ledger.recording.typed_update inputsAt_first (Ledger.typed_ofSource _ _) hreport
  obtain ⟨report', hreport'⟩ := Ledger.recording.exists_report inputsAt_second htyped
    fun f hf _ => exists_highest hf
  obtain ⟨_, h⟩ := Ledger.recording.exists_update inputsAt_first
  obtain ⟨_, h'⟩ := Ledger.recording.exists_update inputsAt_second
  rw [hreport, ← hview] at h
  rw [hreport'] at h'
  have htag : (inputs moved).tag function = (inputs library).tag function :=
    congrArg (fun t => Fingerprint.mark ++ Digest.hash t) content_moved
  have hcurrent : ArtifactRecord.isCurrent ((Ledger.recording.view second).artifacts function.name)
      ((inputs moved).tag function) = .ok true := by
    rw [htag]
    refine h.current_of_done (fun f hf _ => ?_) (by simp [UpdateReport.Done]) (.inl hupdated)
    rw [List.mem_singleton.1 hf]
  obtain ⟨-, hskipped⟩ := h'.passes fun f hf _ => by
    rw [List.mem_singleton.1 hf]
    exact hcurrent
  exact ⟨report', hreport', hskipped function List.mem_cons_self rfl⟩

theorem exists_skip : ∃ report report',
    (exec (library.update project Ledger.recording.lawful.store) first).1 = .ok report
      ∧ (exec (moved.update project Ledger.recording.lawful.store) second).1 = .ok report'
      ∧ function.name ∈ report.updated ∧ function.name ∈ report'.skipped := by
  obtain ⟨report, hreport, hupdated⟩ := exists_updated
  obtain ⟨report', hreport', hskip⟩ := exists_skipped hreport hupdated
  exact ⟨report, report', hreport, hreport', hupdated, hskip⟩

theorem not_sameNames : ¬ library.SameNames moved [] [] := fun h => absurd h.file (by decide)

theorem reproduces_iff_of_reconfigured_of_moved : ∃ report report',
    (exec (library.update project Ledger.recording.lawful.store) first).1 = .ok report
      ∧ (exec (moved.update project Ledger.recording.lawful.store) second).1 = .ok report'
      ∧ function.name ∈ report.updated ∧ function.name ∈ report'.skipped
      ∧ CollisionFree (UpdateInputs.contents [inputs library, inputs moved])
      ∧ ∃ a, Ledger.recording.lawful.artifact
          (exec (moved.update project Ledger.recording.lawful.store) second).2 function.name
            = some a
        ∧ (a.fingerprint = .string ((inputs moved).tag function) → library.SameOptions moved)
        ∧ ((inputs moved).Reproduces function a
          ↔ a.fingerprint = .string ((inputs moved).tag function)
            ∧ library.SameNames moved [] [])
        ∧ ¬ (inputs moved).Reproduces function a := by
  obtain ⟨report, report', hreport, hreport', hupdated, hskip⟩ := exists_skip
  have hinputs : inputs library = library.inputs [function] [] (Directive.defines text) [] := rfl
  have hinputs' : inputs moved = moved.inputs [function] [] (Directive.defines text) [] := rfl
  obtain ⟨a, ha, -, hoptions, hreproduces⟩ :=
    Ledger.recording.lawful.reproduces_iff_of_reconfigured hinputs hinputs' inputsAt_first
      inputsAt_second hreport hreport' List.mem_cons_self (by decide) hupdated
      (congrFun artifact_second _) hskip collisionFree
  exact ⟨report, report', hreport, hreport', hupdated, hskip, collisionFree, a, ha, hoptions,
    hreproduces, fun h => not_sameNames (hreproduces.1 h).2⟩

/-- A skip can leave a stale artifact: it still points at the path that the source had. -/
theorem not_forall_reconfigured_reproduces :
    ¬ ∀ (l l' : Library) (p p' : Project) (s t : Ledger) (fs : List ShaderFunction)
        (includes includes' : List Include) (defines : List Define) (texts : List String)
        (u u' : UpdateInputs) (report report' : UpdateReport) (f : ShaderFunction),
      u = l.inputs fs includes defines texts → u' = l'.inputs fs includes' defines texts →
      LawfulStore.inputsAt l p s = some u → LawfulStore.inputsAt l' p' t = some u' →
      (exec (l.update p Ledger.recording.lawful.store) s).1 = .ok report →
      (exec (l'.update p' Ledger.recording.lawful.store) t).1 = .ok report' →
      f ∈ fs → (fs.map (·.name)).count f.name = 1 → f.name ∈ report.updated →
      Ledger.recording.lawful.artifact t f.name = Ledger.recording.lawful.artifact
        (exec (l.update p Ledger.recording.lawful.store) s).2 f.name →
      f.name ∈ report'.skipped → CollisionFree (UpdateInputs.contents [u, u']) →
      ∃ a, Ledger.recording.lawful.artifact
          (exec (l'.update p' Ledger.recording.lawful.store) t).2 f.name = some a
        ∧ u'.Reproduces f a := by
  intro h
  obtain ⟨report, report', hreport, hreport', hupdated, hskip⟩ := exists_skip
  obtain ⟨a, ha, hreproduces⟩ := h library moved project project first second [function] [] []
    (Directive.defines text) [] (inputs library) (inputs moved) report report' function rfl rfl
    inputsAt_first inputsAt_second hreport hreport' List.mem_cons_self (by decide) hupdated
    (congrFun artifact_second _) hskip collisionFree
  obtain ⟨g, -, hgu, -, hmade⟩ := Ledger.recording.lawful.exists_of_updated inputsAt_first hreport
    List.mem_cons_self (by decide) hupdated
  obtain ⟨hkept, -⟩ := Ledger.recording.lawful.exists_of_skipped inputsAt_second hreport'
    List.mem_cons_self (by decide) hskip
  obtain rfl : g.artifact.record = a := by
    rw [hkept, artifact_second] at ha
    exact Option.some.inj (hmade.symm.trans ha)
  have hsource : g.artifact.record.sourceFile = .string (inputs library).context.sourceFile := by
    rw [← hgu]
    rfl
  rw [hreproduces.names_eq.2] at hsource
  exact absurd (Json.string.inj hsource) (by decide)

end MovedSource

end ShaderGraph
