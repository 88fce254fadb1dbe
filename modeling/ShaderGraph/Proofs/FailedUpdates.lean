import ShaderGraph.Proofs.Watches

/-!
# Updates that fail

An update that ends with an error of the whole source establishes the watches of its library anew, as
every update does, from the includes of its report. They are in the report only if the source could be
read and scanned. So after any other error none of them is watched any more, and a change that mends
an include is not noticed (`Scene.flag_iff_of_error`).
-/

namespace ShaderGraph

namespace Routine

variable {σ α β : Type}

theorem Yields.foldlM {f : β → α → Routine σ β} {Q : β → Prop} (hf : ∀ b a, Q b → Yields (f b a) Q) :
    ∀ (as : List α) (b : β), Q b → Yields (as.foldlM f b) Q
  | [], _, hb => yields_pure hb
  | a :: as, b, hb => by
    rw [List.foldlM_cons]
    exact Yields.bind (hf b a hb) fun c hc => Yields.foldlM hf as c hc

end Routine

open Routine

/-! ## How updates fail -/

section

variable {σ : Type} [Journal (Routine σ)] [MonadStateOf Supply (Routine σ)]

theorem yields_updateFunction_error (store : ArtifactStore (Routine σ)) (u : UpdateInputs)
    (source : String) (p : Progress) (f : ShaderFunction) :
    Yields (updateFunction store u source p f) fun q => q.report.error = p.report.error := by
  intro s q hq
  have hcourse := course_updateFunction store u source p f s
  rw [hq] at hcourse
  obtain ⟨p', hp', hq'⟩ := hcourse.exists_of_ok
  rw [← Progress.register_report hp']
  obtain rfl | ⟨message, rfl⟩ | rfl := hq' <;> rfl

/-- The functions bring no error of the whole source. -/
theorem yields_updateFunctions_error (store : ArtifactStore (Routine σ)) (u : UpdateInputs)
    (source : String) (r : UpdateReport) :
    Yields (updateFunctions store u source r) fun r' => r'.error = r.error := by
  have hstep (p : Progress) (f : ShaderFunction) (hp : p.report.error = r.error) :
      Yields (updateFunction store u source p f) fun q => q.report.error = r.error :=
    fun s q hq => (yields_updateFunction_error store u source p f s q hq).trans hp
  unfold updateFunctions
  refine Yields.bind yields_of_result fun manifest _ => Yields.bind (Yields.foldlM hstep _ _ rfl)
    fun p hp => Yields.bind (yields_orFault _ _) fun q hq => ?_
  have hreport : q.report.error = r.error := by
    rw [Progress.removeOthers_report hq]
    exact hp
  cases q.changed with
  | false => exact yields_pure hreport
  | true => exact Yields.bind yields_of_result fun _ _ => yields_pure hreport

variable [Sources (Routine σ)]

/-- How an update from a state on ends with an error of the whole source. -/
inductive Library.Fails (p : Project) (l : Library) (s : σ) : UpdateReport → Prop
  | missing {t : σ}
    (hfile : exec (Sources.isFile (p.sourcePath l) : Routine σ Bool) s = (.ok false, t)) :
    Fails p l s { library := l.name, error := some (l.name ++ ": invalid path " ++ l.file) }
  | unreadable {t u : σ} {e : Failure}
    (hfile : exec (Sources.isFile (p.sourcePath l) : Routine σ Bool) s = (.ok true, t))
    (hread : exec (readSource (p.sourcePath l) : Routine σ (Except Failure String)) t
      = (.ok (.error e), u)) :
    Fails p l s { library := l.name, error := some e.text }
  | unscanned {t u : σ} {text : String} {e : ScanError}
    (hfile : exec (Sources.isFile (p.sourcePath l) : Routine σ Bool) s = (.ok true, t))
    (hread : exec (readSource (p.sourcePath l) : Routine σ (Except Failure String)) t
      = (.ok (.ok text), u))
    (hscan : ShaderFunction.scan text = .error e) :
    Fails p l s
      { library := l.name, error := some (e.toFailure.inFile (p.sourcePath l).toText).text }
  /-- The includes of the source are known, and one of them cannot be read. -/
  | stuck {t u v w : σ} {text : String} {functions : List ShaderFunction} {current : DiskPath}
    {roots : VirtualRoots} {includes : List Include} {e : Failure}
    (hfile : exec (Sources.isFile (p.sourcePath l) : Routine σ Bool) s = (.ok true, t))
    (hread : exec (readSource (p.sourcePath l) : Routine σ (Except Failure String)) t
      = (.ok (.ok text), u))
    (hscan : ShaderFunction.scan text = .ok functions) (hroots : p.roots current = .ok roots)
    (hincludes : Include.ofSource roots current (p.sourcePath l) text = .ok includes)
    (hstuck : exec (readIncludes includes : Routine σ (Except Failure (List String))) v
      = (.ok (.error e), w)) :
    Fails p l s { library := l.name, includes := includes, error := some e.text }

variable {p : Project} {l : Library} {s t : σ} {r : UpdateReport}

omit [MonadStateOf Supply (Routine σ)] in
theorem Library.fails_of_gather
    (h : exec (l.gather p : Routine σ (UpdateReport ⊕ UpdateInputs × UpdateReport)) s = (.ok (.inl r), t)) :
    l.Fails p s r := by
  have habort {r₀ : UpdateReport} {message : String} {v : σ}
      (h : exec (do return Sum.inl (← r₀.abort (p.sourcePath l) message) :
        Routine σ (UpdateReport ⊕ UpdateInputs × UpdateReport)) v = (.ok (.inl r), t)) :
      r = { r₀ with error := some message } := by
    obtain ⟨r', w, habort, hend⟩ := exists_of_exec_bind h
    cases hend
    exact (yields_abort _ _ _).of_exec habort
  unfold gather at h
  obtain ⟨b, s₁, hfile, h⟩ := exists_of_exec_bind h
  cases b with
  | false => exact habort h ▸ .missing hfile
  | true =>
    simp only [Bool.not_true, Bool.false_eq_true, ↓reduceIte] at h
    obtain ⟨source, s₂, hread, h⟩ := exists_of_exec_bind h
    cases source with
    | error e => exact habort h ▸ .unreadable hfile hread
    | ok text =>
      simp only [] at h
      cases hscan : ShaderFunction.scan text with
      | error e =>
        rw [hscan] at h
        exact habort h ▸ .unscanned hfile hread hscan
      | ok functions =>
        rw [hscan] at h
        obtain ⟨current, s₃, -, h⟩ := exists_of_exec_bind h
        obtain ⟨roots, s₄, hroots, h⟩ := exists_of_exec_bind h
        obtain ⟨includes, s₅, hincludes, h⟩ := exists_of_exec_bind h
        obtain ⟨-, s₆, -, h⟩ := exists_of_exec_bind h
        obtain ⟨texts, s₇, hstuck, h⟩ := exists_of_exec_bind h
        cases texts with
        | ok texts => cases h
        | error e =>
          exact habort h ▸ .stuck hfile hread hscan ((yields_orFault _ _).of_exec hroots)
            ((yields_orFault _ _).of_exec hincludes) hstuck

/-- An update that ends with an error of the whole source fails before it comes to the functions. -/
theorem Library.fails_of_update {store : ArtifactStore (Routine σ)}
    (h : exec (l.update p store) s = (.ok r, t)) (herror : r.error.isSome = true) : l.Fails p s r := by
  rw [Library.update_eq] at h
  obtain ⟨found, u, hgather, hproceed⟩ := exists_of_exec_bind h
  cases found with
  | inl r' =>
    cases hproceed
    exact fails_of_gather hgather
  | inr found =>
    obtain ⟨inputs, r'⟩ := found
    obtain ⟨⟨includes, rfl⟩, -⟩ := (l.yields_gather p).of_exec hgather
    have hnone := (yields_updateFunctions_error _ _ _ _).of_exec hproceed
    rw [hnone] at herror
    cases herror

end

/-! ## What is watched after that -/

/-- A library depends on a file, given by its absolute path, if its source has some includes. -/
def Project.DependsOn (p : Project) (current : DiskPath) (l : Library) (includes : List Include)
    (f : String) : Prop :=
  (l.updateOnFileChange = true ∧ ∃ source, current.resolve (p.sourcePath l) = .ok source
    ∧ f = PathText.absolute current.toText source.toText)
  ∨ l.updateOnIncludeChange = true ∧ ∃ i ∈ includes, ∃ path, i.diskPath = some path ∧ path ≠ ""
    ∧ f = PathText.absolute current.toText (DiskPath.ofString path).toText

theorem mem_sortedSet {a : String} {as : List String} : a ∈ sortedSet as ↔ a ∈ as := by
  rw [sortedSet, List.mem_mergeSort, List.mem_eraseDups]

/-- The includes that have a file. -/
theorem mem_filterMap_diskPath {includes : List Include} {d : DiskPath} :
    d ∈ includes.filterMap (fun i => i.diskPath.bind fun path =>
        if path.isEmpty then none else some (DiskPath.ofString path))
      ↔ ∃ i ∈ includes, ∃ path, i.diskPath = some path ∧ path ≠ "" ∧ d = DiskPath.ofString path := by
  rw [List.mem_filterMap]
  refine exists_congr fun i => and_congr_right fun _ => ?_
  rw [Option.bind_eq_some_iff]
  refine exists_congr fun path => and_congr_right fun _ => ?_
  rw [Option.ite_none_left_eq_some, Option.some.injEq, String.isEmpty_iff, eq_comm (a := d)]

theorem Project.mem_watchedFiles_iff {p : Project} {current : DiskPath} {l : Library}
    {includes : List Include} {files : List DiskPath} {f : String}
    (h : p.watchedFiles current l (some includes) = .ok files) :
    f ∈ sortedSet (files.map fun d => PathText.absolute current.toText d.toText)
      ↔ p.DependsOn current l includes f := by
  have hincludes (d : DiskPath) : (d ∈ if l.updateOnIncludeChange then includes.filterMap fun i =>
        i.diskPath.bind fun path => if path.isEmpty then none else some (DiskPath.ofString path)
      else []) ↔ l.updateOnIncludeChange = true ∧ ∃ i ∈ includes, ∃ path, i.diskPath = some path
        ∧ path ≠ "" ∧ d = DiskPath.ofString path := by
    split_ifs with hupdate
    · rw [mem_filterMap_diskPath, and_iff_right hupdate]
    · simp [hupdate]
  have hfiles (d : DiskPath) : d ∈ files
      ↔ (l.updateOnFileChange = true ∧ current.resolve (p.sourcePath l) = .ok d)
        ∨ l.updateOnIncludeChange = true ∧ ∃ i ∈ includes, ∃ path, i.diskPath = some path
          ∧ path ≠ "" ∧ d = DiskPath.ofString path := by
    unfold watchedFiles at h
    cases hsource : l.updateOnFileChange with
    | false =>
      rw [hsource] at h
      obtain rfl := Except.ok.inj h
      simpa using hincludes d
    | true =>
      rw [hsource, if_pos rfl] at h
      cases hresolve : current.resolve (p.sourcePath l) with
      | error e =>
        rw [hresolve] at h
        cases h
      | ok source =>
        rw [hresolve] at h
        obtain rfl := Except.ok.inj h
        rw [List.mem_append, Option.getD_some, hincludes, List.mem_singleton, eq_comm]
        simp
  rw [mem_sortedSet, List.mem_map]
  unfold DependsOn
  constructor
  · rintro ⟨d, hd, hf⟩
    rcases (hfiles d).1 hd with ⟨hupdate, hsource⟩ | ⟨hupdate, i, hi, path, hpath, hne, hfile⟩
    · exact .inl ⟨hupdate, d, hsource, hf.symm⟩
    · exact .inr ⟨hupdate, i, hi, path, hpath, hne, hfile ▸ hf.symm⟩
  · rintro (⟨hupdate, d, hsource, hf⟩ | ⟨hupdate, i, hi, path, hpath, hne, hf⟩)
    · exact ⟨d, (hfiles d).2 (.inl ⟨hupdate, hsource⟩), hf.symm⟩
    · exact ⟨_, (hfiles _).2 (.inr ⟨hupdate, i, hi, path, hpath, hne, rfl⟩), hf.symm⟩

namespace Scene

variable {σ : Type} [Disk (Routine σ)] [Journal (Routine σ)] [Clock (Routine σ)]
  [MonadStateOf Supply (Routine σ)] [MonadStateOf Watcher (Routine σ)] [Observer (Routine σ)]
  {S : Scene σ} {s t v : σ} {hist : List (Happening σ)} {l : Library} {r : UpdateReport} {name : String}

/-- What is done to the watches of a library: they are given up, and no fault may come before they are
established anew. -/
def Renews (name : String) (x : Happening σ) : Prop :=
  x = .broke name ∨ ∃ files directories t, x = .refreshed name files directories t

theorem Leads.later (h : S.Leads s hist t) (halone : ∀ x ∈ hist, ¬Renews name x) :
    (S.books s).Later name (S.books t) := by
  induction h with
  | here => exact .refl
  | step _ hstep ih =>
    rw [List.forall_mem_append] at halone
    obtain ⟨hbefore, hnew⟩ := halone
    exact (ih hbefore).trans (hstep.later (fun h => hnew _ h (.inl rfl)) fun _ _ _ h =>
      hnew _ h (.inr ⟨_, _, _, rfl⟩))

theorem fails_of_bring (h : exec (Watcher.bring l : Routine σ UpdateReport) s = (.ok r, t))
    (herror : r.error.isSome = true) :
    ∃ u, (S.stage s).Waits (S.stage u) ∧ l.Fails (S.stage s).watcher.project u r := by
  obtain ⟨u, hwaits, hlook⟩ := S.look s
  unfold Watcher.bring at h
  rw [exec_bind, hlook] at h
  refine ⟨u, hwaits, ?_⟩
  rw [← hwaits.agrees.project]
  exact Library.fails_of_update h herror

/-- The files of a library after an update are those that it depends on, by the includes of the report. -/
theorem exists_files_of_update (h : exec (Watcher.update l : Routine σ UpdateReport) s = (.ok r, t)) :
    ∃ (current : DiskPath) (files : List String), (S.books t).files l.name = some files
      ∧ ∀ f, f ∈ files ↔ (S.stage s).watcher.project.DependsOn current l r.includes f := by
  obtain ⟨u, files, v, hbring, hsettle, hwatch⟩ := exists_of_exec_update h
  have hgoes : S.Goes [] s u := (along_bring_goes l).of_exec hbring
  have hproject : (S.stage u).watcher.project = (S.stage s).watcher.project := hgoes.project
  obtain ⟨_, he, _⟩ | ⟨files', current, he, hfiles, hv⟩ := books_settle (S := S) hsettle <;> cases he
  obtain ⟨_, he, _⟩ | ⟨directories, w, -, -, ht⟩ := books_watch (S := S) hwatch
  · cases he
  · refine ⟨current, _, ?_, fun f => Project.mem_watchedFiles_iff (hproject ▸ hfiles)⟩
    rw [ht, hv]
    simp [Books.take, Books.hold, Books.know]

/-- After an update that has ended with an error of the whole source, and until the next one of the
library, an event raises the flag of the library exactly if it is about the source or about an include
that the report has. -/
theorem flag_iff_of_error (hupdate : exec (Watcher.update l : Routine σ UpdateReport) s = (.ok r, t))
    (herror : r.error.isSome = true) (hleads : S.Leads t hist v)
    (halone : ∀ x ∈ hist, ¬Renews l.name x) :
    (∃ u, (S.stage s).Waits (S.stage u) ∧ l.Fails (S.stage s).watcher.project u r)
    ∧ ∃ (current : DiskPath) (h : Handler), (S.stage v).watcher.handlers.get? l.name = some h
      ∧ ∀ f, (f ∈ h.files ↔ (S.stage s).watcher.project.DependsOn current l r.includes f)
        ∧ (((S.stage v).watcher.receive l.name f).2.isPending l.name = true
          ↔ (S.stage v).watcher.isPending l.name = true
            ∨ (S.stage s).watcher.project.DependsOn current l r.includes f) := by
  obtain ⟨u, -, -, hbring, -⟩ := exists_of_exec_update hupdate
  obtain ⟨current, files, hfiles, hmem⟩ := exists_files_of_update (S := S) hupdate
  have hknown : (S.books v).files l.name = some files := by
    rw [(hleads.later halone).files, hfiles]
  refine ⟨fails_of_bring hbring herror, current, ?_⟩
  cases hget : (S.stage v).watcher.handlers.get? l.name with
  | none => simp [books, Stage.books, Watcher.plan, hget] at hknown
  | some h =>
    have hhandler : h.files = files := by
      simpa [books, Stage.books, Watcher.plan, hget] using hknown
    refine ⟨h, rfl, fun f => ⟨hhandler ▸ hmem f, ?_⟩⟩
    rw [Watcher.isPending_receive l.name hget, hhandler, hmem]
    simp

end Scene

/-- A theatre with another disk: programs that are no part of it have written files. -/
def Theatre.withDisk (t : Theatre) (d : MemoryDisk) : Theatre :=
  { t with world := { t.world with disk := d } }

theorem Theatre.stage_withDisk (t : Theatre) (d : MemoryDisk) :
    Theatre.scene.stage (t.withDisk d) = Theatre.scene.stage t := rfl

namespace BrokenSource

def library : Library := { name := "L", file := "l.hlsl", updateOnFileChange := false }

def project : Project :=
  { root := .fileSystem, virtualRoots := [("/S", "s")], libraries := [library] }

def disk : MemoryDisk where
  entries := [(["l.hlsl"], .file "#include \"/S/c.hlsl\"\n".toUTF8), (["s"], .directory),
    (["c.hlsl", "s"], .file "".toUTF8)]

def theatre : Theatre := { world := { disk := disk, watcher := { project := project } } }

/-- The library has been updated. -/
def first : Theatre := (exec (Watcher.update library : Routine Theatre UpdateReport) theatre).2

/-- The source has been edited and does not scan. -/
def edited : Theatre := first.withDisk (first.world.disk.put ["l.hlsl"] (.file ")".toUTF8))

def failed : Except Fault UpdateReport × Theatre := exec (Watcher.update library) edited

theorem updates_of_theatre :
    (exec (Watcher.update library : Routine Theatre UpdateReport) theatre).1.toOption.isSome
    ∧ (edited.world.watcher.handlers.get? "L").map (·.files) = some ["/s/c.hlsl"]
    ∧ failed.1.toOption.map (fun r => (r.error.isSome, r.includes)) = some (true, [])
    ∧ (failed.2.world.watcher.handlers.get? "L").map (·.files) = some []
    ∧ failed.2.world.watcher.isPending "L" = false := by
  decide +kernel

theorem exists_reached : ∃ hist, Theatre.scene.Reached hist edited := by
  obtain ⟨hfirst, -⟩ := updates_of_theatre
  obtain ⟨_, hfirst⟩ : ∃ r, exec (Watcher.update library : Routine Theatre UpdateReport) theatre
    = (.ok r, first) := exists_exec_of_isSome hfirst
  have hfresh : Theatre.scene.Reached [] theatre := ⟨theatre, rfl, rfl, .here⟩
  have hlibraries : (Theatre.scene.stage theatre).watcher.project.libraries = [library] := rfl
  obtain ⟨_, _, hstep⟩ := Scene.exists_step_of_update (S := Theatre.scene)
    (hlibraries ▸ List.mem_cons_self) hfirst
  have hedited : Theatre.scene.Step first (Theatre.scene.came first edited) edited := by
    refine .waited ?_
    unfold edited
    rw [Theatre.stage_withDisk]
    exact .still
  exact ⟨_, (hfresh.leads hstep.leads).leads hedited.leads⟩

/-- The library has been updated again, and the update has failed. -/
theorem exists_failed : ∃ r t, exec (Watcher.update library : Routine Theatre UpdateReport) edited
      = (.ok r, t) ∧ r.error.isSome = true ∧ r.includes = []
    ∧ (t.world.watcher.handlers.get? "L").map (·.files) = some []
    ∧ t.world.watcher.isPending "L" = false := by
  obtain ⟨-, -, hfailed, hafter, hpending⟩ := updates_of_theatre
  unfold failed at hfailed hafter hpending
  rcases hupdate : exec (Watcher.update library : Routine Theatre UpdateReport) edited with ⟨result, t⟩
  rw [hupdate] at hfailed hafter hpending
  obtain ⟨r, hr, hreport⟩ := Option.map_eq_some_iff.1 hfailed
  obtain ⟨herror, hincludes⟩ := Prod.mk.inj hreport
  cases result with
  | error e => cases hr
  | ok r' =>
    obtain rfl : r' = r := Option.some.inj hr
    exact ⟨r', t, rfl, herror, hincludes, hafter, hpending⟩

/-- An include that was watched when the source was broken off is watched no more after that, and its
changes are no reason for an update. -/
theorem flag_iff_of_unscanned : ∃ hist r t, Theatre.scene.Reached hist edited
    ∧ exec (Watcher.update library : Routine Theatre UpdateReport) edited = (.ok r, t)
    ∧ r.error.isSome = true ∧ (edited.world.watcher.handlers.get? "L").map (·.files) = some ["/s/c.hlsl"]
    ∧ (t.world.watcher.receive "L" "/s/c.hlsl").2.isPending "L" = false := by
  obtain ⟨hist, hreached⟩ := exists_reached
  obtain ⟨r, t, hupdate, herror, hincludes, -, hpending⟩ := exists_failed
  obtain ⟨-, current, h, -, hflag⟩ := Scene.flag_iff_of_error (S := Theatre.scene) hupdate herror .here
    (List.forall_mem_nil _)
  refine ⟨hist, r, t, hreached, hupdate, herror, updates_of_theatre.2.1, ?_⟩
  rw [← Bool.not_eq_true]
  refine fun hraised => ?_
  rcases (hflag "/s/c.hlsl").2.1 hraised with hraised | ⟨hsource, -⟩ | ⟨-, i, hi, -⟩
  · exact absurd (hpending.symm.trans hraised) (by decide)
  · cases hsource
  · rw [hincludes] at hi
    cases hi

/-- The includes that a library has watched are not always watched after an update that has ended with
an error of the whole source. -/
theorem not_forall_still_watched : ¬∀ (hist : List (Happening Theatre)) (s t : Theatre) (l : Library)
    (r : UpdateReport), Theatre.scene.Reached hist s → l.updateOnIncludeChange = true →
    l.updateOnFileChange = false →
    exec (Watcher.update l : Routine Theatre UpdateReport) s = (.ok r, t) → r.error.isSome = true →
    ∀ h h', s.world.watcher.handlers.get? l.name = some h → t.world.watcher.handlers.get? l.name = some h' →
      h.files ⊆ h'.files := by
  intro hall
  obtain ⟨hist, hreached⟩ := exists_reached
  obtain ⟨r, t, hupdate, herror, -, hafter, -⟩ := exists_failed
  obtain ⟨h, hget, hfiles⟩ := Option.map_eq_some_iff.1 updates_of_theatre.2.1
  obtain ⟨h', hget', hfiles'⟩ := Option.map_eq_some_iff.1 hafter
  have hsubset := hall hist edited t library r hreached rfl rfl hupdate herror h h' hget hget'
  rw [hfiles, hfiles'] at hsubset
  exact absurd (hsubset List.mem_cons_self) List.not_mem_nil

end BrokenSource

end ShaderGraph
