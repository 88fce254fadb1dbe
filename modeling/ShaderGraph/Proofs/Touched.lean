import ShaderGraph.Proofs.Stopped

/-!
# What updates leave alone

An update saves the artifacts of the functions that it reports as updated, and at most once after
them the manifest of its library; all else in the store stays as it is. A function without a
signature takes no part in this: without it the same artifacts are saved, with the same identifiers.
-/

namespace ShaderGraph

open Json Routine

/-- How often a report tells of a function. -/
def UpdateReport.timesTold (r : UpdateReport) (name : String) : Nat :=
  r.updated.count name + r.skipped.count name + if name ∈ r.failed.keys then 1 else 0

namespace Progress

variable {p : Progress} {n name : String}

theorem count_append_name (ns : List String) :
    (ns ++ [n]).count name = ns.count name + if n = name then 1 else 0 := by
  simp [List.count_singleton]

theorem timesTold_skipped : (p.skipped n).report.timesTold name
    = p.report.timesTold name + if n = name then 1 else 0 := by
  change p.report.updated.count name + (p.report.skipped ++ [n]).count name
    + (if name ∈ p.report.failed.keys then 1 else 0) = _
  rw [count_append_name, UpdateReport.timesTold]
  omega

theorem timesTold_updated : (p.updated n).report.timesTold name
    = p.report.timesTold name + if n = name then 1 else 0 := by
  change (p.report.updated ++ [n]).count name + p.report.skipped.count name
    + (if name ∈ p.report.failed.keys then 1 else 0) = _
  rw [count_append_name, UpdateReport.timesTold]
  omega

theorem timesTold_failed_le (message : String) : (p.failed n message).report.timesTold name
    ≤ p.report.timesTold name + if n = name then 1 else 0 := by
  change p.report.updated.count name + p.report.skipped.count name
    + (if name ∈ (p.report.failed.insert n message).keys then 1 else 0) ≤ _
  have hkeys : name ∈ (p.report.failed.insert n message).keys →
      name ∈ p.report.failed.keys ∨ n = name := by
    intro hname
    rw [OrderedMap.keys_insert] at hname
    split_ifs at hname
    · exact .inl hname
    · exact (List.mem_append.1 hname).imp_right fun hname => (List.mem_singleton.1 hname).symm
  have hsum : (if name ∈ (p.report.failed.insert n message).keys then 1 else 0)
      ≤ (if name ∈ p.report.failed.keys then 1 else 0) + if n = name then 1 else 0 := by
    split_ifs <;> simp_all
  rw [UpdateReport.timesTold, Nat.add_assoc _ (ite _ _ _)]
  exact Nat.add_le_add_left hsum _

end Progress

namespace StoreView

variable {u : UpdateInputs} {p q : Progress} {v w : StoreView} {f : ShaderFunction}
  {fs : List ShaderFunction} {res : Except Fault Progress}

theorem Step.timesTold_le (h : Step u p v f (.ok q) w) (name : String) :
    q.report.timesTold name ≤ p.report.timesTold name + if f.name = name then 1 else 0 := by
  cases h with
  | skipped hq _ =>
    rw [← Progress.register_report hq]
    exact Progress.timesTold_skipped.le
  | failed hq _ _ =>
    rw [← Progress.register_report hq]
    exact Progress.timesTold_failed_le _
  | generated hq _ _ _ _ _ =>
    rw [← Progress.register_report hq]
    exact Progress.timesTold_updated.le

theorem Run.timesTold_le (h : Run u p v fs (.ok q) w) (name : String) :
    q.report.timesTold name ≤ p.report.timesTold name + (fs.map (·.name)).count name := by
  generalize hres : Except.ok q = res at h
  induction h with
  | done =>
    cases hres
    exact Nat.le_add_right _ _
  | fault h => cases hres
  | step h _ ih =>
    have hfirst := h.timesTold_le name
    have hrest := ih hres
    rw [List.map_cons, List.count_cons]
    simp only [beq_iff_eq]
    omega

theorem Run.removed_eq (h : Run u p v fs (.ok q) w) : q.report.removed = p.report.removed := by
  generalize hres : Except.ok q = res at h
  induction h with
  | done =>
    cases hres
    rfl
  | fault h => cases hres
  | step h _ ih =>
    refine (ih hres).trans ?_
    cases h with
    | skipped hq _ | failed hq _ _ | generated hq _ _ _ _ _ =>
      rw [← Progress.register_report hq]
      rfl

variable {r report : UpdateReport} {name : String}

theorem Update.timesTold_le (h : Update u r v (.ok report) w) (name : String) :
    report.timesTold name ≤ r.timesTold name + (u.functions.map (·.name)).count name := by
  cases h with
  | unchanged h hq _ | changed h hq _ =>
    rw [Progress.removeOthers_report hq]
    exact h.timesTold_le name

theorem Run.not_mem_of_removed {before : UpdateReport} {m : Manifest} {source : String}
    {names : List String} (h : Run u (.start before m source) v fs (.ok p) w)
    (hr : before.removed = []) {ns : List String} (hm : m.functions = strings ns)
    (hq : p.removeOthers names = .ok q) (hname : .string name ∈ q.report.removed) :
    name ∉ names := by
  obtain ⟨ns', hleads, -⟩ := h.exists_leads hm
  have hnone : p.report.removed = [] := h.removed_eq.trans hr
  unfold Progress.removeOthers at hq
  rw [Manifest.others_of_strings hleads.functions] at hq
  cases hothers : ns'.filter (· ∉ names) with
  | nil =>
    rw [hothers] at hq
    cases hq
    rw [hnone] at hname
    cases hname
  | cons n others =>
    rw [hothers] at hq
    cases hq
    have hmem : name ∈ ns'.filter (· ∉ names) := by
      rw [hothers]
      obtain ⟨k, hk, hkn⟩ := List.mem_map.1 hname
      exact Json.string.inj hkn ▸ hk
    exact of_decide_eq_true (List.mem_filter.1 hmem).2

/-- What is removed is no function of the source. -/
theorem Update.not_mem_of_removed (h : Update u r v (.ok report) w)
    (hm : (v.manifests r.library).Typed r.library) (hr : r.removed = [])
    (hname : .string name ∈ report.removed) : name ∉ u.functions.map (·.name) := by
  obtain ⟨ns, hns⟩ := hm.functions
  cases h with
  | unchanged h hq _ | changed h hq _ => exact h.not_mem_of_removed hr hns hq hname

end StoreView

namespace SupplyingStore

variable {σ : Type} [Sources (Routine σ)] [Journal (Routine σ)] [MonadStateOf Supply (Routine σ)]
  (S : SupplyingStore σ) {l : Library} {p : Project} {s t : σ}

/-- The turn of a function that is current or has no signature leaves the store and the supply as they
are. -/
theorem seen_updateFunction (u : UpdateInputs) (source : String) (q : Progress) {f : ShaderFunction}
    (h : ArtifactRecord.isCurrent ((S.view s).artifacts f.name) (u.tag f) = .ok true
      ∨ ∃ e, f.signature = .error e) :
    S.seen (exec (updateFunction S.store u source q f) s).2 = S.seen s := by
  have hcourse := course_updateFunction S.store u source q f s
  generalize exec (updateFunction S.store u source q f) s = x at hcourse
  obtain ⟨res, t⟩ := x
  cases hcourse with
  | unlisted => rfl
  | unloaded hload | uncompared hload | unidentified hload => exact (loaded_of_exec hload).2
  | skipped _ hload _ hlog => exact (logged_of_exec hlog).2.trans (loaded_of_exec hload).2
  | failed _ hload _ _ _ hreport => exact (reported_of_exec hreport).2.trans (loaded_of_exec hload).2
  | undrawn hdrawn | unnumbered hdrawn | unsaved hdrawn | updated _ hdrawn =>
    -- what is drawn for is neither current nor without a signature
    obtain ⟨_, _, _, _, hc, hs, -⟩ := exists_of_drawn hdrawn
    rcases h with htrue | ⟨e, he⟩
    · cases htrue.symm.trans hc
    · cases he.symm.trans hs

/-- What an update does to a store is told by its report. -/
structure Touches (l : Library) (p : Project) (s : σ) (res : Except Fault UpdateReport) (t : σ) :
    Prop where
  /-- with an error of the whole source nothing is written -/
  aborted : ∀ report, res = .ok report → report.error.isSome = true → S.view t = S.view s
  artifacts : ∀ report, res = .ok report → ∀ name ∉ report.updated,
    (S.view t).artifacts name = (S.view s).artifacts name
  removed : ∀ report, res = .ok report → ∀ name, .string name ∈ report.removed →
    (S.view t).artifacts name = (S.view s).artifacts name
  /-- what is skipped or has failed is not updated, unless two functions share the name -/
  others : ∀ report, res = .ok report → ∀ name, name ∈ report.skipped ∨ name ∈ report.failed.keys →
    name ∉ report.updated ∨ ∃ u, LawfulStore.inputsAt l p s = some u
      ∧ 2 ≤ (u.functions.map (·.name)).count name
  manifests : ∀ library, library ≠ l.name →
    (S.view t).manifests library = (S.view s).manifests library
  /-- artifacts are written and then at most one manifest -/
  writes : ∃ (as : List Artifact) (ms : List Manifest), (S.view t).writes = (S.view s).writes
      ++ as.map (fun a => .artifact a.record) ++ ms.map .manifest
    ∧ (∀ report, res = .ok report → report.updated = as.map (·.name))
    ∧ (∀ name ∉ as.map (·.name), (S.view t).artifacts name = (S.view s).artifacts name)
    ∧ ms.length ≤ 1 ∧ ∀ m ∈ ms, m.library = .string l.name

theorem touches_of_none (hu : LawfulStore.inputsAt l p s = none) :
    S.Touches l p s (exec (l.update p S.store) s).1 (exec (l.update p S.store) s).2 := by
  have hview : S.view (exec (l.update p S.store) s).2 = S.view s :=
    RecordingStore.view_update_of_none S.store hu
  have hreport : ∀ report, (exec (l.update p S.store) s).1 = .ok report →
      ∃ includes error, report = { library := l.name, includes, error } := by
    cases LawfulStore.outcome_update S.lawful l p s with
    | ended _ hres => exact hres
    | functions hu' _ _ _ =>
      rw [hu] at hu'
      cases hu'
  refine ⟨fun _ _ _ => hview, fun _ _ _ _ => by rw [hview], fun _ _ _ _ => by rw [hview],
    fun report h name hname => ?_, fun _ _ => by rw [hview], [], [], ?_, fun report h => ?_,
    fun _ _ => by rw [hview], Nat.zero_le _, nofun⟩
  · obtain ⟨includes, error, rfl⟩ := hreport report h
    rcases hname with hname | hname <;> cases hname
  · rw [hview, List.map_nil, List.map_nil, List.append_nil, List.append_nil]
  · obtain ⟨includes, error, rfl⟩ := hreport report h
    rfl

theorem touches_of_some {u : UpdateInputs} (hu : LawfulStore.inputsAt l p s = some u)
    (hs : (S.view s).Typed l.name) :
    S.Touches l p s (exec (l.update p S.store) s).1 (exec (l.update p S.store) s).2 := by
  obtain ⟨includes, hconcludes⟩ := S.exists_concludes hu hs
  obtain ⟨includes', hupdate⟩ := S.exists_update hu
  generalize u.makeAll u.functions (S.view s) (S.supply s) = m at hconcludes
  generalize exec (l.update p S.store) s = x at hconcludes hupdate
  have htells : ∀ report, x.1 = .ok report → report.updated = m.artifacts.map (·.name) :=
    fun report h => (hconcludes.tells report h).1
  have hkept : ∀ name ∉ m.artifacts.map (·.name),
      (S.view x.2).artifacts name = (S.view s).artifacts name := by
    intro name hname
    rw [hconcludes.artifacts_eq, StoreView.artifacts_saveAll_of_not_mem hname]
  obtain ⟨ms, hwrites, hms, hlibrary⟩ := hconcludes.exists_writes
  refine ⟨fun report h herror => ?_, fun report h name hname => hkept name (htells report h ▸ hname),
    fun report h name hname => ?_, fun report h name hname => ?_,
    fun library hne => hconcludes.manifests_eq hne, m.artifacts, ms, hwrites, htells, hkept, hms,
    hlibrary⟩
  · rw [(hconcludes.tells report h).2] at herror
    cases herror
  · rw [h] at hupdate
    have hnone := hupdate.not_mem_of_removed hs.manifest rfl hname
    rcases hupdate.artifact_cases name with heq | ⟨g, -, -, hg, hgname, -⟩
    · exact heq
    · exact absurd (List.mem_map.2 ⟨_, hg, hgname⟩) hnone
  · rw [h] at hupdate
    refine or_iff_not_imp_left.2 fun hupdated => ⟨u, hu, ?_⟩
    have htold := hupdate.timesTold_le name
    have hpos := List.count_pos_iff.2 (not_not.1 hupdated)
    have hstart : UpdateReport.timesTold { library := l.name, includes := includes' } name = 0 := rfl
    rw [hstart, UpdateReport.timesTold] at htold
    rcases hname with hname | hname
    · have := List.count_pos_iff.2 hname
      omega
    · rw [if_pos hname] at htold
      omega

/-- Whatever updates have made of a store, those that were stopped too, the next one touches what
its report tells and nothing else. The turn of a function that is skipped or has no signature changes
neither the store nor the supply. Once all is read, an update saves the same artifacts in the same
order, with the same identifiers, and ends with the same fault and supply, if functions without a
signature are left out or others put in. -/
theorem touches_only_reported (hs : S.Reached s) (l : Library) (p : Project) :
    S.Touches l p s (exec (l.update p S.store) s).1 (exec (l.update p S.store) s).2
      ∧ (∀ u source q f s', ArtifactRecord.isCurrent ((S.view s').artifacts f.name) (u.tag f) = .ok true
          ∨ (∃ e, f.signature = .error e) →
        S.seen (exec (updateFunction S.store u source q f) s').2 = S.seen s')
      ∧ ∀ u r s1, exec (l.gather p : Routine σ (UpdateReport ⊕ UpdateInputs × UpdateReport)) s
            = (.ok (.inr (u, r)), s1) →
          exec (l.update p S.store) s
              = exec (updateFunctions S.store u (p.sourcePath l).toText r) s1
            ∧ ∀ gs : List ShaderFunction, gs.filter (·.signature.toOption.isSome)
                = u.functions.filter (·.signature.toOption.isSome) →
              ∃ m, S.Concludes r s1 m (exec (l.update p S.store) s).1
                  (exec (l.update p S.store) s).2
                ∧ S.Concludes r s1 m
                  (exec (updateFunctions S.store { u with functions := gs } (p.sourcePath l).toText r)
                    s1).1
                  (exec (updateFunctions S.store { u with functions := gs } (p.sourcePath l).toText r)
                    s1).2 := by
  have htyped := hs.typed
  refine ⟨?_, fun u source q f s' => S.seen_updateFunction u source q, fun u r s1 hgather => ?_⟩
  · cases hu : LawfulStore.inputsAt l p s with
    | none => exact S.touches_of_none hu
    | some u => exact S.touches_of_some hu (htyped _)
  · have hupdate : exec (l.update p S.store) s
        = exec (updateFunctions S.store u (p.sourcePath l).toText r) s1 := by
      rw [Library.update_eq, exec_bind, hgather]
      rfl
    have hview := S.keeps_gather l p s
    rw [hgather] at hview
    have htyped1 : ∀ library, (S.view s1).Typed library := by
      rwa [show S.view s1 = S.view s from congrArg Prod.fst hview]
    have hcommented : UpdateInputs.Commented (S.view s1) := fun _ _ ha => (htyped1 "").comment ha
    refine ⟨hupdate, fun gs hgs => ⟨u.makeAll u.functions (S.view s1) (S.supply s1), ?_, ?_⟩⟩
    · rw [hupdate]
      exact S.concludes_updateFunctions u _ (htyped1 _).manifest
    · have hothers := S.concludes_updateFunctions { u with functions := gs }
        (p.sourcePath l).toText (r := r) (s := s1) (htyped1 _).manifest
      rw [UpdateInputs.makeAll_withFunctions, ← UpdateInputs.makeAll_filter gs _ hcommented, hgs,
        UpdateInputs.makeAll_filter _ _ hcommented] at hothers
      exact hothers

end SupplyingStore

/-! ## A function of an unknown type -/

namespace UnknownType

def library : Library := { name := "Lib", file := "lib.hlsl" }

def project : Project := { root := .fileSystem }

def text : String := "void F(out float A) \x7b A = 1; \x7d"

/-- The function has been edited, and one stands before it whose argument has an unknown type. -/
def text' : String := "void G(Half3 B) \x7b \x7d\nvoid F(out float A) \x7b A = 2; \x7d"

def f : ShaderFunction := ⟨1, "", "void", "F", ["out float A"], " A = 2; "⟩

def g : ShaderFunction := ⟨0, "", "void", "G", ["Half3 B"], " "⟩

def first : Ledger := .ofSource text

def second : Ledger := .updated library project first (Ledger.ofSource text').toWorld

theorem reached : Ledger.supplying.Reached second := by
  have hstart : Ledger.supplying.Reached first := .start (fun _ => rfl) fun _ => rfl
  exact .edit (.update hstart library project) (Ledger.view_updated ..)

/-- What is read of the second source. -/
def inputs : UpdateInputs := library.inputs [g, f] [] (Directive.defines text') []

theorem inputsAt_second : LawfulStore.inputsAt library project second = some inputs
    ∧ [f].filter (·.signature.toOption.isSome)
      = inputs.functions.filter (·.signature.toOption.isSome)
    ∧ g ∈ inputs.functions ∧ g.signature.toOption.isSome = false := by decide +kernel

theorem touches_only_reported_of_unknownType :
    Ledger.supplying.Reached second
      ∧ (g ∈ inputs.functions ∧ g.signature.toOption.isSome = false)
      ∧ Ledger.supplying.Touches library project second
        (exec (library.update project Ledger.supplying.store) second).1
        (exec (library.update project Ledger.supplying.store) second).2
      ∧ ∃ r s1 m, Ledger.supplying.Concludes r s1 m
          (exec (library.update project Ledger.supplying.store) second).1
          (exec (library.update project Ledger.supplying.store) second).2
        ∧ Ledger.supplying.Concludes r s1 m
          (exec (updateFunctions Ledger.supplying.store { inputs with functions := [f] }
            (project.sourcePath library).toText r) s1).1
          (exec (updateFunctions Ledger.supplying.store { inputs with functions := [f] }
            (project.sourcePath library).toText r) s1).2 := by
  obtain ⟨hu, hfilter, hinvalid⟩ := inputsAt_second
  obtain ⟨htouches, -, htwo⟩ := Ledger.supplying.touches_only_reported reached library project
  obtain ⟨includes, s1, hgather, -⟩ := LawfulStore.exists_update_eq hu
  obtain ⟨-, hall⟩ := htwo inputs _ s1 hgather
  obtain ⟨m, hm, hm'⟩ := hall [f] hfilter
  exact ⟨reached, hinvalid, htouches, _, s1, m, hm, hm'⟩

end UnknownType

end ShaderGraph
