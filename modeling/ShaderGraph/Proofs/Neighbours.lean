import ShaderGraph.Proofs.Fingerprint
import ShaderGraph.Proofs.Ledger

/-!
# What other functions of a source do to an artifact

Nothing: a function that agrees with one that an earlier update has updated or skipped is current,
and it stays so while other functions have their turn, whatever becomes of them. That it is skipped
can only fail if the update does not come to it, because the number of a texture coordinate of
another function is too long.
-/

namespace ShaderGraph

open Json Routine Text

theorem ShaderFunction.Agrees.content_eq {accurateErrors : Bool} {f g : ShaderFunction}
    (h : f.Agrees accurateErrors g) (dependencies options : String) :
    Fingerprint.content f dependencies accurateErrors options
      = Fingerprint.content g dependencies accurateErrors options := by
  unfold Fingerprint.content
  rw [h.comment, h.returnType, h.name, h.arguments, h.body]
  cases accurateErrors with
  | false => rfl
  | true => rw [h.startLine rfl]

theorem eq_of_name_eq_of_count {f g : ShaderFunction} : ∀ {fs : List ShaderFunction}, f ∈ fs →
    g ∈ fs → (fs.map (·.name)).count f.name = 1 → g.name = f.name → g = f
  | k :: fs, hf, hg, honce, hname => by
    rw [List.map_cons] at honce
    by_cases hk : k.name = f.name
    · rw [hk, List.count_cons_self] at honce
      have hnone : f.name ∉ fs.map (·.name) := List.count_eq_zero.1 (by omega)
      have hlater : ∀ k' ∈ fs, k'.name ≠ f.name := fun k' hk' hname' =>
        hnone (List.mem_map.2 ⟨k', hk', hname'⟩)
      rcases List.mem_cons.1 hf with rfl | hf
      · rcases List.mem_cons.1 hg with rfl | hg
        · rfl
        · exact absurd hname (hlater g hg)
      · exact absurd rfl (hlater f hf)
    · rw [List.count_cons_of_ne hk] at honce
      rcases List.mem_cons.1 hf with rfl | hf
      · exact absurd rfl hk
      · rcases List.mem_cons.1 hg with rfl | hg
        · exact absurd hname hk
        · exact eq_of_name_eq_of_count hf hg honce hname

namespace UpdateReport

/-- A function has been updated or skipped. -/
def Done (r : UpdateReport) (name : String) : Prop := name ∈ r.updated ∨ name ∈ r.skipped

/-- From one report to a later one a function is not reported, unless as skipped. -/
structure Passes (r r' : UpdateReport) (name : String) : Prop where
  skipped : name ∈ r.skipped → name ∈ r'.skipped
  updated : name ∈ r'.updated → name ∈ r.updated
  failed : name ∈ r'.failed.keys → name ∈ r.failed.keys

variable {r r' r'' : UpdateReport} {name : String}

theorem Passes.refl : r.Passes r name := ⟨id, id, id⟩

theorem Passes.trans (h : r.Passes r' name) (h' : r'.Passes r'' name) : r.Passes r'' name :=
  ⟨h'.skipped ∘ h.skipped, h.updated ∘ h'.updated, h.failed ∘ h'.failed⟩

end UpdateReport

namespace Progress

variable {p : Progress} {name n : String}

theorem passes_skipped (p : Progress) (n : String) : p.report.Passes (p.skipped n).report name :=
  ⟨fun h => List.mem_append_left _ h, id, id⟩

theorem passes_failed (p : Progress) (message : String) (hne : name ≠ n) :
    p.report.Passes (p.failed n message).report name := by
  refine ⟨id, id, fun h => ?_⟩
  rw [failed, OrderedMap.keys_insert] at h
  split_ifs at h
  · exact h
  · rcases List.mem_append.1 h with h | h
    · exact h
    · exact absurd (List.mem_singleton.1 h) hne

theorem passes_updated (p : Progress) (hne : name ≠ n) :
    p.report.Passes (p.updated n).report name := by
  refine ⟨id, fun h => ?_, id⟩
  rcases List.mem_append.1 h with h | h
  · exact h
  · exact absurd (List.mem_singleton.1 h) hne

theorem done_skipped : (p.skipped n).report.Done name ↔ p.report.Done name ∨ name = n := by
  simp [UpdateReport.Done, skipped, or_assoc]

theorem done_failed (message : String) :
    (p.failed n message).report.Done name ↔ p.report.Done name := Iff.rfl

theorem done_updated : (p.updated n).report.Done name ↔ p.report.Done name ∨ name = n := by
  simp [UpdateReport.Done, updated, or_right_comm]

end Progress

namespace StoreView

/-- From one view to a later one an artifact is as it was, and none of its name has been written. -/
structure Spares (v w : StoreView) (name : String) : Prop where
  artifact : w.artifacts name = v.artifacts name
  writes : ∃ ws, w.writes = v.writes ++ ws ∧ ∀ a, .artifact a ∈ ws → a.name ≠ .string name

variable {u : UpdateInputs} {p q : Progress} {v w z : StoreView} {f g : ShaderFunction}
  {fs : List ShaderFunction} {res : Except Fault Progress} {name tag : String}

theorem Spares.refl : v.Spares v name := ⟨rfl, [], by simp, nofun⟩

theorem Spares.trans (h : v.Spares w name) (h' : w.Spares z name) : v.Spares z name := by
  obtain ⟨ws, hws, hnone⟩ := h.writes
  obtain ⟨zs, hzs, hnone'⟩ := h'.writes
  refine ⟨h'.artifact.trans h.artifact, ws ++ zs, ?_, fun a ha => ?_⟩
  · rw [hzs, hws, List.append_assoc]
  · rcases List.mem_append.1 ha with ha | ha
    · exact hnone a ha
    · exact hnone' a ha

theorem Spares.saveManifest (h : v.Spares w name) (m : Manifest) :
    v.Spares (w.saveManifest m) name := by
  refine h.trans ⟨rfl, [.manifest m], rfl, fun a ha => ?_⟩
  rcases List.mem_singleton.1 ha

/-! ## Functions that are current -/

/-- A function takes a turn: an artifact is spared if it is that of another function, or current. -/
theorem Step.spares (h : Step u p v f res w) (hcurrent : f.name = name →
    ArtifactRecord.isCurrent (v.artifacts name) (u.tag f) = .ok true) : v.Spares w name := by
  cases h with
  | hindered _ | skipped _ _ | failed _ _ _ => exact .refl
  | @generated g _ _ hc _ _ _ hf =>
    have hne : f.name ≠ name := by
      intro hname
      have htrue := hcurrent hname
      rw [← hname, hc] at htrue
      cases htrue
    subst hf
    refine ⟨artifacts_save_of_ne _ hne.symm, _, rfl, fun a ha hname => hne ?_⟩
    obtain rfl := StoreWrite.artifact.inj (List.mem_singleton.1 ha)
    exact Json.string.inj hname

theorem Run.spares (h : Run u p v fs res w) (hcurrent : ∀ f ∈ fs, f.name = name →
    ArtifactRecord.isCurrent (v.artifacts name) (u.tag f) = .ok true) : v.Spares w name := by
  induction h with
  | done => exact .refl
  | fault h => exact h.spares (hcurrent _ List.mem_cons_self)
  | step h _ ih =>
    have hspares := h.spares (hcurrent _ List.mem_cons_self)
    refine hspares.trans (ih fun f hf hname => ?_)
    rw [hspares.artifact]
    exact hcurrent f (List.mem_cons_of_mem _ hf) hname

theorem Step.passes (h : Step u p v f (.ok q) w) (hcurrent : f.name = name →
    ArtifactRecord.isCurrent (v.artifacts name) (u.tag f) = .ok true) :
    p.report.Passes q.report name ∧ (f.name = name → name ∈ q.report.skipped) := by
  have hne : ArtifactRecord.isCurrent (v.artifacts f.name) (u.tag f) = .ok false →
      name ≠ f.name := by
    rintro hc rfl
    rw [hcurrent rfl] at hc
    cases hc
  cases h with
  | skipped hq _ =>
    rw [← Progress.register_report hq]
    refine ⟨Progress.passes_skipped _ _, ?_⟩
    rintro rfl
    exact List.mem_append_right _ List.mem_cons_self
  | failed hq hc _ =>
    rw [← Progress.register_report hq]
    exact ⟨Progress.passes_failed _ _ (hne hc), fun hname => absurd hname.symm (hne hc)⟩
  | generated hq hc _ _ _ _ =>
    rw [← Progress.register_report hq]
    exact ⟨Progress.passes_updated _ (hne hc), fun hname => absurd hname.symm (hne hc)⟩

theorem Run.passes (h : Run u p v fs (.ok q) w) (hcurrent : ∀ f ∈ fs, f.name = name →
    ArtifactRecord.isCurrent (v.artifacts name) (u.tag f) = .ok true) :
    p.report.Passes q.report name ∧ ∀ f ∈ fs, f.name = name → name ∈ q.report.skipped := by
  generalize hres : Except.ok q = res at h
  induction h with
  | done =>
    cases hres
    exact ⟨.refl, by simp⟩
  | fault h => cases hres
  | step h _ ih =>
    have hfirst := hcurrent _ List.mem_cons_self
    obtain ⟨hpasses, hskipped⟩ := h.passes hfirst
    obtain ⟨hpasses', hskipped'⟩ := ih (fun f hf hname => by
      rw [(h.spares hfirst).artifact]
      exact hcurrent f (List.mem_cons_of_mem _ hf) hname) hres
    refine ⟨hpasses.trans hpasses', fun f hf hname => ?_⟩
    rcases List.mem_cons.1 hf with rfl | hf
    · exact hpasses'.skipped (hskipped hname)
    · exact hskipped' f hf hname

variable {r report : UpdateReport} {ended : Except Fault UpdateReport}

theorem Update.spares (h : Update u r v ended w) (hcurrent : ∀ f ∈ u.functions, f.name = name →
    ArtifactRecord.isCurrent (v.artifacts name) (u.tag f) = .ok true) : v.Spares w name := by
  cases h with
  | fault h | unlisted h _ | unchanged h _ _ => exact h.spares hcurrent
  | changed h _ _ => exact (h.spares hcurrent).saveManifest _

theorem Update.passes (h : Update u r v (.ok report) w) (hcurrent : ∀ f ∈ u.functions,
    f.name = name → ArtifactRecord.isCurrent (v.artifacts name) (u.tag f) = .ok true) :
    r.Passes report name ∧ ∀ f ∈ u.functions, f.name = name → name ∈ report.skipped := by
  cases h with
  | unchanged h hq _ | changed h hq _ =>
    rw [Progress.removeOthers_report hq]
    obtain ⟨hpasses, hskipped⟩ := h.passes hcurrent
    exact ⟨⟨hpasses.skipped, hpasses.updated, hpasses.failed⟩, hskipped⟩

/-! ## Functions that become current -/

/-- A function that has been updated or skipped is current, if no other one of its name has another
fingerprint. -/
theorem Step.current_of_done (h : Step u p v f (.ok q) w) (htag : f.name = name → u.tag f = tag)
    (hp : p.report.Done name → ArtifactRecord.isCurrent (v.artifacts name) tag = .ok true)
    (hq : q.report.Done name) : ArtifactRecord.isCurrent (w.artifacts name) tag = .ok true := by
  cases h with
  | skipped hr hc =>
    rw [Progress.done_skipped, Progress.register_report hr] at hq
    rcases hq with hq | rfl
    · exact hp hq
    · rwa [htag rfl] at hc
  | failed hr _ _ =>
    rw [Progress.done_failed, Progress.register_report hr] at hq
    exact hp hq
  | @generated g _ hr _ _ _ hu hf =>
    rw [Progress.done_updated, Progress.register_report hr] at hq
    subst hu hf
    by_cases hname : name = g.function.name
    · subst hname
      rw [artifacts_save_self, ← htag rfl]
      exact g.isCurrent_tag
    · rw [artifacts_save_of_ne _ hname]
      exact hp (hq.resolve_right hname)

theorem Run.current_of_done (h : Run u p v fs (.ok q) w)
    (htag : ∀ f ∈ fs, f.name = name → u.tag f = tag)
    (hp : p.report.Done name → ArtifactRecord.isCurrent (v.artifacts name) tag = .ok true)
    (hq : q.report.Done name) : ArtifactRecord.isCurrent (w.artifacts name) tag = .ok true := by
  generalize hres : Except.ok q = res at h
  induction h with
  | done =>
    cases hres
    exact hp hq
  | fault h => cases hres
  | step h _ ih =>
    exact ih (fun f hf => htag f (List.mem_cons_of_mem _ hf))
      (h.current_of_done (htag _ List.mem_cons_self) hp) hres

theorem Update.current_of_done (h : Update u r v (.ok report) w)
    (htag : ∀ f ∈ u.functions, f.name = name → u.tag f = tag) (hr : ¬ r.Done name)
    (hdone : report.Done name) : ArtifactRecord.isCurrent (w.artifacts name) tag = .ok true := by
  cases h with
  | unchanged h hq _ | changed h hq _ =>
    rw [Progress.removeOthers_report hq] at hdone
    exact h.current_of_done htag (fun hstart => absurd hstart hr) hdone

/-- A function with a signature is updated or skipped. -/
theorem Step.done_of_signature (h : Step u p v f (.ok q) w) :
    (p.report.Done name → q.report.Done name)
      ∧ (f.name = name → (∃ s, f.signature = .ok s) → q.report.Done name) := by
  cases h with
  | skipped hr _ =>
    rw [Progress.done_skipped, Progress.register_report hr]
    exact ⟨.inl, fun hname _ => .inr hname.symm⟩
  | failed hr _ hf =>
    rw [Progress.done_failed, Progress.register_report hr]
    refine ⟨id, fun _ ⟨s, hs⟩ => ?_⟩
    rw [hs] at hf
    cases hf
  | generated hr _ _ _ _ _ =>
    rw [Progress.done_updated, Progress.register_report hr]
    exact ⟨.inl, fun hname _ => .inr hname.symm⟩

theorem Run.done_of_signature (h : Run u p v fs (.ok q) w) :
    (p.report.Done name → q.report.Done name)
      ∧ ∀ f ∈ fs, f.name = name → (∃ s, f.signature = .ok s) → q.report.Done name := by
  generalize hres : Except.ok q = res at h
  induction h with
  | done =>
    cases hres
    exact ⟨id, by simp⟩
  | fault h => cases hres
  | step h _ ih =>
    obtain ⟨hkept, hall⟩ := ih hres
    refine ⟨hkept ∘ h.done_of_signature.1, fun f hf hname hvalid => ?_⟩
    rcases List.mem_cons.1 hf with rfl | hf
    · exact hkept (h.done_of_signature.2 hname hvalid)
    · exact hall f hf hname hvalid

theorem Update.done_of_signature (h : Update u r v (.ok report) w) (hf : f ∈ u.functions)
    (hvalid : ∃ s, f.signature = .ok s) : report.Done f.name := by
  cases h with
  | unchanged h hq _ | changed h hq _ =>
    rw [Progress.removeOthers_report hq]
    exact h.done_of_signature.2 f hf rfl hvalid

end StoreView

namespace RecordingStore

variable {σ : Type} [Sources (Routine σ)] [Journal (Routine σ)] [MonadStateOf Supply (Routine σ)]
  (R : RecordingStore σ) {l : Library} {p : Project} {s t : σ}

/-- An update has updated or skipped a function. The next one reads a source with the same defines,
whose includes have the same texts, and in which a function agrees with the first one; it does not
touch the artifact, and if it comes to a report, the function is skipped. It comes to one, if the
documents of the store have their types, unless another function has a signature and a numeral in
its body that is too long. -/
theorem skips_of_agrees {text text' : String} {fs gs : List ShaderFunction}
    {includes includes' : List Include} {texts : List String}
    (hdefines : Directive.defines text = Directive.defines text')
    (hu : LawfulStore.inputsAt l p s = some (l.inputs fs includes (Directive.defines text) texts))
    (hu' : LawfulStore.inputsAt l p t
      = some (l.inputs gs includes' (Directive.defines text') texts))
    (ht : R.view t = R.view (exec (l.update p R.store) s).2) {report : UpdateReport}
    (hreport : (exec (l.update p R.store) s).1 = .ok report) {f g : ShaderFunction} (hf : f ∈ fs)
    (hg : g ∈ gs) (hfonce : (fs.map (·.name)).count f.name = 1)
    (hgonce : (gs.map (·.name)).count g.name = 1) (hdone : report.Done f.name)
    (hagrees : f.Agrees l.accurateErrors g) :
    (R.view t).Spares (R.view (exec (l.update p R.store) t).2) g.name
      ∧ (∀ report', (exec (l.update p R.store) t).1 = .ok report' → g.name ∈ report'.skipped
          ∧ g.name ∉ report'.updated ∧ g.name ∉ report'.failed.keys)
      ∧ ((R.view s).Typed l.name → ∀ e, (exec (l.update p R.store) t).1 = .error e →
        ∃ k ∈ gs, k.name ≠ g.name ∧ (∃ s, k.signature = .ok s)
          ∧ ∃ e, TexCoordinate.highest k.body = .error e) := by
  obtain ⟨_, h⟩ := R.exists_update hu
  obtain ⟨_, h'⟩ := R.exists_update hu'
  rw [hreport, ← ht] at h
  have htag : (l.inputs gs includes' (Directive.defines text') texts).tag g
      = (l.inputs fs includes (Directive.defines text) texts).tag f := by
    have hcontent := hagrees.content_eq
      (Fingerprint.ofDependencies texts (Directive.defines text')) l.metadata
    rw [UpdateInputs.tag, UpdateInputs.tag, Fingerprint.ofFunction, Fingerprint.ofFunction,
      Library.inputs, Library.inputs, hdefines]
    exact congrArg _ (congrArg _ hcontent.symm)
  have hcurrent : ∀ k ∈ gs, k.name = g.name → ArtifactRecord.isCurrent ((R.view t).artifacts g.name)
      ((l.inputs gs includes' (Directive.defines text') texts).tag k) = .ok true := by
    intro k hk hname
    rw [eq_of_name_eq_of_count hg hk hgonce hname, htag, ← hagrees.name]
    refine h.current_of_done (fun k' hk' hname' => ?_) (by simp [UpdateReport.Done]) hdone
    rw [eq_of_name_eq_of_count hf hk' hfonce hname']
  have hspares := h'.spares hcurrent
  refine ⟨hspares, fun report' hreport' => ?_, fun hs e he => ?_⟩
  · rw [hreport'] at h'
    obtain ⟨hpasses, hskipped⟩ := h'.passes hcurrent
    refine ⟨hskipped g hg rfl, fun hmem => ?_, fun hmem => ?_⟩
    · exact absurd (hpasses.updated hmem) List.not_mem_nil
    · exact absurd (hpasses.failed hmem) List.not_mem_nil
  · rw [he] at h'
    have htyped : (R.view t).Typed l.name := ht ▸ R.typed_update hu hs hreport
    obtain ⟨k, hk, hc, hvalid, hnumeral⟩ := h'.exists_of_error htyped
    refine ⟨k, hk, fun hname => ?_, hvalid, hnumeral⟩
    rw [hname, hspares.artifact, hcurrent k hk hname] at hc
    cases hc

end RecordingStore

/-! ## A function that moves -/

namespace MovedFunction

def library : Library := { name := "Lib", file := "lib.hlsl", accurateErrors := false }

def project : Project := { root := .fileSystem }

def text : String := "void F(out float A) \x7b A = 1; \x7d"

/-- Another function stands before the first one now. -/
def text' : String := "void G(out float B) \x7b B = 2; \x7d\nvoid F(out float A) \x7b A = 1; \x7d"

def f : ShaderFunction := ⟨0, "", "void", "F", ["out float A"], " A = 1; "⟩

def g : ShaderFunction := ⟨0, "", "void", "G", ["out float B"], " B = 2; "⟩

def f' : ShaderFunction := ⟨1, "", "void", "F", ["out float A"], " A = 1; "⟩

def first : Ledger := .ofSource text

def second : Ledger := .updated library project first (Ledger.ofSource text').toWorld

theorem inputsAt_first : LawfulStore.inputsAt library project first
    = some (library.inputs [f] [] (Directive.defines text) []) := by decide +kernel

theorem inputsAt_second : LawfulStore.inputsAt library project second
    = some (library.inputs [g, f'] [] (Directive.defines text') []) := by decide +kernel

theorem agrees : f.Agrees library.accurateErrors f' :=
  ⟨⟨rfl, rfl, rfl, rfl, fun h => by cases h⟩, rfl⟩

theorem highest_eq {k : ShaderFunction} (hk : k ∈ [f, g, f']) :
    TexCoordinate.highest k.body = .ok none := by
  have hnone : ∀ k ∈ [f, g, f'], TexCoordinate.references k.body.toList = [] := by decide
  exact TexCoordinate.highest_of_references_eq_nil (hnone k hk)

/-- The first update comes to a report and has updated or skipped the function. -/
theorem exists_done :
    ∃ report, (exec (library.update project Ledger.recording.store) first).1 = .ok report
      ∧ report.Done f.name := by
  have hvalid : ∃ s, f.signature = .ok s := exists_ok_of_isSome (by decide +kernel)
  obtain ⟨report, hreport⟩ := Ledger.recording.exists_report inputsAt_first
    (Ledger.typed_ofSource _ _) fun k hk _ => by
      obtain rfl := List.mem_singleton.1 hk
      exact ⟨none, highest_eq (by decide)⟩
  obtain ⟨_, h⟩ := Ledger.recording.exists_update inputsAt_first
  rw [hreport] at h
  exact ⟨report, hreport, h.done_of_signature List.mem_cons_self hvalid⟩

theorem skips_of_agrees_of_moved :
    f.Agrees library.accurateErrors f'
      ∧ (Ledger.recording.view second).Spares (Ledger.recording.view
        (exec (library.update project Ledger.recording.store) second).2) "F"
      ∧ ∃ report, (exec (library.update project Ledger.recording.store) second).1 = .ok report
        ∧ "F" ∈ report.skipped := by
  obtain ⟨report, hreport, hdone⟩ := exists_done
  obtain ⟨hspares, hskips, herror⟩ := Ledger.recording.skips_of_agrees (by decide +kernel)
    inputsAt_first inputsAt_second (Ledger.view_updated ..) hreport (f := f) (g := f') (by decide)
    (by decide) (by decide) (by decide) hdone agrees
  refine ⟨agrees, hspares, ?_⟩
  cases hresult : (exec (library.update project Ledger.recording.store) second).1 with
  | ok report' => exact ⟨report', rfl, (hskips report' hresult).1⟩
  | error e =>
    obtain ⟨k, hk, -, -, e', he⟩ := herror (Ledger.typed_ofSource _ _) e hresult
    rw [highest_eq (List.mem_cons_of_mem _ hk)] at he
    cases he

end MovedFunction

end ShaderGraph
