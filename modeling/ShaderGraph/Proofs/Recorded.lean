import ShaderGraph.Proofs.Header
import ShaderGraph.Proofs.Update

/-!
# Stores that record what is written to them

Of a store that never fails all can be seen in the state: what it loads and what has been written to
it, one write after the other. What an update does to such a store is then a relation between views,
one rule for each thing that can happen to a function, with the reason for it; a fault has a reason
in the documents of the store or in a numeral.
-/

namespace ShaderGraph

open Routine Text

namespace Routine

variable {σ ν α β : Type}

/-- A program comes to a result and leaves a view of the state like this. -/
def Gives (view : σ → ν) (x : Routine σ α) (s : σ) (a : α) (w : ν) : Prop :=
  ∃ t, exec x s = (.ok a, t) ∧ view t = w

variable {view : σ → ν}

theorem Gives.exec_bind {x : Routine σ α} {f : α → Routine σ β} {s : σ} {a : α} {w : ν}
    {Q : Except Fault β → σ → Prop} (h : Gives view x s a w)
    (hQ : ∀ t, view t = w → Q (exec (f a) t).1 (exec (f a) t).2) :
    Q (exec (x >>= f) s).1 (exec (x >>= f) s).2 := by
  obtain ⟨t, hx, ht⟩ := h
  rw [Routine.exec_bind, hx]
  exact hQ t ht

theorem Gives.exec_eq {x : Routine σ α} {s : σ} {a : α} {w : ν} (h : Gives view x s a w) :
    (exec x s).1 = .ok a := by
  obtain ⟨t, ht, -⟩ := h
  rw [ht]

theorem Gives.view_eq {x : Routine σ α} {s : σ} {a : α} {w : ν} (h : Gives view x s a w) :
    view (exec x s).2 = w := by
  obtain ⟨t, ht, hview⟩ := h
  rw [ht, hview]

theorem Gives.of_exec {x : Routine σ α} {r : Except Fault α} {s t : σ} {a : α} {w : ν}
    (h : Gives view x s a w) (hx : exec x s = (r, t)) : r = .ok a ∧ view t = w := by
  obtain ⟨t', ht', hview⟩ := h
  cases ht'.symm.trans hx
  exact ⟨rfl, hview⟩

theorem keeps_of_gives {x : Routine σ α} (h : ∀ s, ∃ a, Gives view x s a (view s)) :
    Keeps view x := by
  intro s
  obtain ⟨a, ha⟩ := h s
  exact ha.view_eq

theorem Keeps.gives {x : Routine σ α} {s : σ} {a : α} (h : Keeps view x) (ha : (exec x s).1 = .ok a) :
    Gives view x s a (view s) :=
  ⟨(exec x s).2, Prod.ext ha rfl, h s⟩

end Routine

theorem Generation.isCurrent_record (g : Generation) (tag : String) :
    ArtifactRecord.isCurrent (some g.artifact.record) tag
      = .ok (contains (Artifact.header g.inputs.context g.tag) tag) := rfl

theorem Generation.isCurrent_tag (g : Generation) :
    ArtifactRecord.isCurrent (some g.artifact.record) g.tag = .ok true := by
  rw [isCurrent_record, Artifact.contains_header_self]

/-- What is written to a store. -/
inductive StoreWrite where
  | artifact (a : ArtifactRecord)
  | manifest (m : Manifest)

/-- What is seen of a store. -/
structure StoreView where
  artifacts : String → Option ArtifactRecord
  manifests : String → Manifest
  /-- what has been written, the latest last -/
  writes : List StoreWrite

namespace StoreView

/-- The view after an artifact was saved. -/
def save (v : StoreView) (a : Artifact) : StoreView :=
  { v with
    artifacts := Function.update v.artifacts a.name (some a.record)
    writes := v.writes ++ [.artifact a.record] }

/-- The view after a manifest was saved. -/
def saveManifest (v : StoreView) (m : Manifest) : StoreView :=
  { v with
    manifests := match m.library with
      | .string l => Function.update v.manifests l m
      | _ => v.manifests
    writes := v.writes ++ [.manifest m] }

@[simp]
theorem artifacts_save (v : StoreView) (a : Artifact) :
    (v.save a).artifacts = Function.update v.artifacts a.name (some a.record) := rfl

theorem artifacts_save_self (v : StoreView) (g : Generation) :
    (v.save g.artifact).artifacts g.function.name = some g.artifact.record :=
  Function.update_self ..

theorem artifacts_save_of_ne (v : StoreView) {g : Generation} {name : String}
    (hne : name ≠ g.function.name) : (v.save g.artifact).artifacts name = v.artifacts name :=
  Function.update_of_ne hne ..

@[simp]
theorem manifests_save (v : StoreView) (a : Artifact) : (v.save a).manifests = v.manifests := rfl

@[simp]
theorem writes_save (v : StoreView) (a : Artifact) :
    (v.save a).writes = v.writes ++ [.artifact a.record] := rfl

@[simp]
theorem artifacts_saveManifest (v : StoreView) (m : Manifest) :
    (v.saveManifest m).artifacts = v.artifacts := rfl

@[simp]
theorem writes_saveManifest (v : StoreView) (m : Manifest) :
    (v.saveManifest m).writes = v.writes ++ [.manifest m] := rfl

section

variable (u : UpdateInputs)

/-- Why an update cannot go on with a function. -/
inductive Hindered (p : Progress) (v : StoreView) (f : ShaderFunction) : Prop
  | unlisted {e : DocumentError} (h : p.register f.name = .error e)
  | uncompared {e : DocumentError}
      (h : ArtifactRecord.isCurrent (v.artifacts f.name) (u.tag f) = .error e)
  | unidentified {s : Signature} {a : ArtifactRecord} {e : DocumentError}
      (hc : ArtifactRecord.isCurrent (v.artifacts f.name) (u.tag f) = .ok false)
      (hs : f.signature = .ok s) (ha : v.artifacts f.name = some a)
      (h : a.identifiers.table = .error e)
  | unnumbered {s : Signature} {e : NumeralError}
      (hc : ArtifactRecord.isCurrent (v.artifacts f.name) (u.tag f) = .ok false)
      (hs : f.signature = .ok s) (h : TexCoordinate.highest f.body = .error e)

/-- What an update does with one function. -/
inductive Step (p : Progress) (v : StoreView) (f : ShaderFunction) :
    Except Fault Progress → StoreView → Prop
  | hindered {e : Fault} (h : Hindered u p v f) : Step p v f (.error e) v
  | skipped {q : Progress} (hq : p.register f.name = .ok q)
      (hc : ArtifactRecord.isCurrent (v.artifacts f.name) (u.tag f) = .ok true) :
      Step p v f (.ok (q.skipped f.name)) v
  | failed {q : Progress} {e : PinError} {message : String} (hq : p.register f.name = .ok q)
      (hc : ArtifactRecord.isCurrent (v.artifacts f.name) (u.tag f) = .ok false)
      (hf : f.signature = .error e) : Step p v f (.ok (q.failed f.name message)) v
  | generated {g : Generation} {q : Progress} (hq : p.register f.name = .ok q)
      (hc : ArtifactRecord.isCurrent (v.artifacts f.name) (u.tag f) = .ok false)
      (hi : ∀ a, v.artifacts f.name = some a → ∃ t, a.identifiers.table = .ok t)
      (hg : g.Sound) (hu : g.inputs = u) (hf : g.function = f) :
      Step p v f (.ok (q.updated f.name)) (v.save g.artifact)

/-- What an update does with functions one after the other, up to a fault. -/
inductive Run : Progress → StoreView → List ShaderFunction → Except Fault Progress → StoreView → Prop
  | done {p : Progress} {v : StoreView} : Run p v [] (.ok p) v
  | fault {p : Progress} {v w : StoreView} {f : ShaderFunction} {fs : List ShaderFunction} {e : Fault}
      (h : Step u p v f (.error e) w) : Run p v (f :: fs) (.error e) w
  | step {p q : Progress} {v w z : StoreView} {f : ShaderFunction} {fs : List ShaderFunction}
      {res : Except Fault Progress} (h : Step u p v f (.ok q) w) (hrest : Run q w fs res z) :
      Run p v (f :: fs) res z

/-- What an update does once all is read: to the functions, and then to the manifest. -/
inductive Update (r : UpdateReport) (v : StoreView) : Except Fault UpdateReport → StoreView → Prop
  | fault {e : Fault} {w : StoreView}
      (h : Run u (.start r (v.manifests r.library) u.context.sourceFile) v u.functions (.error e) w) :
      Update r v (.error e) w
  | unlisted {e : DocumentError} {p : Progress} {w : StoreView}
      (h : Run u (.start r (v.manifests r.library) u.context.sourceFile) v u.functions (.ok p) w)
      (hq : p.removeOthers (u.functions.map (·.name)) = .error e) :
      Update r v (.error (.document e)) w
  | unchanged {p q : Progress} {w : StoreView}
      (h : Run u (.start r (v.manifests r.library) u.context.sourceFile) v u.functions (.ok p) w)
      (hq : p.removeOthers (u.functions.map (·.name)) = .ok q) (hc : q.changed = false) :
      Update r v (.ok q.report) w
  | changed {p q : Progress} {w : StoreView} {time : Json}
      (h : Run u (.start r (v.manifests r.library) u.context.sourceFile) v u.functions (.ok p) w)
      (hq : p.removeOthers (u.functions.map (·.name)) = .ok q) (hc : q.changed = true) :
      Update r v (.ok q.report) (w.saveManifest { q.manifest with updated := time })

end

variable {u : UpdateInputs} {p : Progress} {v w : StoreView} {f : ShaderFunction}
  {fs : List ShaderFunction} {res : Except Fault Progress}

theorem Step.manifests_eq (h : Step u p v f res w) : w.manifests = v.manifests := by
  cases h <;> rfl

theorem Run.manifests_eq (h : Run u p v fs res w) : w.manifests = v.manifests := by
  induction h with
  | done => rfl
  | fault h => exact h.manifests_eq
  | step h _ ih => exact ih.trans h.manifests_eq

theorem Step.writes_prefix (h : Step u p v f res w) : v.writes <+: w.writes := by
  cases h with
  | hindered _ | skipped _ _ | failed _ _ _ => exact List.prefix_refl _
  | generated _ _ _ _ _ _ => exact List.prefix_append _ _

theorem Run.writes_prefix (h : Run u p v fs res w) : v.writes <+: w.writes := by
  induction h with
  | done => exact List.prefix_refl _
  | fault h => exact h.writes_prefix
  | step h _ ih => exact h.writes_prefix.trans ih

/-- What is there after a function: it was there before, or the function has been generated. -/
theorem Step.artifact_cases (h : Step u p v f res w) (name : String) :
    w.artifacts name = v.artifacts name ∨ ∃ g : Generation, g.Sound ∧ g.inputs = u
      ∧ g.function = f ∧ f.name = name ∧ w.artifacts name = some g.artifact.record := by
  cases h with
  | hindered _ | skipped _ _ | failed _ _ _ => exact .inl rfl
  | @generated g _ _ _ _ hg hu hf =>
    subst hf
    by_cases hname : name = g.function.name
    · subst hname
      exact .inr ⟨g, hg, hu, rfl, rfl, v.artifacts_save_self g⟩
    · exact .inl (v.artifacts_save_of_ne hname)

theorem Run.artifact_cases (h : Run u p v fs res w) (name : String) :
    w.artifacts name = v.artifacts name ∨ ∃ g : Generation, g.Sound ∧ g.inputs = u
      ∧ g.function ∈ fs ∧ g.function.name = name ∧ w.artifacts name = some g.artifact.record := by
  induction h with
  | done => exact .inl rfl
  | fault h =>
    rcases h.artifact_cases name with h | ⟨g, hg, hu, rfl, hname, hmade⟩
    · exact .inl h
    · exact .inr ⟨g, hg, hu, List.mem_cons_self, hname, hmade⟩
  | step h _ ih =>
    rcases ih with hkept | ⟨g, hg, hu, hmem, hname, hmade⟩
    · rw [hkept]
      rcases h.artifact_cases name with h | ⟨g, hg, hu, rfl, hname, hmade⟩
      · exact .inl h
      · exact .inr ⟨g, hg, hu, List.mem_cons_self, hname, hmade⟩
    · exact .inr ⟨g, hg, hu, List.mem_cons_of_mem _ hmem, hname, hmade⟩

theorem Update.artifact_cases {r : UpdateReport} {res : Except Fault UpdateReport}
    (h : Update u r v res w) (name : String) :
    w.artifacts name = v.artifacts name ∨ ∃ g : Generation, g.Sound ∧ g.inputs = u
      ∧ g.function ∈ u.functions ∧ g.function.name = name
      ∧ w.artifacts name = some g.artifact.record := by
  cases h with
  | fault h | unlisted h _ | unchanged h _ _ | changed h _ _ => exact h.artifact_cases name

/-- A run that ends in a fault has come to a function with which it cannot go on. -/
theorem Run.exists_hindered {e : Fault} (h : Run u p v fs (.error e) w) :
    ∃ before f after q, fs = before ++ f :: after ∧ Run u p v before (.ok q) w
      ∧ Hindered u q w f := by
  generalize hres : Except.error e = res at h
  induction h with
  | done => cases hres
  | @fault p v w f fs e h =>
    cases h with
    | hindered h => exact ⟨[], f, fs, p, rfl, .done, h⟩
  | @step p q v w z f fs res h _ ih =>
    obtain ⟨before, f', after, q', rfl, hrun, hf'⟩ := ih hres
    exact ⟨f :: before, f', after, q', rfl, .step h hrun, hf'⟩

end StoreView

/-- A store that loads what was last saved and never fails, with surroundings that leave it alone.
-/
structure RecordingStore (σ : Type) [Sources (Routine σ)] [Journal (Routine σ)]
    [MonadStateOf Supply (Routine σ)] where
  store : ArtifactStore (Routine σ)
  view : σ → StoreView
  undisturbed : Undisturbed view
  logged : ∀ severity message s, (exec (Journal.log severity message : Routine σ Unit) s).1 = .ok ()
  kept : ∀ d s, (exec (Journal.keep d : Routine σ Unit) s).1 = .ok ()
  draw : ∀ {α : Type} (f : Supply → α × Supply) s,
    ∃ supply, Gives view (modifyGetThe Supply f : Routine σ α) s (f supply).1 (view s)
  load : ∀ name s, Gives view (store.load name) s ((view s).artifacts name) (view s)
  save : ∀ (a : Artifact) s, Gives view (store.save a.record) s () ((view s).save a)
  loadManifest : ∀ library s,
    Gives view (store.loadManifest library) s ((view s).manifests library) (view s)
  saveManifest : ∀ manifest s, ∃ time, Gives view (store.saveManifest manifest) s ()
    ((view s).saveManifest { manifest with updated := time })

namespace RecordingStore

variable {σ : Type} [Sources (Routine σ)] [Journal (Routine σ)] [MonadStateOf Supply (Routine σ)]
  (R : RecordingStore σ)

/-- What is recorded makes a store lawful. -/
def lawful : LawfulStore σ where
  store := R.store
  artifact s := (R.view s).artifacts
  current := R.undisturbed.current.comp _
  isFile p := (R.undisturbed.isFile p).comp _
  readText p := (R.undisturbed.readText p).comp _
  pause := R.undisturbed.pause.comp _
  log severity message := (R.undisturbed.log severity message).comp _
  keep d := (R.undisturbed.keep d).comp _
  draw f := by
    refine ⟨(keeps_of_gives fun s => ?_).comp _, fun s => ?_⟩ <;> obtain ⟨supply, h⟩ := R.draw f s
    · exact ⟨_, h⟩
    · exact ⟨supply, h.exec_eq⟩
  load name := (keeps_of_gives fun s => ⟨_, R.load name s⟩).comp _
  loaded name s a h := Except.ok.inj (h.symm.trans (R.load name s).exec_eq)
  saved a s _ := by rw [(R.save a s).view_eq, StoreView.artifacts_save]
  notSaved a s e h := nomatch (R.save a s).exec_eq.symm.trans h
  loadManifest library := (keeps_of_gives fun s => ⟨_, R.loadManifest library s⟩).comp _
  saveManifest m s := by
    obtain ⟨_, h⟩ := R.saveManifest m s
    simp only [h.view_eq, StoreView.artifacts_saveManifest]

theorem gives_log (severity : Severity) (message : String) (s : σ) :
    Gives R.view (Journal.log severity message : Routine σ Unit) s () (R.view s) :=
  (R.undisturbed.log severity message).gives (R.logged severity message s)

theorem gives_report (d : Diagnostic) (s : σ) :
    Gives R.view (report d : Routine σ Unit) s () (R.view s) := by
  obtain ⟨t, ht, hview⟩ := (R.undisturbed.keep d).gives (R.kept d s)
  rw [← hview]
  unfold report
  rw [Gives, exec_bind, ht]
  exact R.gives_log _ _ t

theorem exists_of_mapM_table {earlier : Option ArtifactRecord} {e : DocumentError}
    (h : (earlier.mapM fun a => a.identifiers.table) = .error e) :
    ∃ a, earlier = some a ∧ a.identifiers.table = .error e := by
  cases earlier with
  | none => cases h
  | some a =>
    rw [Option.mapM_some] at h
    cases htable : a.identifiers.table with
    | ok i =>
      rw [htable] at h
      cases h
    | error e' =>
      rw [htable] at h
      cases h
      exact ⟨a, rfl, htable⟩

theorem exists_table_of_mapM {earlier : Option ArtifactRecord} {identifiers : Option IdentifierTable}
    (h : (earlier.mapM fun a => a.identifiers.table) = .ok identifiers) {a : ArtifactRecord}
    (ha : earlier = some a) : ∃ i, a.identifiers.table = .ok i := by
  subst ha
  rw [Option.mapM_some] at h
  cases htable : a.identifiers.table with
  | ok i => exact ⟨i, rfl⟩
  | error e =>
    rw [htable] at h
    cases h

section

variable {R} {u : UpdateInputs} {source : String} {p : Progress} {f : ShaderFunction} {s t : σ}

theorem loaded_of_exec {r : Except Fault (Option ArtifactRecord)}
    (h : exec (R.store.load f.name) s = (r, t)) :
    r = .ok ((R.view s).artifacts f.name) ∧ R.view t = R.view s := (R.load f.name s).of_exec h

/-- Drawing comes to a result, and that is why a function is generated or has no numbers. -/
theorem drawn_cases {r : Except Fault (Except NumeralError Artifact)}
    (h : Drawn R.store u f s r t) : R.view t = R.view s
      ∧ ((∃ e, r = .ok (.error e) ∧ StoreView.Hindered u p (R.view s) f)
        ∨ ∃ g : Generation, r = .ok (.ok g.artifact) ∧ g.Sound ∧ g.inputs = u ∧ g.function = f
          ∧ ArtifactRecord.isCurrent ((R.view s).artifacts f.name) (u.tag f) = .ok false
          ∧ ∀ a, (R.view s).artifacts f.name = some a → ∃ i, a.identifiers.table = .ok i) := by
  obtain ⟨hload, hc, hs, hi, hdraw⟩ := h
  obtain ⟨hearlier, hv⟩ := loaded_of_exec hload
  cases hearlier
  obtain ⟨supply, hgives⟩ := R.draw (Artifact.generate f _ (u.tag f) u.context _) _
  obtain ⟨rfl, ht⟩ := hgives.of_exec hdraw
  refine ⟨ht.trans hv, ?_⟩
  rcases Artifact.generate_cases f _ (u.tag f) u.context _ supply with ⟨e, he, hmade⟩ | ⟨n, -, ha⟩
  · exact .inl ⟨e, congrArg _ hmade, .unnumbered hc hs he⟩
  · obtain ⟨g, hg, hu, hf, hmade⟩ := exists_generation hs ha
    exact .inr ⟨g, by rw [ha, hmade], hg, hu, hf, hc, fun _ => exists_table_of_mapM hi⟩

theorem step_of_course {res : Except Fault Progress} (h : Course R.store u source p f s res t) :
    StoreView.Step u p (R.view s) f res (R.view t) := by
  cases h with
  | unlisted hp => exact .hindered (.unlisted hp)
  | unloaded hload => cases (loaded_of_exec hload).1
  | uncompared hload hc =>
    obtain ⟨hearlier, ht⟩ := loaded_of_exec hload
    cases hearlier
    rw [ht]
    exact .hindered (.uncompared hc)
  | skipped hq hload hc hlog =>
    obtain ⟨hearlier, hv⟩ := loaded_of_exec hload
    cases hearlier
    obtain ⟨rfl, ht⟩ := (R.gives_log _ _ _).of_exec hlog
    rw [ht, hv]
    exact .skipped hq hc
  | failed hq hload hc hs _ hreport =>
    obtain ⟨hearlier, hv⟩ := loaded_of_exec hload
    cases hearlier
    obtain ⟨rfl, ht⟩ := (R.gives_report _ _).of_exec hreport
    rw [ht, hv]
    exact .failed hq hc hs
  | unidentified hload hc hs hi =>
    obtain ⟨hearlier, ht⟩ := loaded_of_exec hload
    cases hearlier
    obtain ⟨a, ha, htable⟩ := exists_of_mapM_table hi
    rw [ht]
    exact .hindered (.unidentified hc hs ha htable)
  | undrawn h =>
    obtain ⟨-, ⟨e, he, -⟩ | ⟨g, hg, -⟩⟩ := drawn_cases (p := p) h
    · cases he
    · cases hg
  | unnumbered h =>
    obtain ⟨ht, ⟨e, -, he⟩ | ⟨g, hg, -⟩⟩ := drawn_cases (p := p) h
    · rw [ht]
      exact .hindered he
    · cases hg
  | unsaved h hsave => cases ((R.save _ _).of_exec hsave).1
  | updated hq h hsave hlog =>
    obtain ⟨hv, ⟨e, he, -⟩ | ⟨g, hmade, hg, hu, hf, hc, hi⟩⟩ := drawn_cases (p := p) h
    · cases he
    · cases hmade
      obtain ⟨-, hw⟩ := (R.save g.artifact _).of_exec hsave
      obtain ⟨rfl, ht⟩ := (R.gives_log _ _ _).of_exec hlog
      rw [ht, hw, hv]
      exact .generated hq hc hi hg hu hf

end

theorem step_updateFunction (u : UpdateInputs) (source : String) (p : Progress)
    (f : ShaderFunction) (s : σ) :
    StoreView.Step u p (R.view s) f (exec (updateFunction R.store u source p f) s).1
      (R.view (exec (updateFunction R.store u source p f) s).2) :=
  step_of_course (course_updateFunction R.store u source p f s)

theorem run_foldlM (u : UpdateInputs) (source : String) :
    ∀ (fs : List ShaderFunction) (p : Progress) (s : σ),
      StoreView.Run u p (R.view s) fs (exec (fs.foldlM (updateFunction R.store u source) p) s).1
        (R.view (exec (fs.foldlM (updateFunction R.store u source) p) s).2)
  | [], _, _ => .done
  | f :: fs, p, s => by
    have hstep := R.step_updateFunction u source p f s
    rw [List.foldlM_cons]
    refine exec_bind_cases (Q := fun res t => StoreView.Run u p (R.view s) (f :: fs) res (R.view t))
      (fun e t h => ?_) fun q t h => ?_ <;> rw [h] at hstep
    · exact .fault hstep
    · exact .step hstep (run_foldlM u source fs q t)

theorem update_updateFunctions (u : UpdateInputs) (source : String) (r : UpdateReport) (s : σ) :
    StoreView.Update u r (R.view s) (exec (updateFunctions R.store u source r) s).1
      (R.view (exec (updateFunctions R.store u source r) s).2) := by
  let Q : Except Fault UpdateReport → σ → Prop :=
    fun res t => StoreView.Update u r (R.view s) res (R.view t)
  change Q _ _
  unfold updateFunctions
  refine (R.loadManifest _ s).exec_bind fun s1 hs1 => ?_
  have hrun := R.run_foldlM u source u.functions
    (.start r ((R.view s).manifests r.library) u.context.sourceFile) s1
  rw [hs1] at hrun
  refine exec_bind_cases (fun e s2 h => ?_) fun p s2 h => ?_ <;> rw [h] at hrun
  · exact .fault hrun
  · refine exec_orFault_bind_cases (fun e he => .unlisted hrun he) fun q hq => ?_
    simp only
    split
    · rename_i hc
      obtain ⟨time, hsaved⟩ := R.saveManifest q.manifest s2
      refine hsaved.exec_bind fun t ht => ?_
      change StoreView.Update u r (R.view s) (.ok q.report) (R.view t)
      rw [ht]
      exact .changed hrun hq hc
    · rename_i hc
      exact .unchanged hrun hq (by simpa using hc)

/-- What an update does to a store once all is read. -/
theorem exists_update {l : Library} {p : Project} {s : σ} {u : UpdateInputs}
    (hu : LawfulStore.inputsAt l p s = some u) :
    ∃ includes, StoreView.Update u { library := l.name, includes := includes } (R.view s)
      (exec (l.update p R.store) s).1 (R.view (exec (l.update p R.store) s).2) := by
  obtain ⟨includes, s1, hgather, heq⟩ := LawfulStore.exists_update_eq hu
  rw [heq, ← (R.undisturbed.keeps_gather l p).of_exec hgather]
  exact ⟨includes, R.update_updateFunctions u _ _ s1⟩

end RecordingStore

end ShaderGraph
