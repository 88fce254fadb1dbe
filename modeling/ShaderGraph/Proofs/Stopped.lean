import ShaderGraph.Proofs.Supplied

/-!
# Updates that are stopped

An update can be stopped right after any of its writes. Its store is then as it is between two
functions, or after the manifest: a write is the last thing that is done for a function. So whatever
updates are made and stopped, the documents of a store keep their types.
-/

namespace ShaderGraph

open Json Routine

namespace StoreView

variable {u : UpdateInputs} {r : UpdateReport} {v w : StoreView} {res : Except Fault UpdateReport}

/-- Whatever an update comes to, the documents of all libraries keep their types. -/
theorem Update.typed_all (h : Update u r v res w) (hv : ∀ library, v.Typed library)
    (library : String) : w.Typed library := by
  cases h with
  | fault h | unlisted h _ | unchanged h _ _ => exact h.typed (hv library)
  | @changed p q w time h hq hc =>
    by_cases hne : library = r.library
    · subst hne
      have hend : Update u r v (.ok q.report) (w.saveManifest { q.manifest with updated := time }) :=
        .changed h hq hc
      exact hend.typed (hv _)
    · obtain ⟨hfollows, -⟩ := h.exists_follows (hv _).manifest hq
      have hw := h.typed (hv library)
      refine ⟨?_, hw.comment, hw.identifiers⟩
      have hother : (w.saveManifest { q.manifest with updated := time }).manifests library
          = w.manifests library := manifests_saveManifest_of_ne hfollows.library hne
      rw [hother]
      exact hw.manifest

end StoreView

namespace RecordingStore

variable {σ : Type} [Sources (Routine σ)] [Journal (Routine σ)] [MonadStateOf Supply (Routine σ)]
  (R : RecordingStore σ)

/-- The end of a program by which so much has been written. -/
def stopAt (n : Nat) (e : Fault) : Routine σ Unit := fun s =>
  (if (R.view s).writes.length = n then .error e else .ok (), s)

/-- The store for a program that is stopped right after a write. -/
def upTo (n : Nat) (e : Fault) : ArtifactStore (Routine σ) where
  load := R.store.load
  save a := do
    R.store.save a
    R.stopAt n e
  loadManifest := R.store.loadManifest
  saveManifest m := do
    R.store.saveManifest m
    R.stopAt n e

/-- A program does what another one does, or is stopped where nothing more is changed. -/
def Cut (e : Fault) {α : Type} (x y : Routine σ α) : Prop := ∀ s, exec x s = exec y s
  ∨ (exec x s).1 = .error e ∧ ∃ a t, exec y s = (.ok a, t) ∧ R.view (exec x s).2 = R.view t

variable {R} {e : Fault} {n : Nat} {α β : Type}

theorem Cut.refl {x : Routine σ α} : R.Cut e x x := fun _ => .inl rfl

theorem Cut.bind {x : Routine σ α} {f g : α → Routine σ β} (h : ∀ a, R.Cut e (f a) (g a)) :
    R.Cut e (x >>= f) (x >>= g) := by
  intro s
  rw [exec_bind, exec_bind]
  rcases exec x s with ⟨_ | a, t⟩
  · exact .inl rfl
  · exact h a t

theorem Cut.view_eq {x y : Routine σ α} (h : R.Cut e x y) (s : σ) :
    R.view (exec x s).2 = R.view (exec y s).2 := by
  rcases h s with heq | ⟨-, a, t, ht, hview⟩
  · rw [heq]
  · rw [hview, ht]

theorem cut_stopAt {x : Routine σ Unit} {y : Routine σ α}
    (hy : ∀ s, ∃ a, Gives R.view y s a (R.view s)) :
    R.Cut e ((x >>= fun _ => R.stopAt n e) >>= fun _ => y) (x >>= fun _ => y) := by
  rw [bind_assoc]
  refine .bind fun _ s => ?_
  rw [exec_bind]
  by_cases h : (R.view s).writes.length = n
  · have hstop : exec (R.stopAt n e) s = (.error e, s) := by
      change (if _ then _ else _, s) = _
      rw [if_pos h]
    obtain ⟨a, t, ht, hview⟩ := hy s
    rw [hstop]
    exact .inr ⟨rfl, a, t, ht, hview.symm⟩
  · have hgo : exec (R.stopAt n e) s = (.ok (), s) := by
      change (if _ then _ else _, s) = _
      rw [if_neg h]
    rw [hgo]
    exact .inl rfl

theorem cut_updateFunction (u : UpdateInputs) (source : String) (p : Progress)
    (f : ShaderFunction) : R.Cut e (updateFunction (R.upTo n e) u source p f)
      (updateFunction R.store u source p f) := by
  unfold updateFunction logInfo
  refine .bind fun q => .bind fun earlier => .bind fun b => ?_
  cases b with
  | true => exact .refl
  | false =>
    simp only [Bool.false_eq_true, ↓reduceIte]
    cases f.signature with
    | error e => exact .refl
    | ok s =>
      refine .bind fun identifiers => .bind fun made => .bind fun a => ?_
      refine cut_stopAt fun s => ?_
      obtain ⟨t, ht, hview⟩ := R.gives_log .info (f.name ++ " updated") s
      refine ⟨q.updated f.name, t, ?_, hview⟩
      rw [exec_bind, ht]
      rfl

/-- Functions are brought up to date, or the first of them, before the program is stopped. -/
theorem foldlM_upTo (u : UpdateInputs) (source : String) (fs : List ShaderFunction) (p : Progress)
    (s : σ) : exec (fs.foldlM (updateFunction (R.upTo n e) u source) p) s
        = exec (fs.foldlM (updateFunction R.store u source) p) s
      ∨ (exec (fs.foldlM (updateFunction (R.upTo n e) u source) p) s).1 = .error e
        ∧ ∃ before after q t, fs = before ++ after
          ∧ exec (before.foldlM (updateFunction R.store u source) p) s = (.ok q, t)
          ∧ R.view (exec (fs.foldlM (updateFunction (R.upTo n e) u source) p) s).2 = R.view t := by
  induction fs generalizing p s with
  | nil =>
    rw [List.foldlM_nil, List.foldlM_nil]
    exact .inl rfl
  | cons f fs ih =>
    rw [List.foldlM_cons, List.foldlM_cons, exec_bind, exec_bind]
    rcases cut_updateFunction u source p f s with heq | ⟨herror, q, t, ht, hview⟩
    · rw [heq]
      rcases hfirst : exec (updateFunction R.store u source p f) s with ⟨e' | q, t⟩
      · exact .inl rfl
      · rcases ih q t with heq | ⟨herror, before, after, q', t', rfl, ht', hview⟩
        · exact .inl heq
        · refine .inr ⟨herror, f :: before, after, q', t', rfl, ?_, hview⟩
          rw [List.foldlM_cons, exec_bind, hfirst]
          exact ht'
    · rcases hstopped : exec (updateFunction (R.upTo n e) u source p f) s with ⟨res, t'⟩
      rw [hstopped] at herror hview
      obtain rfl : res = .error e := herror
      refine .inr ⟨rfl, [f], fs, q, t, rfl, ?_, hview⟩
      rw [List.foldlM_cons, exec_bind, ht]
      rfl

/-- A view that an update comes by between two functions. -/
def Passes (R : RecordingStore σ) (u : UpdateInputs) (source : String) (r : UpdateReport) (s : σ)
    (v : StoreView) : Prop :=
  ∃ before after q s1 t, u.functions = before ++ after ∧ R.view s1 = R.view s
    ∧ exec (before.foldlM (updateFunction R.store u source)
      (.start r ((R.view s).manifests r.library) u.context.sourceFile)) s1 = (.ok q, t)
    ∧ v = R.view t

theorem cut_saveManifest (changed : Bool) (m : Manifest) (report : UpdateReport) :
    R.Cut e (do
        if changed then (R.upTo n e).saveManifest m
        return report)
      (do
        if changed then R.store.saveManifest m
        return report) := by
  cases changed with
  | false => exact .refl
  | true => exact cut_stopAt fun s => ⟨report, s, rfl, rfl⟩

theorem updateFunctions_upTo (u : UpdateInputs) (source : String) (r : UpdateReport) (s : σ) :
    R.view (exec (updateFunctions (R.upTo n e) u source r) s).2
        = R.view (exec (updateFunctions R.store u source r) s).2
      ∨ R.Passes u source r s (R.view (exec (updateFunctions (R.upTo n e) u source r) s).2) := by
  obtain ⟨s1, hload, hs1⟩ := R.loadManifest r.library s
  have hload' : exec ((R.upTo n e).loadManifest r.library) s
      = exec (R.store.loadManifest r.library) s := rfl
  unfold updateFunctions
  rw [exec_bind, exec_bind, hload', hload]
  simp only
  rw [exec_bind, exec_bind]
  rcases foldlM_upTo u source u.functions
      (.start r ((R.view s).manifests r.library) u.context.sourceFile) s1 with
    heq | ⟨herror, before, after, q, t, hfs, ht, hview⟩
  · rw [heq]
    rcases exec (u.functions.foldlM (updateFunction R.store u source)
      (.start r ((R.view s).manifests r.library) u.context.sourceFile)) s1 with ⟨e' | p, s2⟩
    · exact .inl rfl
    · have hcut : R.Cut e (do
          let p ← orFault .document (p.removeOthers (u.functions.map (·.name)))
          if p.changed then (R.upTo n e).saveManifest p.manifest
          return p.report)
        (do
          let p ← orFault .document (p.removeOthers (u.functions.map (·.name)))
          if p.changed then R.store.saveManifest p.manifest
          return p.report) := .bind fun p => cut_saveManifest _ _ _
      exact .inl (hcut.view_eq s2)
  · rcases hstopped : exec (u.functions.foldlM (updateFunction (R.upTo n e) u source)
      (.start r ((R.view s).manifests r.library) u.context.sourceFile)) s1 with ⟨res, t'⟩
    rw [hstopped] at herror hview
    obtain rfl : res = .error e := herror
    exact .inr ⟨before, after, q, s1, t, hfs, hs1, ht, hview⟩

theorem Passes.run {u : UpdateInputs} {source : String} {r : UpdateReport} {s : σ} {v : StoreView}
    (h : R.Passes u source r s v) : ∃ before after q, u.functions = before ++ after
      ∧ StoreView.Run u (.start r ((R.view s).manifests r.library) u.context.sourceFile) (R.view s)
        before (.ok q) v := by
  obtain ⟨before, after, q, s1, t, hfs, hs1, ht, rfl⟩ := h
  have hrun := R.run_foldlM u source before
    (.start r ((R.view s).manifests r.library) u.context.sourceFile) s1
  rw [ht, hs1] at hrun
  exact ⟨before, after, q, hfs, hrun⟩

variable {l : Library} {p : Project} {s : σ}

/-- An update that does not come to the functions leaves the store alone. -/
theorem view_update_of_none (store : ArtifactStore (Routine σ))
    (hu : LawfulStore.inputsAt l p s = none) : R.view (exec (l.update p store) s).2 = R.view s := by
  rw [LawfulStore.exec_update_of_none hu]
  exact R.undisturbed.keeps_gather l p s

/-- An update that is stopped leaves the store as the whole update does, or as it is between two
functions. -/
theorem update_upTo {u : UpdateInputs} (hu : LawfulStore.inputsAt l p s = some u) :
    R.view (exec (l.update p (R.upTo n e)) s).2 = R.view (exec (l.update p R.store) s).2
      ∨ ∃ includes, R.Passes u (p.sourcePath l).toText { library := l.name, includes := includes } s
        (R.view (exec (l.update p (R.upTo n e)) s).2) := by
  obtain ⟨includes, s1, hgather, heq⟩ := LawfulStore.exists_update_eq hu
  have hs1 : R.view s1 = R.view s := (R.undisturbed.keeps_gather l p).of_exec hgather
  rw [heq, heq]
  refine (updateFunctions_upTo u _ _ s1).imp_right fun h => ⟨includes, ?_⟩
  unfold Passes at h ⊢
  rwa [hs1] at h

/-- The states that updates of libraries lead to from an empty store, whole ones and stopped ones.
Between updates everything but the store may change. -/
inductive Reached (R : RecordingStore σ) : σ → Prop
  | start {s : σ} (hartifacts : ∀ name, (R.view s).artifacts name = none)
      (hmanifests : ∀ library, (R.view s).manifests library = { library := .string library }) :
      Reached R s
  | edit {s t : σ} (h : Reached R s) (ht : R.view t = R.view s) : Reached R t
  | update {s : σ} (h : Reached R s) (l : Library) (p : Project) :
      Reached R (exec (l.update p R.store) s).2
  | stopped {s : σ} (h : Reached R s) (l : Library) (p : Project) (n : Nat) (e : Fault) :
      Reached R (exec (l.update p (R.upTo n e)) s).2

theorem typed_all_of_update (hs : ∀ library, (R.view s).Typed library) (l : Library) (p : Project)
    (library : String) : (R.view (exec (l.update p R.store) s).2).Typed library := by
  cases hu : LawfulStore.inputsAt l p s with
  | none => exact view_update_of_none R.store hu ▸ hs library
  | some u =>
    obtain ⟨includes, h⟩ := R.exists_update hu
    exact h.typed_all hs library

/-- The documents of a store that updates have made have their types. -/
theorem Reached.typed (h : R.Reached s) : ∀ library, (R.view s).Typed library := by
  induction h with
  | start hartifacts hmanifests =>
    intro library
    refine ⟨?_, fun ha => ?_, fun ha => ?_⟩
    · rw [hmanifests]
      exact ⟨rfl, [], rfl⟩
    · rw [hartifacts] at ha
      cases ha
    · rw [hartifacts] at ha
      cases ha
  | edit _ ht ih => exact ht ▸ ih
  | update _ l p ih => exact typed_all_of_update ih l p
  | @stopped s _ l p n e ih =>
    cases hu : LawfulStore.inputsAt l p s with
    | none => exact view_update_of_none _ hu ▸ ih
    | some u =>
      intro library
      rcases update_upTo (n := n) (e := e) hu with heq | ⟨includes, h⟩
      · rw [heq]
        exact typed_all_of_update ih l p library
      · obtain ⟨before, after, q, -, hrun⟩ := h.run
        exact hrun.typed (ih library)

end RecordingStore

namespace SupplyingStore

variable {σ : Type} [Sources (Routine σ)] [Journal (Routine σ)] [MonadStateOf Supply (Routine σ)]
  (S : SupplyingStore σ) {l : Library} {p : Project} {s : σ} {u : UpdateInputs}

/-- What an update that comes to the functions does to a store and its supply. -/
theorem exists_concludes (hu : LawfulStore.inputsAt l p s = some u) (hs : (S.view s).Typed l.name) :
    ∃ includes, S.Concludes { library := l.name, includes := includes } s
      (u.makeAll u.functions (S.view s) (S.supply s)) (exec (l.update p S.store) s).1
      (exec (l.update p S.store) s).2 := by
  obtain ⟨includes, s1, hgather, heq⟩ := LawfulStore.exists_update_eq hu
  have hs1 := S.keeps_gather l p s
  rw [hgather] at hs1
  have hview : S.view s1 = S.view s := congrArg Prod.fst hs1
  have hsupply : S.supply s1 = S.supply s := congrArg Prod.snd hs1
  have h := S.concludes_updateFunctions u (p.sourcePath l).toText
    (r := { library := l.name, includes := includes }) (s := s1) (hview ▸ hs.manifest)
  have hafter := h.view
  rw [hview, hsupply] at h hafter
  rw [heq]
  exact ⟨includes, hafter, h.supply, h.fault, h.tells⟩

end SupplyingStore

end ShaderGraph
