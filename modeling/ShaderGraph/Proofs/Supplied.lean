import ShaderGraph.Proofs.Ledger

/-!
# What updates save and draw

What an update makes of a function depends on the earlier artifact, the function and the supply of
identifiers, and on nothing else. So the artifacts that an update saves, the fault that stops it and
what is left of the supply can be computed from what it has read, function by function. A function
without a signature adds nothing to them.
-/

namespace ShaderGraph

open Json Routine

/-- The fault that a program ends in. -/
def faultOf {α : Type} : Except Fault α → Option Fault
  | .ok _ => none
  | .error e => some e

/-- What an update makes of functions: the artifacts that it saves, the fault that stops it, if one
does, and what is left of the supply. -/
structure Made where
  artifacts : List Artifact
  fault : Option Fault
  supply : Supply

namespace StoreView

/-- The view after artifacts were saved one after the other. -/
def saveAll (v : StoreView) (as : List Artifact) : StoreView := as.foldl save v

variable {v : StoreView} {as bs : List Artifact} {name : String}

@[simp]
theorem saveAll_nil : v.saveAll [] = v := rfl

theorem saveAll_append : v.saveAll (as ++ bs) = (v.saveAll as).saveAll bs := List.foldl_append

theorem manifests_saveManifest_of_ne {m : Manifest} {library : String}
    (hm : m.library = .string library) (hne : name ≠ library) :
    (v.saveManifest m).manifests name = v.manifests name := by
  simp only [saveManifest, hm]
  exact Function.update_of_ne hne ..

theorem manifests_saveManifest_self {m : Manifest} {library : String}
    (hm : m.library = .string library) : (v.saveManifest m).manifests library = m := by
  simp only [saveManifest, hm]
  exact Function.update_self ..

theorem manifests_saveAll : ∀ (as : List Artifact) (v : StoreView),
    (v.saveAll as).manifests = v.manifests
  | [], _ => rfl
  | _ :: as, v => manifests_saveAll as (v.save _)

theorem writes_saveAll : ∀ (as : List Artifact) (v : StoreView),
    (v.saveAll as).writes = v.writes ++ as.map fun a => .artifact a.record
  | [], v => (List.append_nil _).symm
  | a :: as, v => by
    rw [saveAll, List.foldl_cons, ← saveAll, writes_saveAll as, writes_save, List.map_cons,
      List.append_assoc, List.singleton_append]

theorem artifacts_saveAll_of_not_mem : ∀ {as : List Artifact} {v : StoreView},
    name ∉ as.map (·.name) → (v.saveAll as).artifacts name = v.artifacts name
  | [], _, _ => rfl
  | a :: as, v, h => by
    rw [List.map_cons, List.mem_cons, not_or] at h
    have hrest := artifacts_saveAll_of_not_mem (v := v.save a) h.2
    rw [artifacts_save, Function.update_of_ne h.1] at hrest
    exact hrest

end StoreView

namespace UpdateInputs

/-- What an update makes of a function with this earlier artifact. -/
def make (u : UpdateInputs) (earlier : Option ArtifactRecord) (f : ShaderFunction) (k : Supply) :
    Made :=
  match ArtifactRecord.isCurrent earlier (u.tag f) with
  | .error e => ⟨[], some (.document e), k⟩
  | .ok true => ⟨[], none, k⟩
  | .ok false =>
    match f.signature with
    | .error _ => ⟨[], none, k⟩
    | .ok s =>
      match earlier.mapM fun a => a.identifiers.table with
      | .error e => ⟨[], some (.document e), k⟩
      | .ok identifiers =>
        match Artifact.generate f s (u.tag f) u.context identifiers k with
        | (.error e, k') => ⟨[], some (.numeral e), k'⟩
        | (.ok a, k') => ⟨[a], none, k'⟩

/-- What an update makes of functions one after the other. -/
def makeAll (u : UpdateInputs) : List ShaderFunction → StoreView → Supply → Made
  | [], _, k => ⟨[], none, k⟩
  | f :: fs, v, k =>
    let first := u.make (v.artifacts f.name) f k
    match first.fault with
    | some _ => first
    | none =>
      let rest := u.makeAll fs (v.saveAll first.artifacts) first.supply
      { rest with artifacts := first.artifacts ++ rest.artifacts }

variable {u : UpdateInputs} {earlier : Option ArtifactRecord} {f : ShaderFunction} {k : Supply}

/-- A function without a signature has no artifact and takes nothing from the supply. -/
theorem make_of_invalid {e : PinError} (h : f.signature = .error e) :
    (u.make earlier f k).artifacts = [] ∧ (u.make earlier f k).supply = k := by
  unfold make
  rw [h]
  split <;> exact ⟨rfl, rfl⟩

/-- The artifacts of a store have comments that are texts. -/
def Commented (v : StoreView) : Prop :=
  ∀ name a, v.artifacts name = some a → ∃ c, a.comment = .string c

theorem Commented.save {v : StoreView} (h : Commented v) (a : Artifact) : Commented (v.save a) := by
  intro name r hr
  rw [StoreView.artifacts_save] at hr
  by_cases hname : name = a.name
  · subst hname
    rw [Function.update_self] at hr
    obtain rfl := Option.some.inj hr
    exact ⟨_, rfl⟩
  · rw [Function.update_of_ne hname] at hr
    exact h name r hr

theorem Commented.saveAll : ∀ {as : List Artifact} {v : StoreView}, Commented v →
    Commented (v.saveAll as)
  | [], _, h => h
  | a :: as, v, h => show Commented ((v.save a).saveAll as) from Commented.saveAll (h.save a)

theorem fault_make_of_invalid {v : StoreView} {e : PinError} (hv : Commented v)
    (h : f.signature = .error e) : (u.make (v.artifacts f.name) f k).fault = none := by
  have hcurrent : ∃ b, ArtifactRecord.isCurrent (v.artifacts f.name) (u.tag f) = .ok b := by
    cases ha : v.artifacts f.name with
    | none => exact ⟨false, rfl⟩
    | some a =>
      obtain ⟨c, hc⟩ := hv _ _ ha
      rw [ArtifactRecord.isCurrent, hc]
      exact ⟨_, rfl⟩
  obtain ⟨b, hb⟩ := hcurrent
  unfold make
  rw [hb, h]
  cases b <;> rfl

/-- What is made of functions does not depend on the functions that the update has read. -/
theorem makeAll_withFunctions (gs : List ShaderFunction) : ∀ (fs : List ShaderFunction)
    (v : StoreView) (k : Supply), makeAll { u with functions := gs } fs v k = u.makeAll fs v k
  | [], _, _ => rfl
  | f :: fs, v, k => by
    have hfirst : make { u with functions := gs } (v.artifacts f.name) f k
        = u.make (v.artifacts f.name) f k := rfl
    rw [makeAll, makeAll, hfirst]
    simp only [makeAll_withFunctions gs fs]

/-- Functions without a signature can be left out. -/
theorem makeAll_filter : ∀ (fs : List ShaderFunction) {v : StoreView} (k : Supply), Commented v →
    u.makeAll (fs.filter fun f => f.signature.toOption.isSome) v k = u.makeAll fs v k
  | [], _, _, _ => rfl
  | f :: fs, v, k, hv => by
    cases hf : f.signature with
    | ok s =>
      rw [List.filter_cons_of_pos (by rw [hf]; rfl), makeAll, makeAll]
      split
      · rfl
      · rw [makeAll_filter fs _ hv.saveAll]
    | error e =>
      obtain ⟨hartifacts, hsupply⟩ : (u.make (v.artifacts f.name) f k).artifacts = []
          ∧ (u.make (v.artifacts f.name) f k).supply = k := make_of_invalid hf
      have hfault := fault_make_of_invalid (u := u) (k := k) hv hf
      rw [List.filter_cons_of_neg (by rw [hf]; exact Bool.false_ne_true), makeAll_filter fs k hv,
        makeAll]
      simp only [hfault, hartifacts, hsupply, List.nil_append, StoreView.saveAll_nil]

end UpdateInputs

/-- A store that shows the supply of identifiers too: nothing but a draw changes it. -/
structure SupplyingStore (σ : Type) [Sources (Routine σ)] [Journal (Routine σ)]
    [MonadStateOf Supply (Routine σ)] extends RecordingStore σ where
  supply : σ → Supply
  undisturbedSupply : Undisturbed supply
  drawn : ∀ {α : Type} (f : Supply → α × Supply) s,
    Gives supply (modifyGetThe Supply f : Routine σ α) s (f (supply s)).1 (f (supply s)).2
  loadKeeps : ∀ name, Keeps supply (store.load name)
  saveKeeps : ∀ a, Keeps supply (store.save a)
  loadManifestKeeps : ∀ library, Keeps supply (store.loadManifest library)
  saveManifestKeeps : ∀ manifest, Keeps supply (store.saveManifest manifest)

namespace SupplyingStore

variable {σ : Type} [Sources (Routine σ)] [Journal (Routine σ)] [MonadStateOf Supply (Routine σ)]
  (S : SupplyingStore σ)

/-- What is seen of a store and its supply. -/
def seen (s : σ) : StoreView × Supply := (S.view s, S.supply s)

variable {S} in
theorem gives_seen {α : Type} {x : Routine σ α} {s : σ} {a : α} {v : StoreView}
    (h : Gives S.view x s a v) (hk : Keeps S.supply x) : Gives S.seen x s a (v, S.supply s) := by
  obtain ⟨t, hx, ht⟩ := h
  have hsupply := hk s
  rw [hx] at hsupply
  exact ⟨t, hx, Prod.ext ht hsupply⟩

theorem gives_draw {α : Type} (f : Supply → α × Supply) (s : σ) :
    Gives S.seen (modifyGetThe Supply f : Routine σ α) s (f (S.supply s)).1
      (S.view s, (f (S.supply s)).2) := by
  obtain ⟨t, hx, ht⟩ := S.drawn f s
  obtain ⟨supply, t', hx', ht'⟩ := S.draw f s
  obtain rfl : t = t' := congrArg Prod.snd (hx.symm.trans hx')
  exact ⟨t, hx, Prod.ext ht' ht⟩

theorem keeps_gather (l : Library) (p : Project) :
    Keeps S.seen (l.gather p : Routine σ (UpdateReport ⊕ UpdateInputs × UpdateReport)) := fun s =>
  Prod.ext (S.undisturbed.keeps_gather l p s) (S.undisturbedSupply.keeps_gather l p s)

/-- What an update tells when it has saved artifacts: their names, and nothing else went wrong. -/
def Tells (before after : UpdateReport) (as : List Artifact) : Prop :=
  after.updated = before.updated ++ as.map (·.name) ∧ after.error = before.error

/-- From one progress an update comes to its end or to another progress, with what was made. -/
structure Brings (p : Progress) (s : σ) (m : Made) (res : Except Fault Progress) (t : σ) : Prop where
  view : S.view t = (S.view s).saveAll m.artifacts
  supply : S.supply t = m.supply
  fault : m.fault = faultOf res
  tells : ∀ q, res = .ok q → Tells p.report q.report m.artifacts

variable {S} in
theorem brings_of_seen {p : Progress} {s t : σ} {m : Made} {res : Except Fault Progress}
    (h : S.seen t = ((S.view s).saveAll m.artifacts, m.supply)) (hf : m.fault = faultOf res)
    (ht : ∀ q, res = .ok q → Tells p.report q.report m.artifacts) : S.Brings p s m res t :=
  ⟨congrArg Prod.fst h, congrArg Prod.snd h, hf, ht⟩

variable {S} in
theorem brings_of_fault {p : Progress} {s t : σ} {m : Made} {e : Fault}
    (h : S.seen t = ((S.view s).saveAll m.artifacts, m.supply)) (hf : m.fault = some e) :
    S.Brings p s m (.error e) t :=
  brings_of_seen h hf fun _ hq => by cases hq

section

variable {S} {u : UpdateInputs} {source : String} {p : Progress} {f : ShaderFunction} {s t : σ}

theorem loaded_of_exec {r : Except Fault (Option ArtifactRecord)}
    (h : exec (S.store.load f.name) s = (r, t)) :
    r = .ok ((S.view s).artifacts f.name) ∧ S.seen t = S.seen s :=
  (gives_seen (S.load f.name s) (S.loadKeeps _)).of_exec h

theorem logged_of_exec {severity : Severity} {message : String} {r : Except Fault Unit}
    (h : exec (Journal.log severity message : Routine σ Unit) s = (r, t)) :
    r = .ok () ∧ S.seen t = S.seen s :=
  (gives_seen (S.gives_log _ _ s) (S.undisturbedSupply.log _ _)).of_exec h

theorem reported_of_exec {d : Diagnostic} {r : Except Fault Unit}
    (h : exec (report d : Routine σ Unit) s = (r, t)) : r = .ok () ∧ S.seen t = S.seen s :=
  (gives_seen (S.gives_report _ s) (S.undisturbedSupply.keeps_report _)).of_exec h

/-- What is drawn for a function is generated with the supply there was. -/
theorem exists_of_drawn {r : Except Fault (Except NumeralError Artifact)}
    (h : Drawn S.store u f s r t) :
    ∃ signature identifiers made k,
      ArtifactRecord.isCurrent ((S.view s).artifacts f.name) (u.tag f) = .ok false
        ∧ f.signature = .ok signature
        ∧ (((S.view s).artifacts f.name).mapM fun a => a.identifiers.table) = .ok identifiers
        ∧ Artifact.generate f signature (u.tag f) u.context identifiers (S.supply s) = (made, k)
        ∧ r = .ok made ∧ S.seen t = (S.view s, k) := by
  obtain ⟨hload, hc, hs, hi, hdraw⟩ := h
  obtain ⟨hearlier, hv⟩ := loaded_of_exec hload
  cases hearlier
  obtain ⟨hview, hsupply⟩ := Prod.mk.inj hv
  have hmade := (S.gives_draw _ _).of_exec hdraw
  rw [hview, hsupply] at hmade
  exact ⟨_, _, _, _, hc, hs, hi, rfl, hmade⟩

theorem brings_of_course {ns : List String} {res : Except Fault Progress}
    (hp : p.manifest.functions = strings ns) (h : Course S.store u source p f s res t) :
    S.Brings p s (u.make ((S.view s).artifacts f.name) f (S.supply s)) res t := by
  generalize hm : u.make ((S.view s).artifacts f.name) f (S.supply s) = m
  unfold UpdateInputs.make at hm
  cases h with
  | unlisted he =>
    rw [Progress.register_of_strings hp] at he
    cases he
  | unloaded hload => cases (loaded_of_exec hload).1
  | uncompared hload hc =>
    obtain ⟨hearlier, ht⟩ := loaded_of_exec hload
    cases hearlier
    rw [hc] at hm
    subst hm
    exact brings_of_fault ht rfl
  | skipped hq hload hc hlog =>
    obtain ⟨hearlier, hv⟩ := loaded_of_exec hload
    cases hearlier
    rw [hc] at hm
    subst hm
    obtain ⟨rfl, ht⟩ := logged_of_exec hlog
    refine brings_of_seen (ht.trans hv) rfl fun q' hq' => ?_
    cases hq'
    simp [Tells, Progress.skipped, Progress.register_report hq]
  | failed hq hload hc hs _ hreport =>
    obtain ⟨hearlier, hv⟩ := loaded_of_exec hload
    cases hearlier
    rw [hc, hs] at hm
    subst hm
    obtain ⟨rfl, ht⟩ := reported_of_exec hreport
    refine brings_of_seen (ht.trans hv) rfl fun q' hq' => ?_
    cases hq'
    simp [Tells, Progress.failed, Progress.register_report hq]
  | unidentified hload hc hs hi =>
    obtain ⟨hearlier, ht⟩ := loaded_of_exec hload
    cases hearlier
    rw [hc, hs, hi] at hm
    subst hm
    exact brings_of_fault ht rfl
  | undrawn h =>
    obtain ⟨_, _, _, _, -, -, -, -, hmade, -⟩ := exists_of_drawn h
    cases hmade
  | unnumbered h =>
    obtain ⟨_, _, _, _, hc, hs, hi, hgenerated, hmade, ht⟩ := exists_of_drawn h
    cases hmade
    rw [hc, hs, hi] at hm
    simp only [hgenerated] at hm
    subst hm
    exact brings_of_fault ht rfl
  | unsaved _ hsave => cases ((S.save _ _).of_exec hsave).1
  | @updated q a r v w t hq h hsave hlog =>
    obtain ⟨_, _, _, k, hc, hs, hi, hgenerated, hmade, hv⟩ := exists_of_drawn h
    cases hmade
    rw [hc, hs, hi] at hm
    simp only [hgenerated] at hm
    subst hm
    obtain ⟨hview, hsupply⟩ := Prod.mk.inj hv
    obtain ⟨-, hw⟩ := (gives_seen (S.save a v) (S.saveKeeps _)).of_exec hsave
    rw [hview, hsupply] at hw
    obtain ⟨rfl, ht⟩ := logged_of_exec hlog
    refine brings_of_seen (ht.trans hw) rfl fun q' hq' => ?_
    obtain ⟨_, -, rfl⟩ := Artifact.exists_of_generate_eq_ok (congrArg Prod.fst hgenerated)
    cases hq'
    simp [Tells, Progress.updated, Progress.register_report hq, Artifact.withIdentifiers]

end

theorem brings_updateFunction (u : UpdateInputs) (source : String) {p : Progress}
    {ns : List String} (hp : p.manifest.functions = strings ns) (f : ShaderFunction) (s : σ) :
    S.Brings p s (u.make ((S.view s).artifacts f.name) f (S.supply s))
      (exec (updateFunction S.store u source p f) s).1
      (exec (updateFunction S.store u source p f) s).2 :=
  brings_of_course hp (course_updateFunction S.store u source p f s)

theorem brings_foldlM (u : UpdateInputs) (source : String) :
    ∀ (fs : List ShaderFunction) {p : Progress} {ns : List String} (s : σ),
      p.manifest.functions = strings ns →
      S.Brings p s (u.makeAll fs (S.view s) (S.supply s))
        (exec (fs.foldlM (updateFunction S.store u source) p) s).1
        (exec (fs.foldlM (updateFunction S.store u source) p) s).2
  | [], p, _, _, _ => by
    refine ⟨rfl, rfl, rfl, fun q hq => ?_⟩
    cases hq
    exact ⟨(List.append_nil _).symm, rfl⟩
  | f :: fs, p, ns, s, hp => by
    have hfirst := S.brings_updateFunction u source hp f s
    have hstep := S.step_updateFunction u source p f s
    rw [List.foldlM_cons, UpdateInputs.makeAll]
    refine exec_bind_cases (fun e t h => ?_) fun q t h => ?_ <;> rw [h] at hfirst hstep
    · have hfault := hfirst.fault
      simp only [faultOf] at hfault
      rw [hfault]
      exact ⟨hfirst.view, hfirst.supply, hfirst.fault, nofun⟩
    · have hfault := hfirst.fault
      simp only [faultOf] at hfault
      obtain ⟨ns', hleads, -⟩ := hstep.exists_leads hp
      have hrest := brings_foldlM u source fs t hleads.functions
      obtain ⟨hupdated, herror⟩ := hfirst.tells q rfl
      rw [hfault, ← hfirst.view, ← hfirst.supply]
      refine ⟨?_, hrest.supply, hrest.fault, fun q' hq' => ?_⟩
      · rw [hrest.view, hfirst.view, StoreView.saveAll_append]
      · obtain ⟨hupdated', herror'⟩ := hrest.tells q' hq'
        refine ⟨?_, herror'.trans herror⟩
        rw [hupdated', hupdated, List.map_append, List.append_assoc]

/-- What an update does once all is read: it saves what it makes of the functions, and then the
manifest, if that is to be saved. -/
structure Concludes (r : UpdateReport) (s : σ) (m : Made) (res : Except Fault UpdateReport) (t : σ) :
    Prop where
  view : S.view t = (S.view s).saveAll m.artifacts ∨ ∃ manifest : Manifest,
    manifest.library = .string r.library
      ∧ S.view t = ((S.view s).saveAll m.artifacts).saveManifest manifest
  supply : S.supply t = m.supply
  fault : m.fault = faultOf res
  tells : ∀ report, res = .ok report → Tells r report m.artifacts

theorem concludes_updateFunctions (u : UpdateInputs) (source : String) {r : UpdateReport} {s : σ}
    (hs : ((S.view s).manifests r.library).Typed r.library) :
    S.Concludes r s (u.makeAll u.functions (S.view s) (S.supply s))
      (exec (updateFunctions S.store u source r) s).1
      (exec (updateFunctions S.store u source r) s).2 := by
  generalize hm : u.makeAll u.functions (S.view s) (S.supply s) = m
  obtain ⟨ns, hns⟩ := hs.functions
  unfold updateFunctions
  refine (gives_seen (S.loadManifest _ s) (S.loadManifestKeeps _)).exec_bind fun s1 hs1 => ?_
  have hview1 : S.view s1 = S.view s := congrArg Prod.fst hs1
  have hsupply1 : S.supply s1 = S.supply s := congrArg Prod.snd hs1
  have hstart : (Progress.start r ((S.view s).manifests r.library)
    u.context.sourceFile).manifest.functions = strings ns := hns
  have hbrings := S.brings_foldlM u source u.functions s1 hstart
  have hrun := S.run_foldlM u source u.functions
    (.start r ((S.view s).manifests r.library) u.context.sourceFile) s1
  rw [hview1, hsupply1, hm] at hbrings
  refine exec_bind_cases (fun e s2 h => ?_) fun p s2 h => ?_ <;> rw [h] at hbrings hrun
  · exact ⟨.inl (hview1 ▸ hbrings.view), hbrings.supply, hbrings.fault, nofun⟩
  · obtain ⟨ns', hleads, -⟩ := hrun.exists_leads hns
    obtain ⟨q, hq, -⟩ := Progress.removeOthers_of_strings hleads.functions
      (u.functions.map (·.name))
    refine exec_orFault_bind_cases (fun e he => ?_) fun q' hq' => ?_
    · rw [hq] at he
      cases he
    obtain ⟨hfollows, -⟩ := hrun.exists_follows hs hq'
    have hview2 : S.view s2 = (S.view s).saveAll m.artifacts := hview1 ▸ hbrings.view
    have htells : ∀ report, Except.ok q'.report = Except.ok (ε := Fault) report →
        Tells r report m.artifacts := by
      intro report hreport
      cases hreport
      rw [Tells, Progress.removeOthers_report hq']
      exact hbrings.tells p rfl
    simp only
    split
    · obtain ⟨time, hsaved⟩ := S.saveManifest q'.manifest s2
      refine (gives_seen hsaved (S.saveManifestKeeps _)).exec_bind fun t ht => ?_
      refine ⟨.inr ⟨{ q'.manifest with updated := time }, hfollows.library, ?_⟩,
        (congrArg Prod.snd ht).trans hbrings.supply, hbrings.fault, htells⟩
      rw [← hview2]
      exact congrArg Prod.fst ht
    · exact ⟨.inl hview2, hbrings.supply, hbrings.fault, htells⟩

namespace Concludes

variable {S} {r : UpdateReport} {s t : σ} {m : Made} {res : Except Fault UpdateReport}

theorem artifacts_eq (h : S.Concludes r s m res t) :
    (S.view t).artifacts = ((S.view s).saveAll m.artifacts).artifacts := by
  rcases h.view with h | ⟨manifest, -, h⟩ <;> rw [h]
  rfl

theorem manifests_eq (h : S.Concludes r s m res t) {library : String} (hne : library ≠ r.library) :
    (S.view t).manifests library = (S.view s).manifests library := by
  rcases h.view with h | ⟨manifest, hlibrary, h⟩ <;> rw [h]
  · rw [StoreView.manifests_saveAll]
  · rw [StoreView.manifests_saveManifest_of_ne hlibrary hne, StoreView.manifests_saveAll]

theorem exists_writes (h : S.Concludes r s m res t) : ∃ ms : List Manifest,
    (S.view t).writes = (S.view s).writes ++ m.artifacts.map (fun a => .artifact a.record)
        ++ ms.map .manifest
      ∧ ms.length ≤ 1 ∧ ∀ manifest ∈ ms, manifest.library = .string r.library := by
  rcases h.view with h | ⟨manifest, hlibrary, h⟩ <;> rw [h]
  · exact ⟨[], by rw [StoreView.writes_saveAll, List.map_nil, List.append_nil], Nat.zero_le _, nofun⟩
  · refine ⟨[manifest], by rw [StoreView.writes_saveManifest, StoreView.writes_saveAll]; rfl,
      le_rfl, fun manifest' hmem => ?_⟩
    obtain rfl := List.mem_singleton.1 hmem
    exact hlibrary

end Concludes

end SupplyingStore

namespace Ledger

theorem keeps_supply {α : Type} {x : InWorld α} (h : Keeps World.supply x) :
    Keeps (fun s : Ledger => s.supply) (onShelf (Shelf.inWorld x)) := fun s => h s.toWorld

theorem keeps_getWorld : Keeps World.supply (getThe World : InWorld World) := fun _ => rfl

theorem keeps_isFile (p : DiskPath) : Keeps World.supply (Sources.isFile p : InWorld Bool) :=
  keeps_getWorld.bind fun w => by
    split
    · exact keeps_pure _
    · exact keeps_throw _

theorem keeps_readText (p : DiskPath) :
    Keeps World.supply (Sources.readText p : InWorld (Except FileError String)) :=
  keeps_getWorld.bind fun w => by
    split
    · exact keeps_pure _
    · exact keeps_throw _

/-- A ledger draws from the supply of its world. -/
def supplying : SupplyingStore Ledger where
  toRecordingStore := recording
  supply s := s.supply
  undisturbedSupply := ⟨fun _ => rfl, fun p => keeps_supply (keeps_isFile p),
    fun p => keeps_supply (keeps_readText p), fun _ => rfl, fun _ _ _ => rfl, fun _ _ => rfl⟩
  drawn _ _ := ⟨_, rfl, rfl⟩
  loadKeeps _ _ := rfl
  saveKeeps _ _ := rfl
  loadManifestKeeps _ _ := rfl
  saveManifestKeeps _ _ := rfl

end Ledger

end ShaderGraph
