import ShaderGraph.Proofs.Neighbours
import ShaderGraph.Proofs.Skip
import ShaderGraph.Proofs.Stopped

/-!
# Updates that are made again after they were stopped

An update that was stopped has left every function that is alone in its name as it was, or as the
whole update leaves it, but for the identifiers that were drawn; what it has made is current when it
is made again. The manifest lists the names in an order that only depends on what it has listed
before.
-/

namespace ShaderGraph

open Json Routine Text

/-! ## Artifacts -/

namespace UpdateInputs

/-- What becomes of the artifact of a function that has its turn: it is kept, if it is current or
there is no signature, or it is generated with the identifiers that it has had. -/
inductive Renews (u : UpdateInputs) (f : ShaderFunction) (earlier : Option ArtifactRecord) :
    Option ArtifactRecord → Prop
  | kept (h : ArtifactRecord.isCurrent earlier (u.tag f) = .ok true ∨ ∃ e, f.signature = .error e) :
      Renews u f earlier earlier
  | generated {s : Signature} {identifiers : Option IdentifierTable} {k : Supply} {a : Artifact}
      (hc : ArtifactRecord.isCurrent earlier (u.tag f) = .ok false) (hs : f.signature = .ok s)
      (hi : (earlier.mapM fun a => a.identifiers.table) = .ok identifiers)
      (ha : (Artifact.generate f s (u.tag f) u.context identifiers k).1 = .ok a) :
      Renews u f earlier (some a.record)

/-- What is stored of a function is the same, or has been generated from the same function with the
same earlier identifiers, but with another supply of fresh ones. -/
inductive UpToFresh (u : UpdateInputs) (f : ShaderFunction) (earlier : Option ArtifactRecord) :
    Option ArtifactRecord → Option ArtifactRecord → Prop
  | same (a : Option ArtifactRecord) : UpToFresh u f earlier a a
  | generated {s : Signature} {identifiers : Option IdentifierTable} {k k' : Supply}
      {a a' : Artifact} (hs : f.signature = .ok s)
      (hi : (earlier.mapM fun a => a.identifiers.table) = .ok identifiers)
      (ha : (Artifact.generate f s (u.tag f) u.context identifiers k).1 = .ok a)
      (ha' : (Artifact.generate f s (u.tag f) u.context identifiers k').1 = .ok a') :
      UpToFresh u f earlier (some a.record) (some a'.record)

variable {u : UpdateInputs} {f : ShaderFunction} {earlier a b : Option ArtifactRecord}

theorem isCurrent_of_generate {s : Signature} {identifiers : Option IdentifierTable} {k : Supply}
    {a : Artifact} (hs : f.signature = .ok s)
    (ha : (Artifact.generate f s (u.tag f) u.context identifiers k).1 = .ok a) :
    ArtifactRecord.isCurrent (some a.record) (u.tag f) = .ok true := by
  obtain ⟨g, -, rfl, rfl, rfl⟩ := exists_generation hs ha
  exact g.isCurrent_tag

/-- A second turn changes nothing. -/
theorem Renews.trans (h : u.Renews f earlier a) (h' : u.Renews f a b) : u.Renews f earlier b := by
  cases h with
  | kept _ => exact h'
  | generated hc hs hi ha =>
    cases h' with
    | kept _ => exact .generated hc hs hi ha
    | generated hc' _ _ _ =>
      rw [isCurrent_of_generate hs ha] at hc'
      cases hc'

theorem Renews.upToFresh (h : u.Renews f earlier a) (h' : u.Renews f earlier b) :
    u.UpToFresh f earlier a b := by
  have hnot : ∀ {s}, ArtifactRecord.isCurrent earlier (u.tag f) = .ok false → f.signature = .ok s →
      ¬ (ArtifactRecord.isCurrent earlier (u.tag f) = .ok true ∨ ∃ e, f.signature = .error e) := by
    intro s hc hs hkept
    simp [hc, hs] at hkept
  cases h with
  | kept hkept =>
    cases h' with
    | kept _ => exact .same _
    | generated hc hs _ _ => exact absurd hkept (hnot hc hs)
  | generated hc hs hi ha =>
    cases h' with
    | kept hkept => exact absurd hkept (hnot hc hs)
    | generated _ hs' hi' ha' =>
      obtain rfl := Except.ok.inj (hs.symm.trans hs')
      obtain rfl := Except.ok.inj (hi.symm.trans hi')
      exact .generated hs hi ha ha'

variable {v : StoreView} {k : Supply} {fs : List ShaderFunction}

theorem name_of_generate {s : Signature} {tag : String} {context : GenerationContext}
    {identifiers : Option IdentifierTable} {a : Artifact}
    (h : (Artifact.generate f s tag context identifiers k).1 = .ok a) : a.name = f.name := by
  obtain ⟨n, -, rfl⟩ := Artifact.exists_of_generate_eq_ok h
  rfl

/-- Nothing is made of a function, or an artifact with the identifiers that there were. -/
theorem make_cases (u : UpdateInputs) (f : ShaderFunction) (earlier : Option ArtifactRecord)
    (k : Supply) :
    ((u.make earlier f k).artifacts = [] ∧ ((u.make earlier f k).fault = none →
        ArtifactRecord.isCurrent earlier (u.tag f) = .ok true ∨ ∃ e, f.signature = .error e))
      ∨ ∃ s identifiers a, ArtifactRecord.isCurrent earlier (u.tag f) = .ok false
        ∧ f.signature = .ok s ∧ (earlier.mapM fun a => a.identifiers.table) = .ok identifiers
        ∧ (Artifact.generate f s (u.tag f) u.context identifiers k).1 = .ok a
        ∧ (u.make earlier f k).artifacts = [a] := by
  generalize hm : u.make earlier f k = m
  unfold make at hm
  cases hc : ArtifactRecord.isCurrent earlier (u.tag f) with
  | error e =>
    rw [hc] at hm
    subst hm
    exact .inl ⟨rfl, nofun⟩
  | ok b =>
    rw [hc] at hm
    cases b with
    | true =>
      subst hm
      exact .inl ⟨rfl, fun _ => .inl rfl⟩
    | false =>
      cases hs : f.signature with
      | error e =>
        rw [hs] at hm
        subst hm
        exact .inl ⟨rfl, fun _ => .inr ⟨e, rfl⟩⟩
      | ok s =>
        rw [hs] at hm
        simp only at hm
        cases hi : earlier.mapM fun a => a.identifiers.table with
        | error e =>
          rw [hi] at hm
          subst hm
          exact .inl ⟨rfl, nofun⟩
        | ok identifiers =>
          rcases hgen : Artifact.generate f s (u.tag f) u.context identifiers k with ⟨_ | a, k'⟩ <;>
            rw [hi] at hm <;> simp only [hgen] at hm <;> subst hm
          · exact .inl ⟨rfl, nofun⟩
          · exact .inr ⟨s, identifiers, a, rfl, rfl, rfl, congrArg Prod.fst hgen, rfl⟩

theorem renews_make (h : (u.make (v.artifacts f.name) f k).fault = none) :
    u.Renews f (v.artifacts f.name)
      ((v.saveAll (u.make (v.artifacts f.name) f k).artifacts).artifacts f.name) := by
  rcases u.make_cases f (v.artifacts f.name) k with
    ⟨hnone, hkept⟩ | ⟨s, identifiers, a, hc, hs, hi, ha, hone⟩
  · rw [hnone]
    exact .kept (hkept h)
  · have hsaved : (v.saveAll [a]).artifacts f.name = some a.record := by
      rw [← name_of_generate ha]
      exact Function.update_self ..
    rw [hone, hsaved]
    exact .generated hc hs hi ha

theorem name_of_mem_make {a : Artifact} (ha : a ∈ (u.make earlier f k).artifacts) :
    a.name = f.name := by
  rcases u.make_cases f earlier k with ⟨hnone, -⟩ | ⟨s, identifiers, a', -, -, -, ha', hone⟩
  · rw [hnone] at ha
    cases ha
  · rw [hone] at ha
    obtain rfl := List.mem_singleton.1 ha
    exact name_of_generate ha'

theorem name_of_mem_makeAll {a : Artifact} : ∀ (fs : List ShaderFunction) {v : StoreView}
    {k : Supply}, a ∈ (u.makeAll fs v k).artifacts → a.name ∈ fs.map (·.name)
  | [], _, _, ha => by cases ha
  | f :: fs, v, k, ha => by
    rw [makeAll] at ha
    simp only at ha
    split at ha
    · rw [name_of_mem_make ha]
      exact List.mem_cons_self
    · rcases List.mem_append.1 ha with ha | ha
      · rw [name_of_mem_make ha]
        exact List.mem_cons_self
      · exact List.mem_cons_of_mem _ (name_of_mem_makeAll fs ha)

theorem artifacts_makeAll_of_not_mem {name : String} (h : name ∉ fs.map (·.name)) :
    (v.saveAll (u.makeAll fs v k).artifacts).artifacts name = v.artifacts name := by
  refine StoreView.artifacts_saveAll_of_not_mem fun hname => h ?_
  obtain ⟨a, ha, rfl⟩ := List.mem_map.1 hname
  exact name_of_mem_makeAll fs ha

/-- A function that is alone in its name has its turn once. -/
theorem renews_makeAll : ∀ (fs : List ShaderFunction) {v : StoreView} {k : Supply},
    (u.makeAll fs v k).fault = none → f ∈ fs → (fs.map (·.name)).count f.name = 1 →
    u.Renews f (v.artifacts f.name) ((v.saveAll (u.makeAll fs v k).artifacts).artifacts f.name)
  | g :: fs, v, k, h, hf, honce => by
    rw [makeAll] at h ⊢
    cases hfault : (u.make (v.artifacts g.name) g k).fault with
    | some e =>
      simp only [hfault] at h
      cases h
    | none =>
      simp only [hfault] at h ⊢
      rw [StoreView.saveAll_append]
      rw [List.map_cons] at honce
      by_cases hname : g.name = f.name
      · -- the function is this one, and the later ones have other names
        rw [hname, List.count_cons_self] at honce
        have hlater : f.name ∉ fs.map (·.name) := List.count_eq_zero.1 (by omega)
        obtain rfl : f = g := by
          rcases List.mem_cons.1 hf with hf | hf
          · exact hf
          · exact absurd (List.mem_map_of_mem hf) hlater
        rw [artifacts_makeAll_of_not_mem hlater]
        exact renews_make hfault
      · have hfirst : (v.saveAll (u.make (v.artifacts g.name) g k).artifacts).artifacts f.name
            = v.artifacts f.name := by
          refine StoreView.artifacts_saveAll_of_not_mem fun hmem => hname ?_
          obtain ⟨a, ha, ha'⟩ := List.mem_map.1 hmem
          rw [← name_of_mem_make ha, ha']
        have hlater : f ∈ fs := by
          rcases List.mem_cons.1 hf with rfl | hf
          · exact absurd rfl hname
          · exact hf
        rw [List.count_cons_of_ne hname] at honce
        have hrest := renews_makeAll fs (v := v.saveAll (u.make (v.artifacts g.name) g k).artifacts)
          h hlater honce
        rwa [hfirst] at hrest

end UpdateInputs

/-! ## Manifests -/

/-- A list of names after some were added that were not in it. -/
def enlist (ns names : List String) : List String :=
  names.foldl (fun ns n => if n ∈ ns then ns else ns ++ [n]) ns

theorem mem_enlist {n : String} : ∀ {names ns : List String},
    n ∈ enlist ns names ↔ n ∈ ns ∨ n ∈ names
  | [], ns => by simp [enlist]
  | m :: names, ns => by
    rw [enlist, List.foldl_cons, ← enlist, mem_enlist]
    split_ifs with hm
    · grind
    · grind

theorem enlist_of_subset : ∀ {names ns : List String}, (∀ n ∈ names, n ∈ ns) → enlist ns names = ns
  | [], _, _ => rfl
  | m :: names, ns, h => by
    rw [enlist, List.foldl_cons, ← enlist, if_pos (h m List.mem_cons_self)]
    exact enlist_of_subset fun n hn => h n (List.mem_cons_of_mem _ hn)

/-- The names that a manifest lists after an update, if it has listed these before. -/
def UpdateInputs.listed (u : UpdateInputs) (ns : List String) : List String :=
  (enlist ns (u.functions.map (·.name))).filter (· ∈ u.functions.map (·.name))

theorem UpdateInputs.listed_listed (u : UpdateInputs) (ns : List String) :
    u.listed (u.listed ns) = u.listed ns := by
  have hall : ∀ n ∈ u.functions.map (·.name), n ∈ u.listed ns := fun n hn =>
    List.mem_filter.2 ⟨mem_enlist.2 (.inr hn), decide_eq_true hn⟩
  rw [listed, enlist_of_subset hall, List.filter_eq_self]
  exact fun n hn => (List.mem_filter.1 hn).2

namespace StoreView

variable {u : UpdateInputs} {p q : Progress} {v w z : StoreView} {f : ShaderFunction}
  {fs gs : List ShaderFunction} {res : Except Fault Progress} {ns : List String} {name : String}
  {r r' report report' : UpdateReport} {ended : Except Fault UpdateReport}

theorem Step.manifest_eq (h : Step u p v f (.ok q) w) (hp : p.manifest.functions = strings ns) :
    q.manifest = p.manifest.listing (enlist ns [f.name]) := by
  have hregister : ∀ {q' : Progress}, p.register f.name = .ok q' →
      q'.manifest = p.manifest.listing (enlist ns [f.name]) := by
    intro q' hq'
    rw [Progress.register_of_strings hp] at hq'
    obtain rfl := Except.ok.inj hq'
    rw [enlist, List.foldl_cons, List.foldl_nil]
    split_ifs
    · exact (Manifest.listing_eq_self hp).symm
    · rfl
  cases h with
  | skipped hq _ | failed hq _ _ | generated hq _ _ _ _ _ =>
    have hlisted := hregister hq
    exact hlisted

theorem Run.manifest_eq (h : Run u p v fs (.ok q) w) (hp : p.manifest.functions = strings ns) :
    q.manifest = p.manifest.listing (enlist ns (fs.map (·.name))) := by
  generalize hres : Except.ok q = res at h
  induction h generalizing ns with
  | done =>
    cases hres
    exact (Manifest.listing_eq_self hp).symm
  | fault h => cases hres
  | step h _ ih =>
    have hfirst := h.manifest_eq hp
    rw [ih (by rw [hfirst, Manifest.functions_listing]) hres, hfirst]
    rfl

theorem Update.functions_eq (h : Update u r v (.ok report) w)
    (hm : (v.manifests r.library).library = .string r.library)
    (hns : (v.manifests r.library).functions = strings ns) :
    (w.manifests r.library).functions = strings (u.listed ns) := by
  have hend : ∀ {p q : Progress} {w : StoreView},
      Run u (.start r (v.manifests r.library) u.context.sourceFile) v u.functions (.ok p) w →
      p.removeOthers (u.functions.map (·.name)) = .ok q →
      q.manifest.functions = strings (u.listed ns) := by
    intro p q w h hq
    have hp : p.manifest = (Progress.start r (v.manifests r.library)
        u.context.sourceFile).manifest.listing (enlist ns (u.functions.map (·.name))) :=
      h.manifest_eq hns
    obtain ⟨q', hq', hmanifest, -⟩ := Progress.removeOthers_of_strings
      (p := p) (by rw [hp, Manifest.functions_listing]) (u.functions.map (·.name))
    obtain rfl := Except.ok.inj (hq.symm.trans hq')
    rw [hmanifest, Manifest.functions_listing, UpdateInputs.listed]
  have htyped : (v.manifests r.library).Typed r.library := ⟨hm, ns, hns⟩
  cases h with
  | unchanged h hq hc =>
    obtain ⟨-, hsame⟩ := h.exists_follows htyped hq
    rw [h.manifests_eq, ← hsame hc]
    exact hend h hq
  | @changed _ q w time h hq _ =>
    obtain ⟨hfollows, -⟩ := h.exists_follows htyped hq
    have hsaved : (w.saveManifest { q.manifest with updated := time }).manifests r.library
        = { q.manifest with updated := time } := manifests_saveManifest_self hfollows.library
    rw [hsaved]
    exact hend h hq

end StoreView

/-! ## Updates that come to a report -/

namespace StoreView

variable {u : UpdateInputs} {p q : Progress} {v v' w z : StoreView} {f : ShaderFunction}
  {fs gs : List ShaderFunction} {res : Except Fault Progress} {name : String}
  {r r' report : UpdateReport} {ended : Except Fault UpdateReport}

/-- A view that an update comes by between two functions, or ends with. -/
inductive Stop (u : UpdateInputs) (v w : StoreView) : StoreView → Prop
  | ended : Stop u v w w
  | between {before after : List ShaderFunction} {p q : Progress} {v' : StoreView}
      (hfs : u.functions = before ++ after) (h : Run u p v before (.ok q) v') : Stop u v w v'

/-- Every artifact of the later view was there before or has been generated by the update. -/
def Midway (u : UpdateInputs) (v v' : StoreView) : Prop :=
  ∀ name, v'.artifacts name = v.artifacts name ∨ ∃ g : Generation, g.Sound ∧ g.inputs = u
    ∧ g.function ∈ u.functions ∧ g.function.name = name
    ∧ v'.artifacts name = some g.artifact.record

theorem Stop.midway (h : Stop u v w v') (hw : Update u r v ended w) : Midway u v v' := by
  intro name
  cases h with
  | ended => exact hw.artifact_cases name
  | between hfs hrun =>
    refine (hrun.artifact_cases name).imp_right fun ⟨g, hg, hgu, hgf, hrest⟩ => ?_
    exact ⟨g, hg, hgu, hfs ▸ List.mem_append_left _ hgf, hrest⟩

/-- A function with a numeral that is too long only passes where it is current. -/
theorem Step.isCurrent_of_error (h : Step u p v f (.ok q) w) (hs : ∃ s, f.signature = .ok s)
    (he : ∃ e, TexCoordinate.highest f.body = .error e) :
    ArtifactRecord.isCurrent (v.artifacts f.name) (u.tag f) = .ok true := by
  obtain ⟨s, hs⟩ := hs
  obtain ⟨e, he⟩ := he
  cases h with
  | skipped _ hc => exact hc
  | failed _ _ hf =>
    rw [hs] at hf
    cases hf
  | generated _ _ _ hg _ hf =>
    have hn := hg.texCoordinate
    rw [hf, he] at hn
    cases hn

theorem Run.of_append (h : Run u p v (fs ++ gs) (.ok q) w) :
    ∃ p' v', Run u p v fs (.ok p') v' ∧ Run u p' v' gs (.ok q) w := by
  induction fs generalizing p v with
  | nil => exact ⟨p, v, .done, h⟩
  | cons f fs ih =>
    cases h with
    | step h hrest =>
      obtain ⟨p', v', hrun, hrest⟩ := ih hrest
      exact ⟨p', v', .step h hrun, hrest⟩

theorem Step.artifact_eq_of_current (h : Step u p v f res w) (hcurrent : f.name = name →
    (∃ s, f.signature = .ok s) → ArtifactRecord.isCurrent (v.artifacts name) (u.tag f) = .ok true) :
    w.artifacts name = v.artifacts name := by
  cases h with
  | hindered _ | skipped _ _ | failed _ _ _ => rfl
  | @generated g _ _ hc _ hg _ hf =>
    subst hf
    refine artifacts_save_of_ne _ ?_
    rintro rfl
    rw [hcurrent rfl ⟨_, hg.signature⟩] at hc
    cases hc

theorem Run.artifact_eq_of_current (h : Run u p v fs res w) (hcurrent : ∀ f ∈ fs, f.name = name →
    (∃ s, f.signature = .ok s) → ArtifactRecord.isCurrent (v.artifacts name) (u.tag f) = .ok true) :
    w.artifacts name = v.artifacts name := by
  induction h with
  | done => rfl
  | fault h => exact h.artifact_eq_of_current (hcurrent _ List.mem_cons_self)
  | step h _ ih =>
    have hfirst := h.artifact_eq_of_current (hcurrent _ List.mem_cons_self)
    refine (ih fun f hf => ?_).trans hfirst
    rw [hfirst]
    exact hcurrent f (List.mem_cons_of_mem _ hf)

theorem Step.generated_or_current (h : Step u p v f (.ok q) w) (name : String) :
    (∃ g : Generation, g.Sound ∧ g.inputs = u ∧ g.function = f ∧ f.name = name
        ∧ w.artifacts name = some g.artifact.record)
      ∨ w.artifacts name = v.artifacts name ∧ (f.name = name → (∃ s, f.signature = .ok s) →
        ArtifactRecord.isCurrent (v.artifacts name) (u.tag f) = .ok true) := by
  cases h with
  | skipped _ hc => exact .inr ⟨rfl, fun hname _ => hname ▸ hc⟩
  | failed _ _ hf =>
    refine .inr ⟨rfl, fun _ ⟨s, hs⟩ => ?_⟩
    rw [hs] at hf
    cases hf
  | @generated g _ _ _ _ hg hu hf =>
    subst hf
    by_cases hname : g.function.name = name
    · subst hname
      exact .inl ⟨g, hg, hu, rfl, rfl, v.artifacts_save_self g⟩
    · exact .inr ⟨artifacts_save_of_ne _ (Ne.symm hname), fun h => absurd h hname⟩

/-- After functions an artifact has been generated for one of them, or it has been kept and those
with a signature are current. -/
theorem Run.generated_or_current (h : Run u p v fs (.ok q) w) (name : String) :
    (∃ g : Generation, g.Sound ∧ g.inputs = u ∧ g.function ∈ fs ∧ g.function.name = name
        ∧ w.artifacts name = some g.artifact.record)
      ∨ w.artifacts name = v.artifacts name ∧ ∀ f ∈ fs, f.name = name →
        (∃ s, f.signature = .ok s) →
        ArtifactRecord.isCurrent (v.artifacts name) (u.tag f) = .ok true := by
  generalize hres : Except.ok q = res at h
  induction h with
  | done => exact .inr ⟨rfl, by simp⟩
  | fault h => cases hres
  | step h _ ih =>
    rcases ih hres with ⟨g, hg, hu, hgf, hrest⟩ | ⟨heq, hcurrent⟩
    · exact .inl ⟨g, hg, hu, List.mem_cons_of_mem _ hgf, hrest⟩
    · rcases h.generated_or_current name with ⟨g, hg, hu, rfl, hname, hmade⟩ | ⟨hkept, hfirst⟩
      · exact .inl ⟨g, hg, hu, List.mem_cons_self, hname, heq.trans hmade⟩
      · refine .inr ⟨heq.trans hkept, fun f hf => ?_⟩
        rcases List.mem_cons.1 hf with rfl | hf
        · exact hfirst
        · rw [← hkept]
          exact hcurrent f hf

/-- The manifest lists the same names in the same order when the update is made again. -/
theorem Stop.functions_eq (hstop : Stop u v w v') (h : Update u r v (.ok report) w)
    (h' : Update u r' v' (.ok report') z) (hr : r'.library = r.library) (hv : v.Typed r.library)
    (hv' : v'.Typed r.library) :
    (z.manifests r.library).functions = (w.manifests r.library).functions := by
  obtain ⟨ns, hns⟩ := hv.manifest.functions
  have hwhole := h.functions_eq hv.manifest.library hns
  have hagain : ∀ {ms}, (v'.manifests r.library).functions = strings ms →
      (z.manifests r.library).functions = strings (u.listed ms) := by
    rw [← hr] at hv' ⊢
    exact fun hms => h'.functions_eq hv'.manifest.library hms
  cases hstop with
  | ended => rw [hagain hwhole, u.listed_listed, hwhole]
  | between _ hrun => rw [hagain (hrun.manifests_eq ▸ hns), hwhole]

/-- An update does not come past a function that hinders it: if those of its name before it are
current, their artifact is kept wherever the update stops. -/
theorem Stop.artifact_eq_of_hindered {before after : List ShaderFunction}
    (h : Stop u v w v') (hfs : u.functions = before ++ f :: after)
    (hrun : Run u p v before (.ok q) w)
    (hstale : ArtifactRecord.isCurrent (w.artifacts f.name) (u.tag f) = .ok false)
    (hs : ∃ s, f.signature = .ok s) (he : ∃ e, TexCoordinate.highest f.body = .error e)
    (hall : ∀ g ∈ before, g.name = f.name → (∃ s, g.signature = .ok s) →
      ArtifactRecord.isCurrent (v.artifacts f.name) (u.tag g) = .ok true) :
    v'.artifacts f.name = v.artifacts f.name := by
  have hkept := hrun.artifact_eq_of_current hall
  cases h with
  | ended => exact hkept
  | between hfs' hrun' =>
    rw [hfs'] at hfs
    rcases List.append_eq_append_iff.1 hfs with ⟨c, rfl, -⟩ | ⟨c, rfl, hc⟩
    · exact hrun'.artifact_eq_of_current fun g hg => hall g (List.mem_append_left _ hg)
    · obtain ⟨q', v1, hbefore, hrest⟩ := hrun'.of_append
      have hkept' := hbefore.artifact_eq_of_current hall
      cases hrest with
      | done => exact hkept'
      | step hstep _ =>
        -- the update has not come past the function
        obtain ⟨rfl, -⟩ := List.cons.inj hc
        have hcurrent := hstep.isCurrent_of_error hs he
        rw [hkept', ← hkept, hstale] at hcurrent
        cases hcurrent

/-- What has been generated for another fingerprint is current only by the names in its header. -/
theorem isCurrent_of_tag_ne {g : Generation} (h : g.tag ≠ g.inputs.tag f) :
    ArtifactRecord.isCurrent (some g.artifact.record) (g.inputs.tag f)
      = .ok (contains (Artifact.header g.inputs.context "") (g.inputs.tag f)) := by
  rw [g.isCurrent_record]
  cases htold : contains (Artifact.header g.inputs.context "") (g.inputs.tag f) with
  | true => rw [Artifact.contains_header_of_names htold]
  | false =>
    rw [Except.ok.injEq, Bool.eq_false_iff]
    intro hcontains
    rcases Artifact.contains_header hcontains with htag | hnames
    · exact h htag
    · rw [htold] at hnames
      cases hnames

theorem Update.exists_step {before after : List ShaderFunction} (h : Update u r v (.ok report) w)
    (hfs : u.functions = before ++ f :: after) : ∃ p q q' v₁ v₂, Run u p v before (.ok q) v₁
      ∧ Step u q v₁ f (.ok q') v₂ := by
  have hrun : ∀ {p q : Progress} {w : StoreView}, Run u p v u.functions (.ok q) w →
      ∃ p q q' v₁ v₂, Run u p v before (.ok q) v₁ ∧ Step u q v₁ f (.ok q') v₂ := by
    intro p q w h
    rw [hfs] at h
    obtain ⟨p', v₁, hbefore, hrest⟩ := h.of_append
    cases hrest with
    | step hstep _ => exact ⟨p, p', _, v₁, _, hbefore, hstep⟩
  cases h with
  | unchanged h _ _ | changed h _ _ => exact hrun h

/-- What stops an update stops it again. -/
theorem Update.exists_ok_of_again (h : Update u r v ended w) (hv : v.Typed r.library)
    (hstop : Stop u v w v') (h' : Update u r' v' (.ok report) z)
    (hbody : ∀ f ∈ u.functions, ∀ g ∈ u.functions, u.tag f = u.tag g → f.body = g.body) :
    ∃ report, ended = .ok report := by
  cases ended with
  | ok report => exact ⟨report, rfl⟩
  | error e =>
    have hmid := hstop.midway h
    obtain ⟨before, f, after, q, ns, hfs, hrun, hns, hf⟩ := h.exists_hindered hv.manifest
    obtain ⟨hstale, hs, he⟩ := hf.exists_error (hrun.typed hv) hns
    have hmem : ∀ g ∈ before ++ f :: after, g ∈ u.functions := fun g hg => hfs ▸ hg
    obtain ⟨p₁, q₁, q₂, v₁, v₂, hrun', hstep⟩ := h'.exists_step hfs
    have hcurrent := hstep.isCurrent_of_error hs he
    -- what is generated is current only by the names in the header, which are in all headers
    have hgenerated : ∀ {g : Generation}, g.Sound → g.inputs = u → g.function ∈ u.functions →
        ArtifactRecord.isCurrent (some g.artifact.record) (u.tag f)
          = .ok (contains (Artifact.header u.context "") (u.tag f)) := by
      intro g hg hgu hgf
      subst hgu
      refine isCurrent_of_tag_ne fun htag => ?_
      obtain ⟨e, he⟩ := he
      have hn := hg.texCoordinate
      rw [hbody _ hgf f (hmem f (by simp)) htag, he] at hn
      cases hn
    cases htold : contains (Artifact.header u.context "") (u.tag f) with
    | true =>
      -- then nothing was generated for the name, before the update stopped or after it
      rw [htold] at hgenerated
      rcases hrun.generated_or_current f.name with ⟨g, hg, hgu, hgf, -, hmade⟩ | ⟨hkept, hall⟩
      · rw [hmade, hgenerated hg hgu (hmem _ (List.mem_append_left _ hgf))] at hstale
        cases hstale
      have hstopped := hstop.artifact_eq_of_hindered hfs hrun hstale hs he hall
      rw [hrun'.artifact_eq_of_current (hstopped ▸ hall), hstopped, ← hkept, hstale] at hcurrent
      cases hcurrent
    | false =>
      -- then the function is current by an artifact from before the update
      rw [htold] at hgenerated
      rcases hrun'.generated_or_current f.name with ⟨g, hg, hgu, hgf, -, hmade⟩ | ⟨hkept, hall⟩
      · rw [hmade, hgenerated hg hgu (hmem _ (List.mem_append_left _ hgf))] at hcurrent
        cases hcurrent
      rw [hkept] at hcurrent
      rcases hmid f.name with heq | ⟨g, hg, hgu, hgf, -, hmade⟩
      · rw [heq] at hcurrent hall
        rw [hrun.artifact_eq_of_current hall, hcurrent] at hstale
        cases hstale
      · rw [hmade, hgenerated hg hgu hgf] at hcurrent
        cases hcurrent

/-- An update comes to a report again from midway, if the functions that could stop it are alone in
their names. -/
theorem Update.exists_ok_of_alone (h : Update u r v (.ok report) w) (hr : ∀ name, ¬ r.Done name)
    (hmid : Midway u v v') (h' : Update u r' v' ended z) (hv' : v'.Typed r'.library)
    (halone : ∀ f ∈ u.functions, (∃ s, f.signature = .ok s) →
      (∃ e, TexCoordinate.highest f.body = .error e) →
      (u.functions.map (·.name)).count f.name = 1) : ∃ report', ended = .ok report' := by
  cases ended with
  | ok report' => exact ⟨report', rfl⟩
  | error e =>
    obtain ⟨f, hf, hc, hs, he⟩ := h'.exists_of_error hv'
    have honce := halone f hf hs he
    have hmade : ∀ g : Generation, g.Sound → g.function ∈ u.functions →
        g.function.name ≠ f.name := by
      intro g hg hgf hname
      obtain rfl := eq_of_name_eq_of_count hf hgf honce hname
      obtain ⟨e, he⟩ := he
      rw [hg.texCoordinate] at he
      cases he
    have hkept : ∀ {v w : StoreView}, Midway u v w → w.artifacts f.name = v.artifacts f.name := by
      intro v w hvw
      rcases hvw f.name with heq | ⟨g, hg, -, hgf, hname, -⟩
      · exact heq
      · exact absurd hname (hmade g hg hgf)
    have hcurrent := h.current_of_done (fun g hg hname => by
      rw [eq_of_name_eq_of_count hf hg honce hname]) (hr _) (h.done_of_signature hf hs)
    rw [hkept h'.artifact_cases, hkept hmid, ← hkept h.artifact_cases, hcurrent] at hc
    cases hc

end StoreView

namespace SupplyingStore

variable {σ : Type} [Sources (Routine σ)] [Journal (Routine σ)] [MonadStateOf Supply (Routine σ)]
  (S : SupplyingStore σ) {l : Library} {p : Project} {s t : σ} {u : UpdateInputs} {n : Nat}
  {e : Fault}

theorem renews_of_report (hu : LawfulStore.inputsAt l p s = some u) (hs : (S.view s).Typed l.name)
    {report : UpdateReport} (hreport : (exec (l.update p S.store) s).1 = .ok report)
    {f : ShaderFunction} (hf : f ∈ u.functions)
    (honce : (u.functions.map (·.name)).count f.name = 1) :
    u.Renews f ((S.view s).artifacts f.name)
      ((S.view (exec (l.update p S.store) s).2).artifacts f.name) := by
  obtain ⟨includes, h⟩ := S.exists_concludes hu hs
  have hfault := h.fault
  rw [hreport] at hfault
  rw [h.artifacts_eq]
  exact UpdateInputs.renews_makeAll u.functions hfault hf honce

theorem eq_or_renews_of_stopped (hu : LawfulStore.inputsAt l p s = some u)
    (hs : (S.view s).Typed l.name)
    (ht : S.view t = S.view (exec (l.update p (S.upTo n e)) s).2) {report : UpdateReport}
    (hreport : (exec (l.update p S.store) s).1 = .ok report) {f : ShaderFunction}
    (hf : f ∈ u.functions) (honce : (u.functions.map (·.name)).count f.name = 1) :
    (S.view t).artifacts f.name = (S.view s).artifacts f.name
      ∨ u.Renews f ((S.view s).artifacts f.name) ((S.view t).artifacts f.name) := by
  obtain ⟨ns, hns⟩ := hs.manifest.functions
  rw [ht]
  rcases RecordingStore.update_upTo (n := n) (e := e) hu with
    heq | ⟨includes, before, after, q, s1, t', hfs, hs1, hexec, heq⟩
  · rw [heq]
    exact .inr (S.renews_of_report hu hs hreport hf honce)
  · have hbrings := S.brings_foldlM u (p.sourcePath l).toText before s1 (p := .start
      { library := l.name, includes := includes } ((S.view s).manifests l.name) u.context.sourceFile)
      hns
    rw [hexec, hs1] at hbrings
    rw [heq, hbrings.view, hs1]
    by_cases hname : f.name ∈ before.map (·.name)
    · obtain ⟨g, hg, hgname⟩ := List.mem_map.1 hname
      have hgf : g = f := eq_of_name_eq_of_count hf (hfs ▸ List.mem_append_left _ hg) honce hgname
      have hcount : (before.map (·.name)).count f.name = 1 := by
        have hpos := List.count_pos_iff.2 hname
        rw [hfs, List.map_append, List.count_append] at honce
        omega
      exact .inr (UpdateInputs.renews_makeAll before hbrings.fault (hgf ▸ hg) hcount)
    · exact .inl (UpdateInputs.artifacts_makeAll_of_not_mem hname)

theorem stop_of_stopped (hu : LawfulStore.inputsAt l p s = some u)
    (ht : S.view t = S.view (exec (l.update p (S.upTo n e)) s).2) :
    StoreView.Stop u (S.view s) (S.view (exec (l.update p S.store) s).2) (S.view t) := by
  rw [ht]
  rcases RecordingStore.update_upTo (n := n) (e := e) hu with heq | ⟨includes, hpasses⟩
  · rw [heq]
    exact .ended
  · obtain ⟨before, after, q, hfs, hrun⟩ := hpasses.run
    exact .between hfs hrun

/-- An update is stopped right after any of its writes and made again, with the same source,
includes and options. If the second one comes to a report, so does the whole update, unless digested
texts of the functions collide; a function that is alone in its name then has the artifact of the
whole update, up to the choice of fresh identifiers, and the manifest is of the same library and
source and lists the same functions. The second one comes to a report if the whole update does,
where the functions that could stop it are alone in their names. -/
theorem repaired_of_stopped (hs : S.Reached s)
    (ht : S.view t = S.view (exec (l.update p (S.upTo ((S.view s).writes.length + n) e)) s).2)
    (hsame : LawfulStore.inputsAt l p t = LawfulStore.inputsAt l p s) :
    (LawfulStore.inputsAt l p s = none →
        S.view (exec (l.update p S.store) t).2 = S.view (exec (l.update p S.store) s).2)
      ∧ ∀ u, LawfulStore.inputsAt l p s = some u →
        (∀ report', (exec (l.update p S.store) t).1 = .ok report' →
          (CollisionFree (UpdateInputs.contents [u]) →
            ∃ report, (exec (l.update p S.store) s).1 = .ok report)
          ∧ ∀ report, (exec (l.update p S.store) s).1 = .ok report →
            (∀ f ∈ u.functions, (u.functions.map (·.name)).count f.name = 1 →
              u.UpToFresh f ((S.view s).artifacts f.name)
                ((S.view (exec (l.update p S.store) t).2).artifacts f.name)
                ((S.view (exec (l.update p S.store) s).2).artifacts f.name))
            ∧ ((S.view (exec (l.update p S.store) t).2).manifests l.name).library
              = ((S.view (exec (l.update p S.store) s).2).manifests l.name).library
            ∧ ((S.view (exec (l.update p S.store) t).2).manifests l.name).sourceFile
              = ((S.view (exec (l.update p S.store) s).2).manifests l.name).sourceFile
            ∧ ((S.view (exec (l.update p S.store) t).2).manifests l.name).functions
              = ((S.view (exec (l.update p S.store) s).2).manifests l.name).functions)
        ∧ ((∀ f ∈ u.functions, (∃ s, f.signature = .ok s) →
            (∃ e, TexCoordinate.highest f.body = .error e) →
            (u.functions.map (·.name)).count f.name = 1) →
          (∃ report, (exec (l.update p S.store) s).1 = .ok report) →
          ∃ report', (exec (l.update p S.store) t).1 = .ok report') := by
  have hstyped := hs.typed l.name
  have httyped := (hs.stopped l p ((S.view s).writes.length + n) e).typed l.name
  rw [← ht] at httyped
  refine ⟨fun hu => ?_, fun u hu => ?_⟩
  · rw [RecordingStore.view_update_of_none S.store (hsame.trans hu), ht,
      RecordingStore.view_update_of_none _ hu, RecordingStore.view_update_of_none S.store hu]
  have hu' := hsame.trans hu
  obtain ⟨includes, h⟩ := S.exists_update hu
  obtain ⟨includes', h'⟩ := S.exists_update hu'
  have hstop := S.stop_of_stopped hu ht
  refine ⟨fun report' hreport' => ⟨fun hfree => ?_, fun report hreport => ?_⟩,
    fun halone ⟨report, hreport⟩ => ?_⟩
  · rw [hreport'] at h'
    have hreads := LawfulStore.reads_of_inputsAt hu
    exact h.exists_ok_of_again hstyped hstop h' fun f hf g hg htag =>
      (hreads.agrees_of_tag_eq hreads rfl rfl hf hg htag
        (hfree _ (UpdateInputs.content_mem_contents List.mem_cons_self hf) _
          (UpdateInputs.content_mem_contents List.mem_cons_self hg))).body
  · rw [hreport] at h
    rw [hreport'] at h'
    have hfollows := h.follows hstyped.manifest
    have hfollows' := h'.follows httyped.manifest
    refine ⟨fun f hf honce => ?_, hfollows'.library.trans hfollows.library.symm,
      hfollows'.sourceFile.trans hfollows.sourceFile.symm,
      hstop.functions_eq h h' rfl hstyped httyped⟩
    have hwhole := S.renews_of_report hu hstyped hreport hf honce
    have hagain := S.renews_of_report hu' httyped hreport' hf honce
    rcases S.eq_or_renews_of_stopped hu hstyped ht hreport hf honce with heq | hstopped
    · rw [heq] at hagain
      exact hagain.upToFresh hwhole
    · exact (hstopped.trans hagain).upToFresh hwhole
  · rw [hreport] at h
    exact h.exists_ok_of_alone (by simp [UpdateReport.Done]) (hstop.midway h) h' httyped halone

end SupplyingStore

/-! ## An update that is stopped between two functions -/

namespace BetweenFunctions

def library : Library := { name := "Lib", file := "lib.hlsl" }

def project : Project := { root := .fileSystem }

def text : String := "void F(out float A) \x7b A = 1; \x7d\nvoid G(out float B) \x7b B = 2; \x7d"

def f : ShaderFunction := ⟨0, "", "void", "F", ["out float A"], " A = 1; "⟩

def g : ShaderFunction := ⟨1, "", "void", "G", ["out float B"], " B = 2; "⟩

def first : Ledger := .ofSource text

/-- What is left where the update is stopped after its first write. -/
def stopped : Ledger :=
  (exec (library.update project (Ledger.supplying.upTo 1 (.failure default))) first).2

def inputs : UpdateInputs := library.inputs [f, g] [] (Directive.defines text) []

theorem inputsAt_eq : LawfulStore.inputsAt library project first = some inputs
    ∧ LawfulStore.inputsAt library project stopped = some inputs
    ∧ ((Ledger.supplying.view stopped).artifacts "F").isSome = true
    ∧ ((Ledger.supplying.view stopped).artifacts "G").isNone = true := by decide +kernel

theorem highest_eq {k : ShaderFunction} (hk : k ∈ [f, g]) :
    TexCoordinate.highest k.body = .ok none := by
  have hnone : ∀ k ∈ [f, g], TexCoordinate.references k.body.toList = [] := by decide
  exact TexCoordinate.highest_of_references_eq_nil (hnone k hk)

theorem repaired_of_stopped_between :
    Ledger.supplying.Reached first
      ∧ ((Ledger.supplying.view stopped).artifacts "F").isSome = true
      ∧ ((Ledger.supplying.view stopped).artifacts "G").isNone = true
      ∧ ∀ k ∈ [f, g], inputs.UpToFresh k ((Ledger.supplying.view first).artifacts k.name)
        ((Ledger.supplying.view
          (exec (library.update project Ledger.supplying.store) stopped).2).artifacts k.name)
        ((Ledger.supplying.view
          (exec (library.update project Ledger.supplying.store) first).2).artifacts k.name) := by
  obtain ⟨hu, hu', hf, hg⟩ := inputsAt_eq
  have hs : Ledger.supplying.Reached first := .start (fun _ => rfl) fun _ => rfl
  have hnumerals : ∀ k ∈ inputs.functions, (∃ s, k.signature = .ok s) →
      ∃ n, TexCoordinate.highest k.body = .ok n := fun k hk _ => ⟨none, highest_eq hk⟩
  obtain ⟨report, hreport⟩ := Ledger.recording.exists_report hu (hs.typed _) hnumerals
  have hlength : (Ledger.supplying.view first).writes.length + 1 = 1 := rfl
  obtain ⟨-, hall⟩ := Ledger.supplying.repaired_of_stopped (t := stopped) (n := 1)
    (e := .failure default) hs (by rw [hlength]; rfl) (hu'.trans hu.symm)
  obtain ⟨hagain, hreturns⟩ := hall inputs hu
  obtain ⟨report', hreport'⟩ := hreturns (fun k hk _ ⟨e, he⟩ => by
    rw [highest_eq hk] at he
    cases he) ⟨report, hreport⟩
  obtain ⟨hartifacts, -⟩ := (hagain report' hreport').2 report hreport
  refine ⟨hs, hf, hg, fun k hk => hartifacts k hk ?_⟩
  have honce : ∀ k ∈ [f, g], ([f, g].map (·.name)).count k.name = 1 := by decide
  exact honce k hk

end BetweenFunctions

end ShaderGraph
