import ShaderGraph.Proofs.Ledger

/-!
# Updates that find nothing to do

After an update of a source every function of it is settled: its artifact tells its fingerprint, or
it has no signature. A later function of the same name can undo this, if it has another fingerprint
and a signature too. Where no source has such functions, a second update writes nothing, and comes
to the same end.
-/

namespace ShaderGraph

open Json Routine Text

/-- No two functions of a name that have a signature have different fingerprints. -/
def UpdateInputs.Unambiguous (u : UpdateInputs) : Prop :=
  ∀ f ∈ u.functions, ∀ g ∈ u.functions, f.name = g.name →
    (∃ s, f.signature = .ok s) → (∃ s, g.signature = .ok s) → u.tag f = u.tag g

namespace StoreView

variable {u : UpdateInputs} {p q : Progress} {v w z : StoreView} {f g : ShaderFunction}
  {fs : List ShaderFunction} {res : Except Fault Progress}

/-- An update has nothing to do for a function. -/
inductive Settled (u : UpdateInputs) (v : StoreView) (f : ShaderFunction) : Prop
  | current (h : ArtifactRecord.isCurrent (v.artifacts f.name) (u.tag f) = .ok true)
  | invalid {e : PinError}
      (h : ArtifactRecord.isCurrent (v.artifacts f.name) (u.tag f) = .ok false)
      (hf : f.signature = .error e)

theorem Step.settled (h : Step u p v f (.ok q) w) : Settled u w f := by
  cases h with
  | skipped _ hc => exact .current hc
  | failed _ hc hf => exact .invalid hc hf
  | @generated g _ _ _ _ _ hu hf =>
    subst hu hf
    refine .current ?_
    rw [artifacts_save_self]
    exact g.isCurrent_tag

/-- A function stays settled while others have their turn. -/
theorem Step.keeps_settled (h : Step u p v f res w)
    (htag : f.name = g.name → (∃ s, f.signature = .ok s) → (∃ s, g.signature = .ok s) →
      u.tag f = u.tag g) (hg : Settled u v g) : Settled u w g := by
  rcases h.artifact_cases g.name with hkept | ⟨made, hsound, rfl, rfl, hname, hmade⟩
  · cases hg with
    | current hc => exact .current (by rw [hkept, hc])
    | invalid hc hf => exact .invalid (by rw [hkept, hc]) hf
  · cases hsig : g.signature with
    | ok s =>
      have htags := htag hname ⟨_, hsound.signature⟩ ⟨s, hsig⟩
      refine .current ?_
      rw [hmade, ← htags]
      exact made.isCurrent_tag
    | error e =>
      -- whether or not the new artifact happens to tell its fingerprint
      cases hc : contains (Artifact.header made.inputs.context made.tag) (made.inputs.tag g) with
      | true => exact .current (by rw [hmade, made.isCurrent_record, hc])
      | false => exact .invalid (by rw [hmade, made.isCurrent_record, hc]) hsig

theorem Run.keeps_settled (h : Run u p v fs res w) (hu : u.Unambiguous)
    (hfs : ∀ f ∈ fs, f ∈ u.functions) (hmem : g ∈ u.functions) (hg : Settled u v g) :
    Settled u w g := by
  induction h with
  | done => exact hg
  | fault h => exact h.keeps_settled (hu _ (hfs _ List.mem_cons_self) g hmem) hg
  | step h _ ih =>
    exact ih (fun f hf => hfs f (List.mem_cons_of_mem _ hf))
      (h.keeps_settled (hu _ (hfs _ List.mem_cons_self) g hmem) hg)

theorem Run.settled (h : Run u p v fs (.ok q) w) (hu : u.Unambiguous)
    (hfs : ∀ f ∈ fs, f ∈ u.functions) : ∀ f ∈ fs, Settled u w f := by
  generalize hres : Except.ok q = res at h
  induction h with
  | done => simp
  | fault h => cases hres
  | step h hrest ih =>
    have hlater := fun f hf => hfs f (List.mem_cons_of_mem _ hf)
    intro g hg
    rcases List.mem_cons.1 hg with rfl | hg
    · exact hrest.keeps_settled hu hlater (hfs g List.mem_cons_self) h.settled
    · exact ih hlater hres g hg

end StoreView

/-- From one progress to a later one no function is updated, and a manifest that lists the names is
as it was. -/
structure Progress.Idles (p q : Progress) (names : List String) : Prop where
  updated : q.report.updated = p.report.updated
  removed : q.report.removed = p.report.removed
  manifest : ∀ ns, p.manifest.functions = strings ns → (∀ n ∈ names, n ∈ ns) →
    q.manifest = p.manifest ∧ q.changed = p.changed

namespace Progress

variable {p q r : Progress} {names names' : List String}

theorem Idles.refl : p.Idles p [] := ⟨rfl, rfl, fun _ _ _ => ⟨rfl, rfl⟩⟩

theorem Idles.trans (h : p.Idles q names) (h' : q.Idles r names') : p.Idles r (names ++ names') where
  updated := h'.updated.trans h.updated
  removed := h'.removed.trans h.removed
  manifest ns hp hall := by
    obtain ⟨hq, hcq⟩ := h.manifest ns hp fun n hn => hall n (List.mem_append_left _ hn)
    obtain ⟨hr, hcr⟩ := h'.manifest ns (hq ▸ hp) fun n hn => hall n (List.mem_append_right _ hn)
    exact ⟨hr.trans hq, hcr.trans hcq⟩

theorem Idles.skipped (h : p.Idles q names) (n : String) : p.Idles (q.skipped n) names :=
  ⟨h.updated, h.removed, h.manifest⟩

theorem Idles.failed (h : p.Idles q names) (n message : String) : p.Idles (q.failed n message) names :=
  ⟨h.updated, h.removed, h.manifest⟩

theorem idles_register {n : String} (h : p.register n = .ok q) : p.Idles q [n] where
  updated := by rw [register_report h]
  removed := by rw [register_report h]
  manifest ns hp hall := by
    rw [register_of_strings hp, if_pos (hall n List.mem_cons_self)] at h
    obtain rfl := Except.ok.inj h
    exact ⟨rfl, rfl⟩

end Progress

namespace StoreView

variable {u : UpdateInputs} {p q : Progress} {v w : StoreView} {f : ShaderFunction}
  {fs : List ShaderFunction} {res : Except Fault Progress} {ns : List String}

theorem Hindered.not_settled (h : Hindered u p v f) (hp : p.manifest.functions = strings ns) :
    ¬ Settled u v f := by
  intro hf
  cases h with
  | unlisted h =>
    rw [Progress.register_of_strings hp] at h
    cases h
  | uncompared h => cases hf <;> simp_all
  | unidentified hc hs _ _ | unnumbered hc hs _ => cases hf <;> simp_all

/-- A settled function leaves all as it is. -/
theorem Step.of_settled (h : Step u p v f res w) (hf : Settled u v f)
    (hp : p.manifest.functions = strings ns) : w = v ∧ ∃ q, res = .ok q ∧ p.Idles q [f.name] := by
  cases h with
  | hindered h => exact absurd hf (h.not_settled hp)
  | skipped hq _ => exact ⟨rfl, _, rfl, (Progress.idles_register hq).skipped _⟩
  | failed hq _ _ => exact ⟨rfl, _, rfl, (Progress.idles_register hq).failed _ _⟩
  | generated _ hc _ hg _ hgf =>
    subst hgf
    cases hf with
    | current h =>
      rw [hc] at h
      cases h
    | invalid _ he =>
      rw [hg.signature] at he
      cases he

theorem Run.of_settled {before after : List ShaderFunction} (h : Run u p v (before ++ after) res w)
    (hall : ∀ f ∈ before, Settled u v f) (hp : p.manifest.functions = strings ns) :
    ∃ q ns', p.Idles q (before.map (·.name)) ∧ q.manifest.functions = strings ns'
      ∧ Run u q v after res w := by
  induction before generalizing p ns with
  | nil => exact ⟨p, ns, .refl, hp, h⟩
  | cons f before ih =>
    have hf := hall f List.mem_cons_self
    cases h with
    | fault h =>
      obtain ⟨-, q, hq, -⟩ := h.of_settled hf hp
      cases hq
    | step h hrest =>
      obtain ⟨rfl, q, hq, hidles⟩ := h.of_settled hf hp
      obtain rfl := Except.ok.inj hq
      obtain ⟨ns1, hleads, -⟩ := h.exists_leads hp
      obtain ⟨r, ns', hidles', hr, hrun⟩ :=
        ih hrest (fun g hg => hall g (List.mem_cons_of_mem _ hg)) hleads.functions
      exact ⟨r, ns', hidles.trans hidles', hr, hrun⟩

/-- A function that is not current and has a signature is generated, or stops the update. -/
theorem Step.hindered_or_generated {s : Signature} (h : Step u p v f res w)
    (hc : ArtifactRecord.isCurrent (v.artifacts f.name) (u.tag f) = .ok false)
    (hs : f.signature = .ok s) :
    (w = v ∧ ∃ e, res = .error e) ∨ ((∀ a, v.artifacts f.name = some a → ∃ t, a.identifiers.table = .ok t)
      ∧ ∃ g : Generation, g.Sound ∧ g.function = f) := by
  cases h with
  | hindered _ => exact .inl ⟨rfl, _, rfl⟩
  | skipped _ hcurrent =>
    rw [hc] at hcurrent
    cases hcurrent
  | failed _ _ he =>
    rw [hs] at he
    cases he
  | generated _ _ hi hg _ hgf => exact .inr ⟨hi, _, hg, hgf⟩

/-- What stops an update stops it again, wherever it has come to. -/
theorem Step.of_hindered (h : Step u p v f res w) (hf : Hindered u q v f)
    (hq : q.manifest.functions = strings ns) : w = v ∧ ∃ e, res = .error e := by
  cases hf with
  | unlisted he =>
    rw [Progress.register_of_strings hq] at he
    cases he
  | uncompared he =>
    cases h with
    | hindered _ => exact ⟨rfl, _, rfl⟩
    | skipped _ hc | failed _ hc _ | generated _ hc _ _ _ _ =>
      rw [hc] at he
      cases he
  | unidentified hc hs ha he =>
    rcases h.hindered_or_generated hc hs with hstopped | ⟨hi, -⟩
    · exact hstopped
    · obtain ⟨t, ht⟩ := hi _ ha
      rw [ht] at he
      cases he
  | unnumbered hc hs he =>
    rcases h.hindered_or_generated hc hs with hstopped | ⟨-, g, hg, rfl⟩
    · exact hstopped
    · have hn := hg.texCoordinate
      rw [he] at hn
      cases hn

theorem Run.of_hindered {before after : List ShaderFunction} {ms : List String}
    (h : Run u p v (before ++ f :: after) res w) (hall : ∀ g ∈ before, Settled u v g)
    (hp : p.manifest.functions = strings ns) (hf : Hindered u q v f)
    (hq : q.manifest.functions = strings ms) : w = v ∧ ∃ e, res = .error e := by
  obtain ⟨p', _, -, -, hrun⟩ := h.of_settled hall hp
  cases hrun with
  | fault h => exact ⟨(h.of_hindered hf hq).1, _, rfl⟩
  | step h _ =>
    obtain ⟨-, e, he⟩ := h.of_hindered hf hq
    cases he

variable {r r' report : UpdateReport} {z : StoreView} {end₁ end₂ : Except Fault UpdateReport}

theorem Update.settled (h : Update u r v (.ok report) w) (hu : u.Unambiguous) :
    ∀ f ∈ u.functions, Settled u w f := by
  cases h with
  | unchanged h _ _ => exact h.settled hu fun _ hf => hf
  | @changed _ _ w _ h _ _ =>
    intro f hf
    cases h.settled hu (fun _ hf => hf) f hf with
    | current hc => exact .current hc
    | invalid hc he => exact .invalid hc he

/-- Where all functions are settled and the manifest follows them, all stays as it is. -/
theorem Update.of_settled (h : Update u r v end₁ w) (hall : ∀ f ∈ u.functions, Settled u v f)
    (hm : (v.manifests r.library).Follows r.library u) :
    w = v ∧ ∃ report, end₁ = .ok report ∧ report.updated = r.updated
      ∧ report.removed = r.removed := by
  obtain ⟨ns, hns, hnames⟩ := hm.functions
  have hrun : ∀ {res : Except Fault Progress} {w : StoreView},
      Run u (.start r (v.manifests r.library) u.context.sourceFile) v u.functions res w →
      w = v ∧ ∃ q, res = .ok q ∧ q.removeOthers (u.functions.map (·.name)) = .ok q
        ∧ q.changed = false ∧ q.report.updated = r.updated ∧ q.report.removed = r.removed := by
    intro res w h
    rw [Progress.start_of_follows hm, ← List.append_nil u.functions] at h
    obtain ⟨q, _, hidles, -, hdone⟩ := h.of_settled hall hns
    obtain ⟨hmanifest, hchanged⟩ := hidles.manifest ns hns fun n hn => (hnames n).2 hn
    cases hdone
    refine ⟨rfl, q, rfl, ?_, hchanged, hidles.updated, hidles.removed⟩
    exact Progress.removeOthers_eq_self (hmanifest ▸ hns) fun n hn => (hnames n).1 hn
  cases h with
  | fault h =>
    obtain ⟨-, q, hq, -⟩ := hrun h
    cases hq
  | unlisted h he =>
    obtain ⟨-, q, hq, hothers, -⟩ := hrun h
    obtain rfl := Except.ok.inj hq
    rw [hothers] at he
    cases he
  | unchanged h he _ | changed h he _ =>
    obtain ⟨rfl, q, hq, hothers, hc, hupdated, hremoved⟩ := hrun h
    obtain rfl := Except.ok.inj hq
    obtain rfl := Except.ok.inj (hothers.symm.trans he)
    first
    | exact ⟨rfl, _, rfl, hupdated, hremoved⟩
    | simp_all

/-- Where no source has two functions of a name with different fingerprints, a second update leaves
all as it is, whatever the first one has come to. -/
theorem Update.again (h : Update u r v end₁ w) (hm : (v.manifests r.library).Typed r.library)
    (hu : u.Unambiguous) (h' : Update u r' w end₂ z) (hr : r'.library = r.library) :
    z = w ∧ (∀ report, end₂ = .ok report →
        report.updated = r'.updated ∧ report.removed = r'.removed)
      ∧ ((∃ report, end₁ = .ok report) → ∃ report, end₂ = .ok report) := by
  obtain ⟨ns, hns⟩ := hm.functions
  cases end₁ with
  | ok report =>
    have hfollows := h.follows hm
    rw [← hr] at hfollows
    obtain ⟨rfl, report', rfl, hupdated, hremoved⟩ := h'.of_settled (h.settled hu) hfollows
    refine ⟨rfl, fun _ he => ?_, fun _ => ⟨report', rfl⟩⟩
    obtain rfl := Except.ok.inj he
    exact ⟨hupdated, hremoved⟩
  | error e =>
    -- the second update stops at the same function
    obtain ⟨before, f, after, q, ns', hfs, hrun, hns', hf⟩ := h.exists_hindered hm
    have hbefore : ∀ g ∈ before, g ∈ u.functions := fun g hg => by
      rw [hfs]
      exact List.mem_append_left _ hg
    have hsettled := hrun.settled hu hbefore
    have hstops : ∀ {res : Except Fault Progress} {z : StoreView},
        Run u (.start r' (w.manifests r'.library) u.context.sourceFile) w u.functions res z →
        z = w ∧ ∃ e, res = .error e := by
      intro res z h
      rw [hfs, hr, hrun.manifests_eq] at h
      exact h.of_hindered hsettled hns hf hns'
    cases h' with
    | fault h' =>
      exact ⟨(hstops h').1, nofun, fun ⟨_, he⟩ => nomatch he⟩
    | unlisted h' _ | unchanged h' _ _ | changed h' _ _ =>
      obtain ⟨-, e, he⟩ := hstops h'
      cases he

/-- Where a run writes nothing, the functions with a signature are current. -/
theorem Run.current_of_writes_eq (h : Run u p v fs (.ok q) w) (hw : w.writes = v.writes) :
    ∀ f ∈ fs, (∃ s, f.signature = .ok s) →
      ArtifactRecord.isCurrent (v.artifacts f.name) (u.tag f) = .ok true := by
  generalize hres : Except.ok q = res at h
  induction h with
  | done => simp
  | fault h => cases hres
  | step h hrest ih =>
    have hlater := hrest.writes_prefix
    rw [hw] at hlater
    intro g hg hvalid
    cases h with
    | skipped _ hc =>
      rcases List.mem_cons.1 hg with rfl | hg
      · exact hc
      · exact ih hw hres g hg hvalid
    | failed _ _ hf =>
      rcases List.mem_cons.1 hg with rfl | hg
      · obtain ⟨s, hs⟩ := hvalid
        rw [hs] at hf
        cases hf
      · exact ih hw hres g hg hvalid
    | generated _ _ _ _ _ _ =>
      have hlength := hlater.length_le
      simp only [writes_save, List.length_append, List.length_singleton] at hlength
      omega

theorem Update.current_of_writes_eq (h : Update u r v (.ok report) w) (hw : w.writes = v.writes) :
    ∀ f ∈ u.functions, (∃ s, f.signature = .ok s) →
      ArtifactRecord.isCurrent (v.artifacts f.name) (u.tag f) = .ok true := by
  cases h with
  | unchanged h _ _ => exact h.current_of_writes_eq hw
  | changed h _ _ =>
    have hlength := h.writes_prefix.length_le
    rw [← hw] at hlength
    simp only [writes_saveManifest, List.length_append, List.length_singleton] at hlength
    omega

/-- Where a second update writes nothing, functions of a name that have a signature have the same
fingerprint, or a header tells both. -/
theorem Update.tag_eq_of_quiet (h : Update u r v end₁ w) (h' : Update u r' w (.ok report) z)
    (hw : z.writes = w.writes) {f g : ShaderFunction} (hf : f ∈ u.functions) (hg : g ∈ u.functions)
    (hname : f.name = g.name) (hfs : ∃ s, f.signature = .ok s) (hgs : ∃ s, g.signature = .ok s) :
    u.tag f = u.tag g ∨ contains (Artifact.header u.context "") (u.tag f) = true
      ∨ contains (Artifact.header u.context "") (u.tag g) = true
      ∨ (ArtifactRecord.isCurrent (v.artifacts f.name) (u.tag f) = .ok true
        ∧ ArtifactRecord.isCurrent (v.artifacts f.name) (u.tag g) = .ok true) := by
  have hcf := h'.current_of_writes_eq hw f hf hfs
  have hcg := h'.current_of_writes_eq hw g hg hgs
  rw [← hname] at hcg
  rcases h.artifact_cases f.name with hkept | ⟨made, -, rfl, -, -, hmade⟩
  · rw [hkept] at hcf hcg
    exact .inr (.inr (.inr ⟨hcf, hcg⟩))
  · rw [hmade, made.isCurrent_record] at hcf hcg
    rcases Artifact.contains_header (Except.ok.inj hcf) with htf | hheader
    · rcases Artifact.contains_header (Except.ok.inj hcg) with htg | hheader
      · exact .inl (htf.symm.trans htg)
      · exact .inr (.inr (.inl hheader))
    · exact .inr (.inl hheader)

end StoreView

namespace RecordingStore

variable {σ : Type} [Sources (Routine σ)] [Journal (Routine σ)] [MonadStateOf Supply (Routine σ)]
  (R : RecordingStore σ) {l : Library} {p : Project} {s t : σ} {u : UpdateInputs}

/-- An update writes nothing and reports no function as updated or removed. -/
structure Quiet (l : Library) (p : Project) (s : σ) : Prop where
  view : R.view (exec (l.update p R.store) s).2 = R.view s
  report : ∀ report, (exec (l.update p R.store) s).1 = .ok report →
    report.updated = [] ∧ report.removed = []

/-- If no two functions of a name that have a signature have different fingerprints, an update that
reads what one before it has read is quiet, and comes to a report if the one before has. If it is
not so, it is quiet only where a header tells the fingerprint of a function by its names, or the
artifact that was there before the first update told both fingerprints. -/
theorem quiet_again (hu : LawfulStore.inputsAt l p s = some u)
    (hm : ((R.view s).manifests l.name).Typed l.name)
    (ht : R.view t = R.view (exec (l.update p R.store) s).2)
    (hu' : LawfulStore.inputsAt l p t = some u) :
    (u.Unambiguous → R.Quiet l p t
        ∧ ((∃ report, (exec (l.update p R.store) s).1 = .ok report) →
          ∃ report, (exec (l.update p R.store) t).1 = .ok report))
      ∧ (R.Quiet l p t → (∃ report, (exec (l.update p R.store) t).1 = .ok report) →
        ∀ f ∈ u.functions, ∀ g ∈ u.functions, f.name = g.name →
          (∃ s, f.signature = .ok s) → (∃ s, g.signature = .ok s) →
          u.tag f = u.tag g ∨ contains (Artifact.header u.context "") (u.tag f) = true
            ∨ contains (Artifact.header u.context "") (u.tag g) = true
            ∨ (ArtifactRecord.isCurrent ((R.view s).artifacts f.name) (u.tag f) = .ok true
              ∧ ArtifactRecord.isCurrent ((R.view s).artifacts f.name) (u.tag g) = .ok true)) := by
  obtain ⟨includes, h⟩ := R.exists_update hu
  obtain ⟨includes', h'⟩ := R.exists_update hu'
  rw [← ht] at h
  refine ⟨fun hun => ?_, fun hquiet ⟨report, hreport⟩ f hf g hg hname hfs hgs => ?_⟩
  · obtain ⟨hview, hreport, hends⟩ := h.again hm hun h' rfl
    exact ⟨⟨hview, hreport⟩, hends⟩
  · rw [hreport] at h'
    exact h.tag_eq_of_quiet h' (by rw [hquiet.view]) hf hg hname hfs hgs

end RecordingStore

/-! ## Two functions of one name -/

namespace Overloads

def library : Library := { name := "Lib", file := "lib.hlsl" }

def project : Project := { root := .fileSystem }

/-- An invalid function beside a valid one of its name. -/
def half : ShaderFunction := ⟨0, "", "void", "F", ["half A"], ""⟩

def one : ShaderFunction := ⟨1, "", "void", "F", ["out float A"], " A = 1; "⟩

def two : ShaderFunction := ⟨2, "", "void", "F", ["out float A"], " A = 2; "⟩

def unambiguous : Ledger :=
  .ofSource "void F(half A) \x7b\x7d\nvoid F(out float A) \x7b A = 1; \x7d"

def ambiguous : Ledger :=
  .ofSource ("void F(half A) \x7b\x7d\nvoid F(out float A) \x7b A = 1; \x7d\n"
    ++ "void F(out float A) \x7b A = 2; \x7d")

/-- What an update leaves, in the world that it found. -/
def again (s : Ledger) : Ledger := .updated library project s s.toWorld

theorem view_again (s : Ledger) : Ledger.recording.view (again s)
    = Ledger.recording.view (exec (library.update project Ledger.recording.store) s).2 :=
  Ledger.view_updated ..

theorem evaluated :
    (LawfulStore.inputsAt library project unambiguous = some (library.inputs [half, one] [] [] [])
        ∧ LawfulStore.inputsAt library project (again unambiguous)
          = some (library.inputs [half, one] [] [] []))
      ∧ (LawfulStore.inputsAt library project ambiguous
          = some (library.inputs [half, one, two] [] [] [])
        ∧ LawfulStore.inputsAt library project (again ambiguous)
          = some (library.inputs [half, one, two] [] [] []))
      ∧ half.signature.toOption.isSome = false
      ∧ one.signature.toOption.isSome = true ∧ two.signature.toOption.isSome = true := by
  decide +kernel

theorem not_exists_signature_half : ¬ ∃ s, half.signature = .ok s := by
  rintro ⟨s, hs⟩
  have hnone := evaluated.2.2.1
  rw [hs] at hnone
  cases hnone

theorem unambiguous_inputs : (library.inputs [half, one] [] [] []).Unambiguous := by
  intro f hf g hg _ hfs hgs
  have honly : ∀ k ∈ [half, one], (∃ s, k.signature = .ok s) → k = one := by
    intro k hk hvalid
    rcases List.mem_cons.1 hk with rfl | hk
    · exact absurd hvalid not_exists_signature_half
    · exact List.mem_singleton.1 hk
  rw [honly f hf hfs, honly g hg hgs]

theorem quiet_again_of_unambiguous :
    LawfulStore.inputsAt library project unambiguous = some (library.inputs [half, one] [] [] [])
      ∧ (library.inputs [half, one] [] [] []).Unambiguous
      ∧ Ledger.recording.Quiet library project (again unambiguous) :=
  ⟨evaluated.1.1, unambiguous_inputs,
    ((Ledger.recording.quiet_again evaluated.1.1 (Ledger.typed_ofSource _ _).manifest
      (view_again unambiguous) evaluated.1.2).1 unambiguous_inputs).1⟩

theorem head?_toList_tag (u : UpdateInputs) (f : ShaderFunction) :
    ((u.tag f).toList.drop 11).head? = (Digest.fold (Digest.sha1 (Fingerprint.content f
      u.dependencies u.context.accurateErrors u.options).toUTF8.data.toList)).head? := by
  have hmark : Fingerprint.mark.toList.length = 11 := rfl
  rw [UpdateInputs.tag, Fingerprint.ofFunction, String.toList_append, ← hmark, List.drop_left,
    Digest.hash, String.toList_ofList]

theorem tag_ne : (library.inputs [half, one, two] [] [] []).tag one
    ≠ (library.inputs [half, one, two] [] [] []).tag two := by
  intro h
  have hhead := congrArg (fun t => (t.toList.drop 11).head?) h
  simp only [head?_toList_tag] at hhead
  revert hhead
  decide +kernel

/-- An update is not quiet right after another one that has read the same: two functions of a name
take each other's place each time. -/
theorem not_forall_quiet_again :
    ¬ ∀ (l : Library) (p : Project) (s t : Ledger) (u : UpdateInputs),
      LawfulStore.inputsAt l p s = some u → (Ledger.recording.view s).Typed l.name →
      Ledger.recording.view t
        = Ledger.recording.view (exec (l.update p Ledger.recording.store) s).2 →
      LawfulStore.inputsAt l p t = some u → Ledger.recording.Quiet l p t := by
  intro h
  obtain ⟨-, ⟨hinputs, hinputs'⟩, -, hsone, hstwo⟩ := evaluated
  have hquiet := h library project ambiguous (again ambiguous) _ hinputs
    (Ledger.typed_ofSource _ _) (view_again ambiguous) hinputs'
  have hn : ∀ f ∈ [half, one, two], (∃ s, f.signature = .ok s) →
      ∃ n, TexCoordinate.highest f.body = .ok n := by
    have hnone : ∀ f ∈ [half, one, two], TexCoordinate.references f.body.toList = [] := by decide
    exact fun f hf _ => ⟨none, TexCoordinate.highest_of_references_eq_nil (hnone f hf)⟩
  obtain ⟨report, hreport⟩ :=
    Ledger.recording.exists_report hinputs (Ledger.typed_ofSource _ _) hn
  have htyped := Ledger.recording.typed_update hinputs (Ledger.typed_ofSource _ _) hreport
  rw [← view_again ambiguous] at htyped
  obtain ⟨report', hreport'⟩ :=
    Ledger.recording.exists_report hinputs' htyped hn
  obtain ⟨includes, hfirst⟩ := Ledger.recording.exists_update hinputs
  obtain ⟨includes', hsecond⟩ := Ledger.recording.exists_update hinputs'
  rw [← view_again ambiguous] at hfirst
  rw [hreport'] at hsecond
  have hone : one ∈ [half, one, two] := by decide
  have htwo : two ∈ [half, one, two] := by decide
  have hshort : ∀ f, Text.contains (Artifact.header
      (library.inputs [half, one, two] [] [] []).context "")
      ((library.inputs [half, one, two] [] [] []).tag f) = false := fun f =>
    Artifact.contains_header_of_short (by decide) (by decide)
  rcases hfirst.tag_eq_of_quiet hsecond (by rw [hquiet.view]) hone htwo rfl
    (exists_ok_of_isSome hsone) (exists_ok_of_isSome hstwo)
    with htag | hheader | hheader | ⟨hold, -⟩
  · exact tag_ne htag
  · rw [hshort] at hheader
    cases hheader
  · rw [hshort] at hheader
    cases hheader
  · have hnone : (Ledger.recording.view ambiguous).artifacts one.name = none := rfl
    rw [hnone] at hold
    cases hold

end Overloads

end ShaderGraph
