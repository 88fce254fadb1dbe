import ShaderGraph.Proofs.Recorded

/-!
# Manifests that follow a source

A manifest that lists names goes on listing names. Each function of a source has itself listed, and
in the end the names of other functions leave, so that the manifest lists the functions of the
source and no others. A manifest that does so from the start stays as it is.
-/

namespace ShaderGraph

open Json Routine

namespace Json

theorem isEqual_string (s t : String) : isEqual (string s) (string t) = decide (s = t) := by
  rw [isEqual, beq_eq_decide]

theorem eq_string_of_isEqual {j : Json} {s : String} (h : isEqual j (string s) = true) :
    j = string s := by
  cases j with
  | string t =>
    rw [isEqual_string, decide_eq_true_iff] at h
    rw [h]
  | _ => simp [isEqual, wholeValue?] at h

theorem includes_strings (ns : List String) (n : String) :
    (strings ns).includes n = .ok (decide (n ∈ ns)) := by
  rw [strings, includes, List.any_map]
  congr 1
  rw [Bool.eq_iff_iff, List.any_eq_true, decide_eq_true_iff]
  simp [isEqual_string]

end Json

namespace Manifest

variable {m : Manifest} {ns : List String}

/-- A manifest of a library that lists names, as its type says; that of a document may not. -/
structure Typed (m : Manifest) (library : String) : Prop where
  library : m.library = .string library
  functions : ∃ ns, m.functions = strings ns

/-- A manifest with a list of names in the place of its functions. -/
def listing (m : Manifest) (ns : List String) : Manifest := { m with functions := strings ns }

@[simp]
theorem library_listing (m : Manifest) (ns : List String) : (m.listing ns).library = m.library := rfl

@[simp]
theorem sourceFile_listing (m : Manifest) (ns : List String) :
    (m.listing ns).sourceFile = m.sourceFile := rfl

@[simp]
theorem functions_listing (m : Manifest) (ns : List String) :
    (m.listing ns).functions = strings ns := rfl

@[simp]
theorem listing_listing (m : Manifest) (ns ns' : List String) :
    (m.listing ns).listing ns' = m.listing ns' := rfl

theorem listing_eq_self (h : m.functions = strings ns) : m.listing ns = m := by
  rw [listing, ← h]

/-- A manifest of a library lists the functions of a source and no others. -/
structure Follows (m : Manifest) (library : String) (u : UpdateInputs) : Prop where
  library : m.library = .string library
  sourceFile : m.sourceFile = .string u.context.sourceFile
  functions : ∃ ns, m.functions = strings ns ∧ ∀ n, n ∈ ns ↔ n ∈ u.functions.map (·.name)

theorem Follows.typed {library : String} {u : UpdateInputs} (h : m.Follows library u) :
    m.Typed library :=
  ⟨h.library, h.functions.imp fun _ hns => hns.1⟩

theorem isAmong_string (names : List String) (n : String) :
    isAmong names (.string n) = decide (n ∈ names) := by
  rw [isAmong, Bool.eq_iff_iff, List.any_eq_true, decide_eq_true_iff]
  simp [isEqual_string]

theorem add?_of_strings (h : m.functions = strings ns) (n : String) :
    m.add? n = .ok (if n ∈ ns then none else some (m.listing (ns ++ [n]))) := by
  rw [add?, h, includes_strings]
  by_cases hn : n ∈ ns
  · rw [if_pos hn, decide_eq_true hn]
    rfl
  · rw [if_neg hn, decide_eq_false hn, listing, strings, strings, List.map_append]
    rfl

theorem others_of_strings (h : m.functions = strings ns) (names : List String) :
    m.others names = .ok ((ns.filter (· ∉ names)).map .string) := by
  have hfixed : (ns.map string).all isFixed = true := by simp [isFixed]
  have hothers : m.others names = .ok ((ns.map string).filter fun f => !isAmong names f) := by
    rw [others, h]
    change (if _ then _ else _) = _
    rw [if_pos hfixed]
    rfl
  rw [hothers, List.filter_map]
  congr 2
  refine List.filter_congr fun n _ => ?_
  rw [Function.comp_apply, isAmong_string, decide_not]

theorem keep_of_strings (h : m.functions = strings ns) (names : List String) :
    m.keep names = m.listing (ns.filter (· ∈ names)) := by
  have hkept : (ns.map string).filter (isAmong names) = (ns.filter (· ∈ names)).map string := by
    rw [List.filter_map]
    congr 1
    exact List.filter_congr fun n _ => isAmong_string names n
  rw [keep, h, strings, elements?, Option.getD_some, hkept, listing, strings]

end Manifest

namespace Progress

variable {p q : Progress} {ns : List String}

theorem register_of_strings (h : p.manifest.functions = strings ns) (n : String) :
    p.register n = .ok (if n ∈ ns then p else
      { p with manifest := p.manifest.listing (ns ++ [n]), changed := true }) := by
  rw [register, Manifest.add?_of_strings h]
  by_cases hn : n ∈ ns
  · rw [if_pos hn, if_pos hn]
    rfl
  · rw [if_neg hn, if_neg hn]
    rfl

/-- From one progress to a later one: the manifest lists names and goes on listing them, and that it
has not changed is known. -/
structure Leads (p : Progress) (ns : List String) (q : Progress) (ns' : List String) : Prop where
  manifest : q.manifest = p.manifest.listing ns'
  listed : ns ⊆ ns'
  unchanged : q.changed = false → p.changed = false ∧ q.manifest = p.manifest

theorem Leads.refl (h : p.manifest.functions = strings ns) : p.Leads ns p ns :=
  ⟨(Manifest.listing_eq_self h).symm, List.Subset.refl _, fun hc => ⟨hc, rfl⟩⟩

theorem Leads.functions {ns' : List String} (h : p.Leads ns q ns') :
    q.manifest.functions = strings ns' := by
  rw [h.manifest, Manifest.functions_listing]

theorem Leads.trans {r : Progress} {ns' ns'' : List String} (h : p.Leads ns q ns')
    (h' : q.Leads ns' r ns'') : p.Leads ns r ns'' where
  manifest := by rw [h'.manifest, h.manifest, Manifest.listing_listing]
  listed := List.Subset.trans h.listed h'.listed
  unchanged hc := by
    obtain ⟨hq, hm⟩ := h'.unchanged hc
    obtain ⟨hp, hm'⟩ := h.unchanged hq
    exact ⟨hp, hm.trans hm'⟩

theorem exists_leads_register (h : p.manifest.functions = strings ns) {n : String}
    (hq : p.register n = .ok q) : ∃ ns', p.Leads ns q ns' ∧ n ∈ ns' := by
  rw [register_of_strings h] at hq
  obtain rfl := Except.ok.inj hq
  by_cases hn : n ∈ ns
  · rw [if_pos hn]
    exact ⟨ns, .refl h, hn⟩
  · rw [if_neg hn]
    exact ⟨ns ++ [n], ⟨rfl, List.subset_append_left _ _, fun hc => by cases hc⟩, by simp⟩

theorem removeOthers_of_strings (h : p.manifest.functions = strings ns) (names : List String) :
    ∃ q, p.removeOthers names = .ok q
      ∧ q.manifest = p.manifest.listing (ns.filter (· ∈ names))
      ∧ (q.changed = false → p.changed = false ∧ q.manifest = p.manifest) := by
  unfold removeOthers
  rw [Manifest.others_of_strings h]
  cases hothers : ns.filter (· ∉ names) with
  | nil =>
    have hall : ns.filter (· ∈ names) = ns := by
      rw [List.filter_eq_self]
      simpa using List.filter_eq_nil_iff.1 hothers
    exact ⟨p, rfl, by rw [hall, Manifest.listing_eq_self h], fun hc => ⟨hc, rfl⟩⟩
  | cons n others =>
    exact ⟨_, rfl, Manifest.keep_of_strings h names, fun hc => by cases hc⟩

theorem removeOthers_eq_self (h : p.manifest.functions = strings ns) {names : List String}
    (hall : ∀ n ∈ ns, n ∈ names) : p.removeOthers names = .ok p := by
  have hothers : ns.filter (· ∉ names) = [] := by simpa [List.filter_eq_nil_iff] using hall
  unfold removeOthers
  rw [Manifest.others_of_strings h, hothers]
  rfl

theorem start_manifest_of_unchanged {r : UpdateReport} {m : Manifest} {source : String}
    (h : (start r m source).changed = false) : (start r m source).manifest = m := by
  have hof : m.isOf source = true := by simpa [start] using h
  rw [start, ← eq_string_of_isEqual hof]

theorem start_of_follows {r : UpdateReport} {m : Manifest} {library : String} {u : UpdateInputs}
    (h : m.Follows library u) : start r m u.context.sourceFile = ⟨r, m, false⟩ := by
  have hof : m.isOf u.context.sourceFile = true := by
    rw [Manifest.isOf, h.sourceFile, isEqual_string, decide_eq_true rfl]
  rw [start, hof, ← h.sourceFile]
  rfl

/-- The manifest with which an update ends lists the functions of the source. -/
theorem exists_listing {r : UpdateReport} {m : Manifest} {u : UpdateInputs}
    {ns' : List String} (h : (start r m u.context.sourceFile).Leads ns p ns') (hnames : ∀ f ∈ u.functions, f.name ∈ ns')
    (hq : p.removeOthers (u.functions.map (·.name)) = .ok q) :
    (∃ ns, q.manifest = (start r m u.context.sourceFile).manifest.listing ns
        ∧ ∀ n, n ∈ ns ↔ n ∈ u.functions.map (·.name))
      ∧ (q.changed = false → q.manifest = m) := by
  obtain ⟨q', hq', hmanifest, hunchanged⟩ :=
    removeOthers_of_strings h.functions (u.functions.map (·.name))
  obtain rfl := Except.ok.inj (hq.symm.trans hq')
  rw [h.manifest, Manifest.listing_listing] at hmanifest
  refine ⟨⟨_, hmanifest, fun n => ?_⟩, fun hc => ?_⟩
  · rw [List.mem_filter, decide_eq_true_iff]
    refine ⟨fun hn => hn.2, fun hn => ⟨?_, hn⟩⟩
    obtain ⟨f, hf, rfl⟩ := List.mem_map.1 hn
    exact hnames f hf
  · obtain ⟨hp, hqp⟩ := hunchanged hc
    obtain ⟨hstart, hps⟩ := h.unchanged hp
    rw [hqp, hps, start_manifest_of_unchanged hstart]

end Progress

namespace StoreView

variable {u : UpdateInputs} {p q : Progress} {v w : StoreView} {f : ShaderFunction}
  {fs : List ShaderFunction} {res : Except Fault Progress} {ns : List String}

theorem Step.exists_leads (h : Step u p v f (.ok q) w) (hp : p.manifest.functions = strings ns) :
    ∃ ns', p.Leads ns q ns' ∧ f.name ∈ ns' := by
  cases h with
  | skipped hq _ | failed hq _ _ | generated hq _ _ _ _ _ =>
    obtain ⟨ns', h, hn⟩ := Progress.exists_leads_register hp hq
    refine ⟨ns', ⟨h.manifest, h.listed, ?_⟩, hn⟩
    first
    | exact h.unchanged
    | exact fun hc => by cases hc

theorem Run.exists_leads (h : Run u p v fs (.ok q) w) (hp : p.manifest.functions = strings ns) :
    ∃ ns', p.Leads ns q ns' ∧ ∀ f ∈ fs, f.name ∈ ns' := by
  generalize hres : Except.ok q = res at h
  induction h generalizing ns with
  | done =>
    cases hres
    exact ⟨ns, .refl hp, by simp⟩
  | fault h => cases hres
  | step h _ ih =>
    obtain ⟨ns1, hleads1, hf⟩ := h.exists_leads hp
    obtain ⟨ns2, hleads2, hfs⟩ := ih hleads1.functions hres
    refine ⟨ns2, hleads1.trans hleads2, fun g hg => ?_⟩
    rcases List.mem_cons.1 hg with rfl | hg
    · exact hleads2.listed hf
    · exact hfs g hg

/-- The manifest with which an update ends follows the source. -/
theorem Run.exists_follows {r : UpdateReport} {m : Manifest} {library : String}
    (h : Run u (.start r m u.context.sourceFile) v u.functions (.ok p) w) (hm : m.Typed library)
    (hq : p.removeOthers (u.functions.map (·.name)) = .ok q) :
    q.manifest.Follows library u ∧ (q.changed = false → q.manifest = m) := by
  obtain ⟨ns, hns⟩ := hm.functions
  obtain ⟨ns', hleads, hnames⟩ := h.exists_leads hns
  obtain ⟨⟨ns'', hmanifest, hlisted⟩, hunchanged⟩ := Progress.exists_listing hleads hnames hq
  rw [hmanifest]
  exact ⟨⟨hm.library, rfl, ns'', rfl, hlisted⟩, fun hc => hmanifest ▸ hunchanged hc⟩

/-- The manifest that an update leaves follows the source, whether or not it was saved. -/
theorem Update.follows {r report : UpdateReport} (h : Update u r v (.ok report) w)
    (hm : (v.manifests r.library).Typed r.library) : (w.manifests r.library).Follows r.library u := by
  cases h with
  | unchanged h hq hc =>
    obtain ⟨hfollows, hsame⟩ := h.exists_follows hm hq
    rw [h.manifests_eq, ← hsame hc]
    exact hfollows
  | changed h hq _ =>
    obtain ⟨hfollows, -⟩ := h.exists_follows hm hq
    simp only [saveManifest, hfollows.library, Function.update_self]
    exact ⟨rfl, hfollows.sourceFile, hfollows.functions⟩

/-! ## Stores whose documents have their types -/

/-- The documents of a store have the types of what is saved. Those written by hand may not. -/
structure Typed (v : StoreView) (library : String) : Prop where
  manifest : (v.manifests library).Typed library
  comment : ∀ {name a}, v.artifacts name = some a → ∃ c, a.comment = .string c
  identifiers : ∀ {name a}, v.artifacts name = some a → ∃ t, a.identifiers.table = .ok t

variable {library : String}

theorem Step.typed (h : Step u p v f res w) (hv : v.Typed library) : w.Typed library := by
  have hcases : ∀ {name a}, w.artifacts name = some a →
      v.artifacts name = some a ∨ ∃ g : Generation, g.artifact.record = a := by
    intro name a ha
    rcases h.artifact_cases name with hkept | ⟨g, -, -, -, -, hg⟩
    · exact .inl (hkept ▸ ha)
    · exact .inr ⟨g, Option.some.inj (hg.symm.trans ha)⟩
  refine ⟨h.manifests_eq ▸ hv.manifest, fun ha => ?_, fun ha => ?_⟩
  · rcases hcases ha with ha | ⟨g, rfl⟩
    · exact hv.comment ha
    · exact ⟨_, rfl⟩
  · rcases hcases ha with ha | ⟨g, rfl⟩
    · exact hv.identifiers ha
    · exact ⟨_, rfl⟩

theorem Run.typed (h : Run u p v fs res w) (hv : v.Typed library) : w.Typed library := by
  induction h with
  | done => exact hv
  | fault h => exact h.typed hv
  | step h _ ih => exact ih (h.typed hv)

/-- In a store whose documents have their types only a numeral that is too long hinders an update.
-/
theorem Hindered.exists_error (h : Hindered u p v f) (hv : v.Typed library)
    (hp : p.manifest.functions = strings ns) :
    ArtifactRecord.isCurrent (v.artifacts f.name) (u.tag f) = .ok false
      ∧ (∃ s, f.signature = .ok s) ∧ ∃ e, TexCoordinate.highest f.body = .error e := by
  cases h with
  | unlisted he =>
    rw [Progress.register_of_strings hp] at he
    cases he
  | uncompared he =>
    cases ha : v.artifacts f.name with
    | none =>
      rw [ha] at he
      cases he
    | some a =>
      obtain ⟨c, hc⟩ := hv.comment ha
      rw [ha, ArtifactRecord.isCurrent, hc] at he
      cases he
  | unidentified _ _ ha he =>
    obtain ⟨t, ht⟩ := hv.identifiers ha
    rw [ht] at he
    cases he
  | unnumbered hc hs he => exact ⟨hc, ⟨_, hs⟩, _, he⟩

/-- Where the manifest lists names, an update ends in a fault only at a function. -/
theorem Update.exists_hindered {r : UpdateReport} {e : Fault} (h : Update u r v (.error e) w)
    (hm : (v.manifests r.library).Typed r.library) :
    ∃ before f after q ns, u.functions = before ++ f :: after
      ∧ Run u (.start r (v.manifests r.library) u.context.sourceFile) v before (.ok q) w
      ∧ q.manifest.functions = strings ns ∧ Hindered u q w f := by
  obtain ⟨ns, hns⟩ := hm.functions
  cases h with
  | fault h =>
    obtain ⟨before, f, after, q, hfs, hrun, hf⟩ := h.exists_hindered
    obtain ⟨ns', hleads, -⟩ := hrun.exists_leads hns
    exact ⟨before, f, after, q, ns', hfs, hrun, hleads.functions, hf⟩
  | unlisted h he =>
    obtain ⟨ns', hleads, -⟩ := h.exists_leads hns
    obtain ⟨q, hq, -⟩ := Progress.removeOthers_of_strings hleads.functions
      (u.functions.map (·.name))
    rw [hq] at he
    cases he

/-- An update of such a store ends in a fault only at a function with a signature that is not
current and whose body has a numeral that is too long. -/
theorem Update.exists_of_error {r : UpdateReport} {e : Fault} (h : Update u r v (.error e) w)
    (hv : v.Typed r.library) : ∃ f ∈ u.functions,
      ArtifactRecord.isCurrent (w.artifacts f.name) (u.tag f) = .ok false
        ∧ (∃ s, f.signature = .ok s) ∧ ∃ e, TexCoordinate.highest f.body = .error e := by
  obtain ⟨before, f, after, q, ns, hfs, hrun, hns, hf⟩ := h.exists_hindered hv.manifest
  refine ⟨f, ?_, hf.exists_error (hrun.typed hv) hns⟩
  rw [hfs]
  exact List.mem_append_right _ List.mem_cons_self

theorem Update.exists_ok {r : UpdateReport} {res : Except Fault UpdateReport}
    (h : Update u r v res w) (hv : v.Typed r.library)
    (hn : ∀ f ∈ u.functions, (∃ s, f.signature = .ok s) →
      ∃ n, TexCoordinate.highest f.body = .ok n) : ∃ report, res = .ok report := by
  cases res with
  | ok report => exact ⟨report, rfl⟩
  | error e =>
    obtain ⟨f, hf, -, hs, e', he⟩ := h.exists_of_error hv
    obtain ⟨n, hok⟩ := hn f hf hs
    rw [he] at hok
    cases hok

theorem Update.typed {r report : UpdateReport} (h : Update u r v (.ok report) w)
    (hv : v.Typed r.library) : w.Typed r.library := by
  have hmanifest := (h.follows hv.manifest).typed
  cases h with
  | unchanged h _ _ => exact h.typed hv
  | changed h _ _ => exact ⟨hmanifest, (h.typed hv).comment, (h.typed hv).identifiers⟩

end StoreView

namespace RecordingStore

variable {σ : Type} [Sources (Routine σ)] [Journal (Routine σ)] [MonadStateOf Supply (Routine σ)]
  (R : RecordingStore σ) {l : Library} {p : Project} {s : σ} {u : UpdateInputs}

theorem exists_report (hu : LawfulStore.inputsAt l p s = some u) (hs : (R.view s).Typed l.name)
    (hn : ∀ f ∈ u.functions, (∃ s, f.signature = .ok s) →
      ∃ n, TexCoordinate.highest f.body = .ok n) :
    ∃ report, (exec (l.update p R.store) s).1 = .ok report := by
  obtain ⟨includes, h⟩ := R.exists_update hu
  exact h.exists_ok hs hn

theorem typed_update (hu : LawfulStore.inputsAt l p s = some u) (hs : (R.view s).Typed l.name)
    {report : UpdateReport} (hreport : (exec (l.update p R.store) s).1 = .ok report) :
    (R.view (exec (l.update p R.store) s).2).Typed l.name := by
  obtain ⟨includes, h⟩ := R.exists_update hu
  rw [hreport] at h
  exact h.typed hs

end RecordingStore

end ShaderGraph
