import ShaderGraph.Proofs.Held
import ShaderGraph.Proofs.Repaired

/-!
# Manifests from run to run

Whatever the updates of a library have done, its manifest lists no name twice, or there is none and at
most an artifact stands in its place. An update that comes to the functions keeps the names that are
still in the source, in their order, and has the new ones follow as they come in the source. It saves
the manifest whenever that differs from the one it has loaded, and also when an artifact was saved,
since that may have taken the manifest's place.
-/

namespace ShaderGraph

open Json Routine

/-! ## Lists of names -/

theorem enlist_cons (ns names : List String) (n : String) :
    enlist ns (n :: names) = enlist (if n ∈ ns then ns else ns ++ [n]) names := rfl

theorem nodup_enlist {names : List String} : ∀ {ns : List String}, ns.Nodup → (enlist ns names).Nodup := by
  induction names with
  | nil => exact fun h => h
  | cons n names ih =>
    intro ns h
    rw [enlist_cons]
    split_ifs with hn
    · exact ih h
    · refine ih (List.nodup_append.2 ⟨h, List.nodup_cons.2 ⟨nofun, .nil⟩, ?_⟩)
      rintro a ha b hb rfl
      exact hn (List.mem_singleton.1 hb ▸ ha)

/-- The names that are added come in their order, each where it is first. -/
theorem enlist_eq (names ns : List String) :
    enlist ns names = ns ++ (names.filter (· ∉ ns)).eraseDups :=
  OrderedMap.foldl_join_eq names ns

namespace UpdateInputs

variable (u : UpdateInputs) {ns : List String}

/-- The names of the functions in the source. -/
def names : List String := u.functions.map (·.name)

theorem nodup_listed (h : ns.Nodup) : (u.listed ns).Nodup := (nodup_enlist h).filter _

theorem listed_eq (ns : List String) :
    u.listed ns = ns.filter (· ∈ u.names) ++ (u.names.filter (· ∉ ns)).eraseDups := by
  have hnew : ∀ n ∈ (u.names.filter (· ∉ ns)).eraseDups, n ∈ u.names := fun n hn =>
    (List.mem_filter.1 (List.mem_eraseDups.1 hn)).1
  rw [listed, ← names, enlist_eq, List.filter_append,
    List.filter_eq_self.2 fun n hn => decide_eq_true (hnew n hn)]

/-- The names that leave are those that are no longer in the source. -/
theorem filter_enlist (ns : List String) :
    (enlist ns u.names).filter (· ∉ u.names) = ns.filter (· ∉ u.names) := by
  have hnone : ((u.names.filter (· ∉ ns)).eraseDups).filter (· ∉ u.names) = [] :=
    List.filter_eq_nil_iff.2 fun n hn => by
      simpa using (List.mem_filter.1 (List.mem_eraseDups.1 hn)).1
  rw [enlist_eq, List.filter_append, hnone, List.append_nil]

end UpdateInputs

/-! ## Turns of functions -/

namespace Progress

/-- From one progress to a later one: the manifest lists names, what is told of the whole update is
the same, and that the manifest has not changed is known. -/
structure Enlists (p q : Progress) (ns : List String) : Prop where
  manifest : q.manifest = p.manifest.listing ns
  removed : q.report.removed = p.report.removed
  error : q.report.error = p.report.error
  unchanged : q.changed = false → p.changed = false ∧ q.manifest = p.manifest

variable {p q r : Progress} {ns ns' : List String}

theorem Enlists.refl (h : p.manifest.functions = strings ns) : p.Enlists p ns :=
  ⟨(Manifest.listing_eq_self h).symm, rfl, rfl, fun hc => ⟨hc, rfl⟩⟩

theorem Enlists.functions (h : p.Enlists q ns) : q.manifest.functions = strings ns := by
  rw [h.manifest, Manifest.functions_listing]

theorem Enlists.trans (h : p.Enlists q ns) (h' : q.Enlists r ns') : p.Enlists r ns' where
  manifest := by rw [h'.manifest, h.manifest, Manifest.listing_listing]
  removed := h'.removed.trans h.removed
  error := h'.error.trans h.error
  unchanged hc := by
    obtain ⟨hq, hm⟩ := h'.unchanged hc
    exact (h.unchanged hq).imp_right hm.trans

theorem Enlists.agrees (h : p.Enlists q ns) (h' : q.Agrees r) : p.Enlists r ns where
  manifest := h'.manifest.trans h.manifest
  removed := h'.removed.trans h.removed
  error := h'.error.trans h.error
  unchanged hc := (h.unchanged (h'.unchanged hc)).imp_right h'.manifest.trans

theorem enlists_register (h : p.manifest.functions = strings ns) {n : String}
    (hq : p.register n = .ok q) : p.Enlists q (enlist ns [n]) := by
  rw [register_of_strings h] at hq
  obtain rfl := Except.ok.inj hq
  rw [enlist_cons]
  by_cases hn : n ∈ ns
  · rw [if_pos hn, if_pos hn]
    exact .refl h
  · rw [if_neg hn, if_neg hn]
    exact ⟨rfl, rfl, rfl, nofun⟩

/-- The names of other functions leave, and are reported. -/
theorem removed_removeOthers (h : p.manifest.functions = strings ns) (hp : p.report.removed = [])
    {names : List String} (hq : p.removeOthers names = .ok q) :
    q.report.removed = (ns.filter (· ∉ names)).map string ∧ q.report.error = p.report.error := by
  unfold removeOthers at hq
  rw [Manifest.others_of_strings h] at hq
  cases hothers : ns.filter (· ∉ names) with
  | nil =>
    rw [hothers] at hq
    obtain rfl := Except.ok.inj hq
    exact ⟨hp, rfl⟩
  | cons n others =>
    rw [hothers] at hq
    obtain rfl := Except.ok.inj hq
    exact ⟨rfl, rfl⟩

end Progress

section

variable {σ : Type} [Journal (Routine σ)] [MonadStateOf Supply (Routine σ)]

theorem enlists_updateFunction (store : ArtifactStore (Routine σ)) (u : UpdateInputs)
    (source : String) {p : Progress} (f : ShaderFunction) {ns : List String}
    (hp : p.manifest.functions = strings ns) :
    Yields (updateFunction store u source p f) fun q => p.Enlists q (enlist ns [f.name]) := by
  intro s q hq
  obtain ⟨p', hp', hagrees⟩ := yields_registered store u source p f s q hq
  exact (Progress.enlists_register hp hp').agrees hagrees

theorem enlists_foldlM (store : ArtifactStore (Routine σ)) (u : UpdateInputs) (source : String) :
    ∀ (fs : List ShaderFunction) {p : Progress} {ns : List String},
      p.manifest.functions = strings ns → Yields (fs.foldlM (updateFunction store u source) p)
        fun q => p.Enlists q (enlist ns (fs.map (·.name)))
  | [], _, _, hp => yields_pure (.refl hp)
  | f :: fs, p, ns, hp => by
    rw [List.foldlM_cons]
    refine (enlists_updateFunction store u source f hp).bind fun q hq => ?_
    intro s r hr
    exact hq.trans (enlists_foldlM store u source fs hq.functions s r hr)

end

namespace Progress

/-- The end of an update of a source, from the last function on: the manifest follows the source, and
what is told of the whole source is known. -/
structure Ends (p q : Progress) (u : UpdateInputs) (r : UpdateReport) (m : Manifest)
    (ns : List String) : Prop where
  manifest : q.manifest = (start r m u.context.sourceFile).manifest.listing (u.listed ns)
  removed : q.report.removed = (ns.filter (· ∉ u.names)).map string
  error : q.report.error = r.error
  unchanged : q.changed = false →
    p.changed = false ∧ m.sourceFile = .string u.context.sourceFile ∧ q.manifest = m

theorem ends_of_removeOthers {p q : Progress} {u : UpdateInputs} {r : UpdateReport} {m : Manifest}
    {ns : List String} (hr : r.removed = [])
    (hp : (start r m u.context.sourceFile).Enlists p (enlist ns u.names))
    (hq : p.removeOthers u.names = .ok q) : p.Ends q u r m ns := by
  obtain ⟨q', hq', hmanifest, hunchanged⟩ := removeOthers_of_strings hp.functions u.names
  obtain rfl := Except.ok.inj (hq.symm.trans hq')
  obtain ⟨hremoved, herror⟩ := removed_removeOthers hp.functions (hp.removed.trans hr) hq
  rw [u.filter_enlist] at hremoved
  rw [hp.manifest, Manifest.listing_listing] at hmanifest
  refine ⟨hmanifest, hremoved, herror.trans hp.error, fun hc => ?_⟩
  obtain ⟨hc, hsame⟩ := hunchanged hc
  obtain ⟨hstart, hsame'⟩ := hp.unchanged hc
  have hm := start_manifest_of_unchanged hstart
  exact ⟨hc, by rw [← hm]; rfl, by rw [hsame, hsame', hm]⟩

end Progress

/-! ## Documents of other kinds -/

namespace Json

theorem mem_keys_of_readMembers {k : String} {fuel depth : Nat} {cs r : List Char}
    {read : List (String × Json)}
    (h : readMembers fuel depth ('"' :: (k.toList.flatMap escapeChar ++ '"' :: ':' :: cs))
      = .ok (read, r)) : k ∈ read.map (·.1) := by
  cases fuel with
  | zero => cases h
  | succ fuel =>
    rw [readMembers, readText?_quoted] at h
    simp only [dropGaps_cons _ (by decide : isGap ':' = false)] at h
    rcases hvalue : readValue fuel depth (dropGaps cs) with e | ⟨value, r⟩ <;> rw [hvalue] at h
    · cases h
    · simp only at h
      split at h
      · obtain rfl := (Prod.mk.inj (Except.ok.inj h)).1
        exact List.mem_cons_self
      · rename_i r' _
        rcases hrest : readMembers fuel depth (dropGaps r') with e | ⟨rest, r''⟩ <;> rw [hrest] at h
        · cases h
        · obtain rfl := (Prod.mk.inj (Except.ok.inj h)).1
          exact List.mem_cons_self
      · cases h

theorem mem_keys_of_readValue {k : String} {fuel depth level : Nat} {cs r : List Char} {j : Json}
    (h : readValue fuel depth ('{' :: ((Layout.indented.lineStart level).toList
      ++ '"' :: (k.toList.flatMap escapeChar ++ '"' :: ':' :: cs))) = .ok (j, r)) :
    ∃ ms, j = object ms ∧ k ∈ OrderedMap.keys ms := by
  cases fuel with
  | zero => cases h
  | succ fuel =>
    rw [readValue, dropGaps_lineStart _ _ (by decide)] at h
    split_ifs at h
    change (readMembers fuel (depth + 1) ('"' :: _)).map _ = _ at h
    rcases hread : readMembers fuel (depth + 1)
      ('"' :: (k.toList.flatMap escapeChar ++ '"' :: ':' :: cs)) with e | ⟨read, r'⟩ <;>
      rw [hread] at h
    · cases h
    · obtain rfl := (Prod.mk.inj (Except.ok.inj h)).1
      exact ⟨_, rfl, OrderedMap.mem_keys_ofPairs.2 (mem_keys_of_readMembers hread)⟩

/-- Whatever else is read of the document of an object, its first key is. -/
theorem mem_keys_of_parse_render {k : String} {v : Json} {ms : List (String × Json)} {j : Json}
    (h : Json.parse (object ((k, v) :: ms)).render = .ok j) :
    ∃ read, j = object read ∧ k ∈ OrderedMap.keys read := by
  have htext : dropGaps (object ((k, v) :: ms)).render.toList
      = '{' :: ((Layout.indented.lineStart 1).toList ++ '"' :: (k.toList.flatMap escapeChar
        ++ '"' :: ':' :: ' ' :: ((write .indented 1 v).toList ++ afterMember 1 0 ms ['\n']))) := by
    rw [render, String.toList_append]
    exact (congrArg dropGaps (toList_write_object 0 k v ms ['\n'])).trans
      (dropGaps_cons _ (by decide))
  unfold parse at h
  rw [htext] at h
  simp only at h
  split at h
  · rename_i j' r hread
    split_ifs at h
    obtain rfl := Except.ok.inj h
    exact mem_keys_of_readValue hread
  · cases h

end Json

/-- A document with a key that no manifest has is none. -/
theorem Manifest.ofJson_of_unknown {ms : List (String × Json)} {k : String}
    (h : k ∈ OrderedMap.keys ms) (hk : k ∉ fieldNames.map (·.name)) :
    ofJson (.object ms) = .error .mistyped := by
  have hunknown : ¬(ms.all fun p => fieldNames.any (·.name == p.1)) = true := by
    obtain ⟨p, hp, rfl⟩ := List.mem_map.1 h
    intro hall
    obtain ⟨f, hf, hname⟩ := List.any_eq_true.1 (List.all_eq_true.1 hall p hp)
    exact hk (List.mem_map.2 ⟨f, hf, eq_of_beq hname⟩)
  rw [ofJson, recordFields, if_neg hunknown]
  rfl

/-! ## The manifest on the disk -/

theorem DiskPath.ne_empty_of_mem_namesOf {cs : List Char} {n : String} (h : n ∈ namesOf cs) :
    n ≠ "" := by
  obtain ⟨piece, hpiece, rfl⟩ := List.mem_map.1 h
  have hkept := (List.mem_filter.1 hpiece).2
  intro hempty
  have hnil : piece = [] := by simpa using congrArg String.toList hempty
  simp [hnil] at hkept

/-- A path that a text spells has a text of its own. -/
theorem DiskPath.toText_ofString_ne_empty (s : String) : (ofString s).toText ≠ "" := by
  unfold toText
  split_ifs with hpoint
  · decide
  · intro hempty
    obtain ⟨hanchor, hjoined⟩ := String.append_eq_empty_iff.1 hempty
    cases hnames : (ofString s).names with
    | nil =>
      refine hpoint ⟨hnames, ?_⟩
      cases ha : (ofString s).anchor with
      | here => rfl
      | root | doubleRoot => simp [ha, Anchor.text] at hanchor
    | cons n names =>
      have hmem : n ∈ (ofString s).names := hnames ▸ List.mem_cons_self
      have hn : n ≠ "" := ne_empty_of_mem_namesOf hmem
      have hchars := congrArg String.toList (hnames ▸ hjoined)
      rw [String.toList_intercalate] at hchars
      cases names with
      | nil => exact hn (by simpa using hchars)
      | cons n' names => simp [List.intercalate_cons_cons] at hchars

namespace DocumentStore

variable {D : DocumentStore} {library : String} {w t : World} {m : Manifest} {ns : List String}

/-- What stands in the place of the manifest of a library: a manifest that lists names once each, or
none, but perhaps an artifact. -/
inductive Shows (D : DocumentStore) (library : String) (w : World) : List String → Prop
  | manifest {m : Manifest} {ns : List String}
    (h : w.bytesAt (D.manifestPath (.string library)) = .ok m.toJson.render.toUTF8)
    (hm : m.Lists library ns) (hns : ns.Nodup) : Shows D library w ns
  | missing (h : ∀ bytes, w.Holds (D.manifestPath (.string library)) bytes →
      ∃ a : Artifact, bytes = a.record.toJson.render.toUTF8) : Shows D library w []

theorem Shows.nodup (h : D.Shows library w ns) : ns.Nodup := by
  cases h with
  | manifest _ _ hns => exact hns
  | missing _ => exact .nil

theorem Shows.of_same (h : D.Shows library w ns)
    (hheld : ∀ bytes, t.Holds (D.manifestPath (.string library)) bytes →
      w.Holds (D.manifestPath (.string library)) bytes)
    (hread : w.Readable (D.manifestPath (.string library)) →
      t.Readable (D.manifestPath (.string library))) : D.Shows library t ns := by
  cases h with
  | manifest h hm hns =>
    obtain ⟨bytes, hbytes⟩ := hread ⟨_, h⟩
    have hsame := (hheld bytes (World.holds_of_bytesAt_eq_ok hbytes)).unique
      (World.holds_of_bytesAt_eq_ok h)
    exact .manifest (hsame ▸ hbytes) hm hns
  | missing h => exact .missing fun bytes hbytes => h bytes (hheld bytes hbytes)

theorem Shows.of_ground_eq (h : D.Shows library w ns) (ht : t.ground = w.ground) :
    D.Shows library t ns := by
  obtain ⟨hdisk, hcurrent⟩ := Prod.mk.inj ht
  refine h.of_same (fun bytes hbytes => ?_) fun ⟨bytes, hbytes⟩ => ⟨bytes, ?_⟩
  · rwa [World.Holds, ← hdisk, ← hcurrent]
  · rwa [World.bytesAt_congr ht]

/-- Where nothing but artifacts is written, the manifest stays or is lost. -/
theorem Shows.of_renews (h : D.Shows library w ns) {Q : DiskPath → ByteArray → Prop}
    (ht : World.Renews DiskPath.IsDocument w Q t)
    (hQ : ∀ p bytes, Q p bytes → ∃ a : Artifact, bytes = a.record.toJson.render.toUTF8) :
    ∃ ns', D.Shows library t ns' := by
  have hpath := D.isDocument_manifestPath (.string library)
  cases h with
  | manifest h hm hns =>
    obtain ⟨bytes, hbytes⟩ := ht.stays _ hpath ⟨_, h⟩
    have hheld := World.holds_of_bytesAt_eq_ok hbytes
    rcases ht.new _ hpath bytes hheld with hkept | hnew
    · obtain rfl := hkept.unique (World.holds_of_bytesAt_eq_ok h)
      exact ⟨_, .manifest hbytes hm hns⟩
    · exact ⟨_, .missing fun bytes' hbytes' => hQ _ bytes' (hbytes'.unique hheld ▸ hnew)⟩
  | missing h =>
    exact ⟨_, .missing fun bytes hbytes =>
      (ht.new _ hpath bytes hbytes).elim (h bytes) (hQ _ bytes)⟩

/-- The document of an artifact counts as no manifest. -/
theorem eq_empty_of_artifact {a : Artifact}
    (h : w.bytesAt (D.manifestPath (.string library)) = .ok a.record.toJson.render.toUTF8)
    (hm : (exec (D.loadManifest library : InWorld Manifest) w).1 = .ok m) :
    m = { library := .string library } := by
  obtain hempty | ⟨text, htext, hdecode⟩ := decode_of_loadManifest hm
  · exact hempty
  · rw [World.readText_of_written h] at htext
    obtain rfl := Except.ok.inj (Except.ok.inj htext)
    unfold decode at hdecode
    cases hparse : Json.parse a.record.toJson.render with
    | error e =>
      rw [hparse] at hdecode
      cases hdecode
    | ok j =>
      obtain ⟨ms, rfl, hkey⟩ := mem_keys_of_parse_render hparse
      rw [hparse] at hdecode
      simp only [Manifest.ofJson_of_unknown hkey (by decide)] at hdecode
      cases hdecode

/-- What is loaded is the manifest in its place, or one without a source that lists nothing. -/
theorem Shows.loaded (h : D.Shows library w ns)
    (hm : (exec (D.loadManifest library : InWorld Manifest) w).1 = .ok m) :
    m.Lists library ns ∧ (w.bytesAt (D.manifestPath (.string library)) = .ok m.toJson.render.toUTF8
      ∨ m.sourceFile = .string "") := by
  cases h with
  | manifest h hlists _ =>
    rw [exec_loadManifest_of_written h hlists] at hm
    obtain rfl := Except.ok.inj hm
    exact ⟨hlists, .inl h⟩
  | missing h =>
    have hempty : m = { library := .string library } := by
      by_cases hread : w.Readable (D.manifestPath (.string library))
      · obtain ⟨bytes, hbytes⟩ := hread
        obtain ⟨a, rfl⟩ := h bytes (World.holds_of_bytesAt_eq_ok hbytes)
        exact eq_empty_of_artifact hbytes hm
      · exact eq_empty_of_loadManifest hread hm
    subst hempty
    exact ⟨Manifest.lists_empty library, .inr rfl⟩

/-! ## Updates -/

/-- What comes to a progress that tells of no change has written nothing. -/
def Spares (w : World) (res : Except Fault Progress) (t : World) : Prop :=
  ∀ q, res = .ok q → q.changed = false → t.ground = w.ground

theorem spares_of_error {e : Fault} : Spares w (.error e) t := nofun

theorem spares_of_ground_eq (h : t.ground = w.ground) (res : Except Fault Progress) :
    Spares w res t := fun _ _ _ => h

theorem spares_of_course {u : UpdateInputs} {source : String} {p : Progress} {f : ShaderFunction}
    {res : Except Fault Progress} (h : Course D.store u source p f w res t) :
    Spares w res t := by
  cases h with
  | skipped _ hload _ hlogged =>
    exact spares_of_ground_eq (((InWorld.undisturbed_ground.log _ _).of_exec hlogged).trans
      ((D.keeps_ground_load _).of_exec hload)) _
  | failed _ hload _ _ _ hreport =>
    exact spares_of_ground_eq (((InWorld.undisturbed_ground.keeps_report _).of_exec hreport).trans
      ((D.keeps_ground_load _).of_exec hload)) _
  | @updated q a r =>
    -- what is generated tells of a change
    intro q' hq hc
    cases r with
    | error e => cases hq
    | ok =>
      obtain rfl := Except.ok.inj hq
      cases hc
  | unlisted | unloaded | uncompared | unidentified | undrawn | unnumbered | unsaved =>
    exact spares_of_error

theorem spares_foldlM (D : DocumentStore) (u : UpdateInputs) (source : String) :
    ∀ (fs : List ShaderFunction) {p : Progress} {ns : List String} (w : World),
      p.manifest.functions = strings ns →
        Spares w (exec (fs.foldlM (updateFunction (m := InWorld) D.store u source) p) w).1
          (exec (fs.foldlM (updateFunction D.store u source) p) w).2
  | [], _, _, w, _ => spares_of_ground_eq rfl _
  | f :: fs, p, ns, w, hp => by
    have hspares := spares_of_course (course_updateFunction D.store u source p f w)
    have henlists := enlists_updateFunction D.store u source f hp w
    rw [List.foldlM_cons]
    refine exec_bind_cases (fun e t _ => spares_of_error) fun q t h => ?_
    rw [h] at hspares henlists
    have hq := henlists q rfl
    have hrest := spares_foldlM D u source fs t hq.functions
    intro q' hq' hc
    have hleads := enlists_foldlM D.store u source fs hq.functions t q' hq'
    exact (hrest q' hq' hc).trans (hspares q rfl (hleads.unchanged hc).1)

/-- What an update that has read all does to the manifest: it ends in a fault, and there is another
manifest or none, or the manifest follows the source. -/
inductive Followed (D : DocumentStore) (u : UpdateInputs) (r : UpdateReport) (w : World)
    (ns : List String) : Except Fault UpdateReport → World → Prop
  | halted {e : Fault} {t : World} (h : ∃ ns', D.Shows r.library t ns') :
    Followed D u r w ns (.error e) t
  | finished {report : UpdateReport} {m m' : Manifest} {t : World}
    (hload : (exec (D.loadManifest r.library : InWorld Manifest) w).1 = .ok m)
    (hm : m.functions = strings ns)
    (h : t.bytesAt (D.manifestPath (.string r.library)) = .ok m'.toJson.render.toUTF8)
    (hm' : m'.Lists r.library (u.listed ns)) (hsource : m'.sourceFile = .string u.context.sourceFile)
    (hremoved : report.removed = (ns.filter (· ∉ u.names)).map string)
    (herror : report.error = r.error) : Followed D u r w ns (.ok report) t

theorem Followed.exists_shows {u : UpdateInputs} {r : UpdateReport} {res : Except Fault UpdateReport}
    (h : Followed D u r w ns res t) (hns : ns.Nodup) : ∃ ns', D.Shows r.library t ns' := by
  cases h with
  | halted h => exact h
  | finished _ _ h hm' _ _ _ => exact ⟨_, .manifest h hm' (u.nodup_listed hns)⟩

theorem followed_updateFunctions {u : UpdateInputs} {r : UpdateReport} (source : String)
    (hu : u.context.sourceFile ≠ "") (hr : r.removed = []) (h : D.Shows r.library w ns) :
    Followed D u r w ns (exec (updateFunctions D.store u source r) w).1
      (exec (updateFunctions D.store u source r) w).2 := by
  unfold updateFunctions
  refine (D.keeps_ground_loadManifest r.library).exec_bind_cases
    (fun e t ht => .halted ⟨ns, h.of_ground_eq ht⟩) fun m w1 hload hw1 => ?_
  have hm1 : (exec (D.loadManifest r.library : InWorld Manifest) w).1 = .ok m := by rw [hload]
  obtain ⟨hlists, hplace⟩ := h.loaded hm1
  have hp : (Progress.start r m u.context.sourceFile).manifest.functions = strings ns :=
    hlists.functions
  have hturned := turned_foldlM D u source u.functions (.start r m u.context.sourceFile) w1
  have hspares := spares_foldlM D u source u.functions w1 hp
  have henlists := enlists_foldlM D.store u source u.functions hp w1
  have hartifact : ∀ p bytes, D.IsArtifact w1.current u u.functions p bytes →
      ∃ a : Artifact, bytes = a.record.toJson.render.toUTF8 :=
    fun _ _ ⟨g, _, _, _, _, hbytes⟩ => ⟨g.artifact, hbytes⟩
  refine exec_bind_cases (fun e w2 h2 => ?_) fun q w2 h2 => ?_ <;>
    rw [h2] at hturned hspares henlists <;>
    obtain ⟨ns', hshows⟩ := (h.of_ground_eq hw1).of_renews hturned.renews hartifact
  · exact .halted ⟨ns', hshows⟩
  · refine exec_orFault_bind_cases (fun e _ => .halted ⟨ns', hshows⟩) fun q' hq' => ?_
    have hends := Progress.ends_of_removeOthers hr (henlists q rfl) hq'
    have hlists' : q'.manifest.Lists r.library (u.listed ns) := hlists.of_listing hends.manifest
    simp only
    split
    · obtain ⟨time, v, hv, hwrote⟩ := exists_wrote_of_saveManifest (D := D) hlists'.library w2
      refine exec_bind_cases (fun e t h => ?_) fun _ t h => ?_ <;>
        (change exec (D.saveManifest _) w2 = _ at h; rw [h] at hwrote)
      · refine .halted ((hshows.of_ground_eq hv).of_renews
          (hwrote.renews (D.isDocument_manifestPath _)) ?_)
        rintro p bytes ⟨-, -, hok⟩
        cases hok
      · have hsource : q'.manifest.sourceFile = .string u.context.sourceFile := by
          rw [hends.manifest]
          rfl
        exact .finished hm1 hlists.functions (hwrote.written rfl) (hlists'.at_time time) hsource
          hends.removed hends.error
    · -- nothing is written, so what was loaded is still there
      rename_i hc
      obtain ⟨hq, hsource, hsame⟩ := hends.unchanged (by simpa using hc)
      rcases hplace with hbytes | hempty
      · have hkept : w2.ground = w.ground := (hspares q rfl hq).trans hw1
        rw [← World.bytesAt_congr hkept] at hbytes
        exact .finished hm1 hlists.functions hbytes (hsame ▸ hlists') hsource hends.removed
          hends.error
      · exact absurd (string.inj (hsource.symm.trans hempty)) hu

end DocumentStore

/-! ## Runs -/

namespace InWorld

theorem exec_isFile (w : World) (p : DiskPath) : exec (Sources.isFile p : InWorld Bool) w
    = ((w.disk.holds (w.current.join p) Entry.isFile).mapError w.fault, w) :=
  exec_ask w _ p

theorem exec_readSource {w t : World} {path : DiskPath} {text : String}
    (h : exec (readSource path : InWorld (Except Failure String)) w = (.ok (.ok text), t)) :
    w.readText path = .ok (.ok text) := by
  have hpause : exec (Sources.pause : InWorld Unit) w = (.ok (), w) := rfl
  unfold readSource at h
  rw [exec_bind, exec_readText] at h
  rcases hread : w.readText path with e | e | text' <;> rw [hread] at h
  · cases h
  · simp only at h
    rw [exec_bind, hpause] at h
    simp only at h
    rw [exec_bind, exec_readText, hread] at h
    cases h
  · cases h
    rfl

end InWorld

/-- What an update has read is in its source. -/
theorem Library.exists_source_of_gather {l : Library} {p : Project} {w t : World} {u : UpdateInputs}
    {r : UpdateReport} (h : exec (l.gather p : InWorld (UpdateReport ⊕ UpdateInputs × UpdateReport)) w
      = (.ok (.inr (u, r)), t)) :
    ∃ text, w.readText (p.sourcePath l) = .ok (.ok text) ∧ ShaderFunction.scan text = .ok u.functions
      ∧ u.context.sourceFile = (DiskPath.ofString l.file).toText := by
  have hended : ∀ {x : InWorld UpdateReport} {v : World},
      exec (do return .inl (← x) : InWorld (UpdateReport ⊕ UpdateInputs × UpdateReport)) v
        ≠ (.ok (.inr (u, r)), t) := by
    intro x v
    rw [exec_bind]
    split <;> nofun
  unfold gather at h
  rw [exec_bind] at h
  split at h
  · rename_i b v hfile
    rw [InWorld.exec_isFile] at hfile
    obtain rfl := (Prod.mk.inj hfile).2
    cases b with
    | false => exact absurd h hended
    | true =>
      simp only [Bool.not_true, Bool.false_eq_true, ↓reduceIte] at h
      rw [exec_bind] at h
      split at h
      · rename_i read v hread
        cases read with
        | error e => exact absurd h hended
        | ok text =>
          refine ⟨text, InWorld.exec_readSource hread, ?_⟩
          simp only at h
          cases hscan : ShaderFunction.scan text with
          | error e =>
            rw [hscan] at h
            exact absurd h hended
          | ok functions =>
            rw [hscan] at h
            have hinputs : u.functions = functions
                ∧ u.context.sourceFile = (DiskPath.ofString l.file).toText := by
              refine Yields.of_exec (P := fun found => ∀ u r, found = .inr (u, r) →
                u.functions = functions ∧ u.context.sourceFile = (DiskPath.ofString l.file).toText)
                (yields_of_result.bind fun _ _ => yields_of_result.bind fun _ _ =>
                  yields_of_result.bind fun _ _ => yields_of_result.bind fun _ _ =>
                  yields_of_result.bind fun texts _ => ?_) h u r rfl
              cases texts with
              | error e => exact yields_of_result.bind fun _ _ => yields_pure nofun
              | ok texts =>
                refine yields_pure fun u r hu => ?_
                cases hu
                exact ⟨rfl, rfl⟩
            exact ⟨congrArg _ hinputs.1.symm, hinputs.2⟩
      · cases h
  · cases h

namespace DocumentStore

variable {D : DocumentStore} {library : String} {w t : World} {ns : List String}

theorem result_loadManifest_congr (D : DocumentStore) (library : String) (h : t.silenced = w.silenced) :
    (exec (D.loadManifest library : InWorld Manifest) t).1
      = (exec (D.loadManifest library : InWorld Manifest) w).1 := by
  have hread : (exec (read "manifest" Manifest.ofJson (D.manifestPath (.string library)) :
      InWorld (Option Manifest)) t).1 = (exec (read "manifest" Manifest.ofJson _) w).1 :=
    result_read_congr h
  unfold loadManifest
  rw [exec_bind, exec_bind]
  rcases hx : exec (read "manifest" Manifest.ofJson _ : InWorld (Option Manifest)) t with ⟨res, t'⟩
  rcases hy : exec (read "manifest" Manifest.ofJson _ : InWorld (Option Manifest)) w with ⟨res', w'⟩
  rw [hx, hy] at hread
  obtain rfl : res = res' := hread
  cases res <;> rfl

/-- What an update does to the manifest of its library: it ends in an error, and there is a manifest or
none, or the manifest follows the source. -/
inductive Run (D : DocumentStore) (l : Library) (p : Project) (w : World) (ns : List String) :
    Except Fault UpdateReport → World → Prop
  | ended {res : Except Fault UpdateReport} {t : World} (h : ∃ ns', D.Shows l.name t ns')
    (hres : ∀ report, res = .ok report → report.error ≠ none) : Run D l p w ns res t
  | followed {u : UpdateInputs} {r : UpdateReport} {text : String} {res : Except Fault UpdateReport}
    {v t : World} (hv : v.silenced = w.silenced)
    (htext : w.readText (p.sourcePath l) = .ok (.ok text))
    (hscan : ShaderFunction.scan text = .ok u.functions)
    (hsource : u.context.sourceFile = (DiskPath.ofString l.file).toText) (hr : r.library = l.name)
    (h : Followed D u r v ns res t) : Run D l p w ns res t

theorem run_update (l : Library) (p : Project) (h : D.Shows l.name w ns) :
    D.Run l p w ns (exec (l.update p D.store) w).1 (exec (l.update p D.store) w).2 := by
  have hyields := l.yields_gather (σ := World) p w
  rw [Library.update_eq]
  refine (InWorld.undisturbed_silenced.keeps_gather l p).exec_bind_cases (fun e v hv => ?_)
    fun gathered v hgather hv => ?_
  · exact .ended ⟨ns, h.of_ground_eq (World.ground_of_silenced hv)⟩ nofun
  · have hshows : D.Shows l.name v ns := h.of_ground_eq (World.ground_of_silenced hv)
    rw [hgather] at hyields
    rcases gathered with r | ⟨u, r⟩
    · obtain ⟨includes, message, rfl⟩ := hyields _ rfl
      refine .ended ⟨ns, hshows⟩ fun report hreport => ?_
      obtain rfl := Except.ok.inj hreport
      nofun
    · obtain ⟨⟨includes, rfl⟩, -⟩ := hyields _ rfl
      obtain ⟨text, htext, hscan, hsource⟩ := Library.exists_source_of_gather hgather
      refine .followed hv htext hscan hsource rfl (followed_updateFunctions _ ?_ rfl hshows)
      rw [hsource]
      exact DiskPath.toText_ofString_ne_empty _

/-- The worlds that updates of one library lead to from one without a manifest of it, whatever they
come to. Between them everything may change but the file of the manifest and the way to it. -/
inductive Reached (D : DocumentStore) (library : String) : World → Prop
  | start {w : World} (h : ∀ bytes, ¬w.Holds (D.manifestPath (.string library)) bytes) :
    Reached D library w
  | edit {w t : World} (h : Reached D library w)
    (hheld : ∀ bytes, t.Holds (D.manifestPath (.string library)) bytes →
      w.Holds (D.manifestPath (.string library)) bytes)
    (hread : w.Readable (D.manifestPath (.string library)) →
      t.Readable (D.manifestPath (.string library))) : Reached D library t
  | update {w : World} {l : Library} (p : Project) (h : Reached D library w) (hl : l.name = library) :
    Reached D library (exec (l.update p D.store : InWorld UpdateReport) w).2

theorem Reached.exists_shows (h : D.Reached library w) : ∃ ns, D.Shows library w ns := by
  induction h with
  | start h => exact ⟨[], .missing fun bytes hbytes => absurd hbytes (h bytes)⟩
  | edit _ hheld hread ih =>
    obtain ⟨ns, hns⟩ := ih
    exact ⟨ns, hns.of_same hheld hread⟩
  | update p _ hl ih =>
    subst hl
    obtain ⟨ns, hns⟩ := ih
    cases run_update _ p hns with
    | ended h _ => exact h
    | followed _ _ _ _ hr h =>
      rw [← hr]
      exact h.exists_shows hns.nodup

/-- After every update of a library without an error of the whole source, whether or not it has saved
the manifest, there is a manifest about the current source. It lists no name twice: first those that
were listed before and are still in the source, in their order, and then the new ones in the order in
which they first stand in the source. The other names are reported as removed, in their order. -/
theorem exists_manifest_of_update {l : Library} {p : Project} {report : UpdateReport}
    (h : D.Reached library w) (hl : l.name = library)
    (hrun : exec (l.update p D.store : InWorld UpdateReport) w = (.ok report, t))
    (herror : report.error = none) :
    ∃ m ns text functions m' ns',
      (exec (D.loadManifest library : InWorld Manifest) w).1 = .ok m ∧ m.functions = strings ns
      ∧ w.readText (p.sourcePath l) = .ok (.ok text)
      ∧ ShaderFunction.scan text = .ok functions
      ∧ exec (D.loadManifest library : InWorld Manifest) t = (.ok m', t)
      ∧ m'.library = .string library
      ∧ m'.sourceFile = .string (DiskPath.ofString l.file).toText
      ∧ m'.functions = strings ns' ∧ ns'.Nodup
      ∧ ns' = ns.filter (· ∈ functions.map (·.name))
        ++ ((functions.map (·.name)).filter (· ∉ ns)).eraseDups
      ∧ report.removed = (ns.filter (· ∉ functions.map (·.name))).map .string := by
  subst hl
  obtain ⟨ns, hns⟩ := h.exists_shows
  have hran := run_update l p hns
  rw [hrun] at hran
  cases hran with
  | ended _ hres => exact absurd herror (hres report rfl)
  | @followed u r text _ v _ hv htext hscan hsource hr h =>
    cases h with
    | @finished _ m m' _ hload hm h hlists hsource' hremoved _ =>
      rw [hr] at hload h hlists
      refine ⟨m, ns, text, u.functions, m', u.listed ns, ?_, hm, htext, hscan,
        exec_loadManifest_of_written h hlists, hlists.library, hsource' ▸ hsource ▸ rfl,
        hlists.functions, u.nodup_listed hns.nodup, u.listed_eq ns, hremoved⟩
      rw [← result_loadManifest_congr D l.name hv, hload]

end DocumentStore

namespace EditedSource

open DocumentStore

/-! ## A source before and after an edit -/

def library : Library := { name := "Lib", file := "a.hlsl" }

def project : Project := { root := .fileSystem, libraries := [library] }

def documents : DocumentStore := ⟨.ofString "out", .ofString "out"⟩

def withSource (w : World) (text : String) : World :=
  w.onDisk (w.disk.put ["a.hlsl"] (.file text.toUTF8))

def updated (w : World) : World :=
  (exec (library.update project documents.store : InWorld UpdateReport) w).2

/-- Functions without a valid signature are listed too. -/
def start : World := withSource {} "void A(x) \x7b\x7d void B(x) \x7b\x7d void A(x) \x7b\x7d"

def edited : World := withSource (updated start) "void C(x) \x7b\x7d void B(x) \x7b\x7d"

/-- The texts in a list of values. -/
def texts (js : List Json) : List String :=
  js.filterMap fun
    | .string s => some s
    | _ => none

theorem texts_map_string (ns : List String) : texts (ns.map string) = ns := by
  rw [texts, List.filterMap_map]
  exact List.filterMap_some

theorem evaluated :
    (start.disk.lookup (start.current.placeFrom (documents.manifestPath (.string "Lib")))).isNone = true
      ∧ ((updated start).disk.lookup ["a.hlsl"]).any Entry.isFile = true
      ∧ (exec (library.update project documents.store : InWorld UpdateReport) edited).1.toOption.map
          (fun r => (texts r.removed, r.error)) = some (["A"], none) := by
  decide +kernel

theorem reached : documents.Reached "Lib" edited := by
  obtain ⟨hmissing, hfile, -⟩ := evaluated
  have hstart : documents.Reached "Lib" start := .start fun bytes hbytes => by
    unfold World.Holds at hbytes
    rw [hbytes] at hmissing
    cases hmissing
  have hplace : (updated start).disk.lookup ["a.hlsl"] ≠ some .directory := by
    intro hdirectory
    rw [hdirectory] at hfile
    cases hfile
  have hrenews : World.Renews DiskPath.IsDocument (updated start) (fun _ _ => False) edited :=
    World.renews_put hplace fun p hp => hp.placeFrom_ne _ (by decide)
  have hpath := documents.isDocument_manifestPath (.string "Lib")
  exact (hstart.update project (l := library) rfl).edit
    (fun bytes hbytes => (hrenews.new _ hpath bytes hbytes).resolve_right id) (hrenews.stays _ hpath)

theorem exists_report {w : World} {removed : List String}
    (h : (exec (library.update project documents.store : InWorld UpdateReport) w).1.toOption.map
      (fun r => (texts r.removed, r.error)) = some (removed, none)) :
    ∃ report, exec (library.update project documents.store : InWorld UpdateReport) w
        = (.ok report, updated w) ∧ report.error = none ∧ texts report.removed = removed := by
  unfold updated
  rcases hrun : exec (library.update project documents.store : InWorld UpdateReport) w with
    ⟨e | report, t⟩ <;> rw [hrun] at h
  · cases h
  · obtain ⟨hremoved, herror⟩ := Prod.mk.inj (Option.some.inj h)
    exact ⟨report, rfl, herror, hremoved⟩

/-- A function leaves, one stays and one comes. -/
theorem manifest_of_edited_source :
    ∃ report m ns, exec (library.update project documents.store : InWorld UpdateReport) edited
        = (.ok report, updated edited)
      ∧ exec (documents.loadManifest "Lib" : InWorld Manifest) (updated edited) = (.ok m, updated edited)
      ∧ m.functions = strings ns ∧ ns.Nodup ∧ report.removed = [.string "A"] := by
  obtain ⟨report, hrun, herror, hremoved⟩ := exists_report evaluated.2.2
  obtain ⟨-, earlier, -, functions, m, ns, -, -, -, -, hload, -, -, hfunctions, hnodup, -, hreported⟩ :=
    exists_manifest_of_update reached rfl hrun herror
  rw [hreported, texts_map_string] at hremoved
  refine ⟨report, m, ns, hrun, hload, hfunctions, hnodup, ?_⟩
  rw [hreported, hremoved]
  rfl

end EditedSource

end ShaderGraph
