import ShaderGraph.Proofs.Held

/-!
# Entries of manifests and their artifacts

Updates of a project and edits of its sources follow each other. The manifest of a library lists the
functions that its last finished update has read; and where the documents of the libraries have
places of their own, each function with a valid signature has an artifact of the library
(`Project.exists_manifest_of_reached`).
-/

namespace ShaderGraph

open Json Routine

namespace Project

variable {p : Project} {l l' : Library} {w t : World}

/-! ## The documents of a project -/

/-- The directories of the documents of a library. -/
def documents (p : Project) (l : Library) : DocumentStore := ⟨p.outputDirectory l, p.manifestDirectory⟩

def artifactPath (p : Project) (l : Library) (name : String) : DiskPath :=
  (p.documents l).artifactPath (.string name)

def manifestPath (p : Project) (l : Library) : DiskPath := (p.documents l).manifestPath (.string l.name)

/-- The paths of artifacts and manifests of the libraries. -/
inductive IsDocument (p : Project) : DiskPath → Prop
  | artifact {l : Library} (hl : l ∈ p.libraries) (name : String) : p.IsDocument (p.artifactPath l name)
  | manifest {l : Library} (hl : l ∈ p.libraries) : p.IsDocument (p.manifestPath l)

theorem IsDocument.of_project {path : DiskPath} (h : p.IsDocument path) : path.IsDocument := by
  cases h with
  | @artifact l _ name => exact (p.documents l).isDocument_artifactPath _
  | @manifest l _ => exact (p.documents l).isDocument_manifestPath _

end Project

/-! ## Histories -/

/-- One update of a library that came to its functions. -/
structure Pass where
  library : Library
  /-- what it has read -/
  inputs : UpdateInputs
  /-- whether it ended without a fault -/
  finished : Bool

namespace Pass

/-- The names of the functions that it has read. -/
def names (x : Pass) : List String := x.inputs.functions.map (·.name)

/-- Whether it has brought a library up to date. -/
def finishes (l : Library) (x : Pass) : Bool := decide (x.library = l) && x.finished

theorem finishes_self (l : Library) (u : UpdateInputs) : (Pass.mk l u true).finishes l = true := by
  simp [finishes]

theorem library_of_finishes {l : Library} {x : Pass} (h : x.finishes l = true) : x.library = l :=
  of_decide_eq_true (Bool.and_eq_true_iff.1 h).1

theorem finishes_of_ne {l : Library} {x : Pass} (h : x.library ≠ l) : x.finishes l = false := by
  simp [finishes, h]

end Pass

theorem Library.Reads.libraryName_eq {l : Library} {p : Project} {u : UpdateInputs} (h : l.Reads p u) :
    u.context.libraryName = l.name := by
  obtain ⟨_, _, _, _, _, _, -, -, -, rfl⟩ := h
  rfl

namespace Project

variable {p : Project} {l l' : Library} {w t : World} {xs : List Pass}

/-- The update of a library in a world, if it comes to the functions. -/
def pass (p : Project) (l : Library) (w : World) : List Pass :=
  match LawfulStore.inputsAt l p w with
  | none => []
  | some u => [⟨l, u, (exec (l.update p (p.store l)) w).1.isOk⟩]

/-- The updates of libraries one after the other, the latest first. A fault ends them. -/
def passes (p : Project) : List Library → World → List Pass
  | [], _ => []
  | l :: ls, w =>
    let r := exec (l.update p (p.store l)) w
    (if r.1.isOk then p.passes ls r.2 else []) ++ p.pass l w

/-- The worlds that updates of a project lead to from one without its documents, with the updates of
libraries that came to functions, the latest first. Between updates everything but the documents may
change. -/
inductive Reached (p : Project) : List Pass → World → Prop
  | start {w : World} (h : ∀ path, p.IsDocument path → ∀ bytes, ¬w.Holds path bytes) : Reached p [] w
  | edit {xs : List Pass} {w t : World} (h : Reached p xs w)
    (ht : World.Renews p.IsDocument w (fun _ _ => False) t) : Reached p xs t
  | update {xs : List Pass} {w : World} {names : Option (List String)} {ls : List Library}
    (h : Reached p xs w) (hls : p.selected names = .ok ls) :
    Reached p (p.passes ls w ++ xs) (exec (p.updateAll ls : InWorld (List UpdateReport)) w).2

/-- The manifests have places of their own: no libraries share one and no artifact is in the place of
one. -/
structure Apart (p : Project) (current : DiskPath) (xs : List Pass) : Prop where
  manifests : ∀ l ∈ p.libraries, ∀ l' ∈ p.libraries,
    current.placeFrom (p.manifestPath l) = current.placeFrom (p.manifestPath l') → l = l'
  artifacts : ∀ x ∈ xs, ∀ n ∈ x.names, ∀ l ∈ p.libraries,
    current.placeFrom (p.artifactPath x.library n) ≠ current.placeFrom (p.manifestPath l)

/-- Functions of libraries with other names have their artifacts in other places. -/
def Unshared (p : Project) (current : DiskPath) (xs : List Pass) : Prop :=
  ∀ x ∈ xs, ∀ y ∈ xs, ∀ n ∈ x.names, ∀ n' ∈ y.names,
    current.placeFrom (p.artifactPath x.library n) = current.placeFrom (p.artifactPath y.library n') →
      x.library.name = y.library.name

theorem Apart.of_append {current : DiskPath} {ys : List Pass} (h : p.Apart current (ys ++ xs)) :
    p.Apart current xs where
  manifests := h.manifests
  artifacts x hx := h.artifacts x (List.mem_append_right _ hx)

/-! ## What is known of the documents -/

/-- The manifest of a library after some updates: it lists the functions that the last finished one
has read, of which those with a valid signature have an artifact. -/
structure Entered (p : Project) (xs : List Pass) (w : World) (l : Library) (m : Manifest)
    (ns : List String) (x : Pass) : Prop where
  lists : m.Lists l.name ns
  last : xs.find? (Pass.finishes l) = some x
  mem_iff : ∀ n, n ∈ ns ↔ n ∈ x.names
  held : ∀ f ∈ x.inputs.functions, (∃ s, f.signature = .ok s) → w.Readable (p.artifactPath l f.name)

/-- Whether the manifest of a library, if there is one, is what its last finished update has made. -/
def Catalogued (p : Project) (xs : List Pass) (w : World) (l : Library) : Prop :=
  ∀ bytes, w.Holds (p.manifestPath l) bytes → w.Readable (p.manifestPath l)
    ∧ ∃ m ns x, p.Entered xs w l m ns x ∧ bytes = m.toJson.render.toUTF8

/-- A document comes from a function of an update, unless it is in the place of a manifest. -/
def Origin (p : Project) (xs : List Pass) (current path : DiskPath) (bytes : ByteArray) : Prop :=
  (∃ x ∈ xs, x.inputs.context.libraryName = x.library.name
      ∧ (p.documents x.library).IsArtifact current x.inputs x.inputs.functions path bytes)
    ∨ ∃ l ∈ p.libraries, current.placeFrom path = current.placeFrom (p.manifestPath l)

/-- What is known of the documents of a project. -/
structure Accounted (p : Project) (xs : List Pass) (w : World) : Prop where
  documents : ∀ path, p.IsDocument path → ∀ bytes, w.Holds path bytes →
    p.Origin xs w.current path bytes
  manifests : ∀ l ∈ p.libraries, p.Catalogued xs w l
  saved : ∀ x ∈ xs, x.library ∈ p.libraries → x.finished = true → x.inputs.functions ≠ [] →
    w.Readable (p.manifestPath x.library)

theorem Origin.cons {current path : DiskPath} {bytes : ByteArray} {x : Pass}
    (h : p.Origin xs current path bytes) : p.Origin (x :: xs) current path bytes :=
  h.imp_left fun ⟨y, hy, hrest⟩ => ⟨y, List.mem_cons_of_mem _ hy, hrest⟩

theorem Apart.not_isArtifact {current : DiskPath} {x : Pass} {bytes : ByteArray}
    (h : p.Apart current xs) (hx : x ∈ xs) (hl : l ∈ p.libraries) :
    ¬(p.documents x.library).IsArtifact current x.inputs x.inputs.functions (p.manifestPath l) bytes :=
  fun ⟨_, _, _, hf, hplace, _⟩ => h.artifacts x hx _ (List.mem_map_of_mem hf) l hl hplace.symm

section

variable {Q : DiskPath → ByteArray → Prop} {m : Manifest} {ns : List String} {x : Pass}

theorem Entered.renews (h : p.Entered xs w l m ns x) (hl : l ∈ p.libraries)
    (ht : World.Renews p.IsDocument w Q t) : p.Entered xs t l m ns x :=
  ⟨h.lists, h.last, h.mem_iff, fun f hf hs => ht.stays _ (.artifact hl f.name) (h.held f hf hs)⟩

theorem Catalogued.renews (h : p.Catalogued xs w l) (hl : l ∈ p.libraries)
    (ht : World.Renews p.IsDocument w Q t) (hQ : ∀ bytes, ¬Q (p.manifestPath l) bytes) :
    p.Catalogued xs t l := by
  intro bytes hbytes
  have hheld := (ht.new _ (.manifest hl) bytes hbytes).resolve_right (hQ bytes)
  obtain ⟨hreadable, m, ns, x, hentered, hm⟩ := h bytes hheld
  exact ⟨ht.stays _ (.manifest hl) hreadable, m, ns, x, hentered.renews hl ht, hm⟩

/-- An update that does not bring a library up to date does not change what its last one is. -/
theorem Catalogued.of_not_finishes {y : Pass} (h : p.Catalogued xs w l)
    (hy : y.finishes l = false) : p.Catalogued (y :: xs) w l := by
  intro bytes hbytes
  obtain ⟨hreadable, m, ns, x, hentered, hm⟩ := h bytes hbytes
  have hlast : (y :: xs).find? (Pass.finishes l) = some x := by
    rw [List.find?_cons, hy, hentered.last]
  exact ⟨hreadable, m, ns, x, ⟨hentered.lists, hlast, hentered.mem_iff, hentered.held⟩, hm⟩

/-- An update that ends without a fault is the last finished one of its library. -/
theorem entered_of_turned {u : UpdateInputs} (hm : m.Lists l.name ns)
    (hns : ∀ n, n ∈ ns ↔ n ∈ u.functions.map (·.name))
    (hturned : DocumentStore.Turned (p.documents l) u u.functions w (.ok () : Except Fault Unit) t) :
    p.Entered (⟨l, u, true⟩ :: xs) t l m ns ⟨l, u, true⟩ :=
  ⟨hm, List.find?_cons_of_pos (Pass.finishes_self l u), hns, hturned.held () rfl⟩

theorem Catalogued.listed (h : p.Catalogued xs w l) : (p.documents l).Listed l.name w := by
  intro bytes hbytes
  obtain ⟨-, m, ns, x, hentered, hm⟩ := h bytes (World.holds_of_bytesAt_eq_ok hbytes)
  exact ⟨m, ns, hentered.lists, hm⟩

end

namespace Accounted

/-- What is known stays so while the documents do. -/
theorem renews (h : p.Accounted xs w) (ht : World.Renews p.IsDocument w (fun _ _ => False) t) :
    p.Accounted xs t where
  documents path hpath bytes hbytes := by
    rw [ht.current]
    exact h.documents path hpath bytes ((ht.new path hpath bytes hbytes).resolve_right id)
  manifests l hl := (h.manifests l hl).renews hl ht fun _ => id
  saved x hx hl hfinished hf := ht.stays _ (.manifest hl) (h.saved x hx hl hfinished hf)

section

variable {α : Type} {res : Except Fault α} {x : Pass}
  (hx : x.inputs.context.libraryName = x.library.name) (hapart : p.Apart w.current (x :: xs))
  (hturned : DocumentStore.Turned (p.documents x.library) x.inputs x.inputs.functions w res t)

include hx hturned in
theorem origin_of_turned (h : p.Accounted xs w) {path : DiskPath} (hpath : p.IsDocument path)
    {bytes : ByteArray} (hbytes : t.Holds path bytes) : p.Origin (x :: xs) t.current path bytes := by
  rw [hturned.renews.current]
  rcases hturned.renews.new path hpath.of_project bytes hbytes with hold | hnew
  · exact (h.documents path hpath bytes hold).cons
  · exact .inl ⟨x, List.mem_cons_self, hx, hnew⟩

include hapart hturned in
theorem catalogued_of_turned (h : p.Accounted xs w) (hl : l ∈ p.libraries) : p.Catalogued xs t l := by
  refine (h.manifests l hl).renews hl (hturned.renews.mono (fun _ hp => hp.of_project) fun _ _ => id)
    fun bytes => ?_
  exact hapart.not_isArtifact List.mem_cons_self hl

end

section

variable {u : UpdateInputs} {v : World} (hl : l ∈ p.libraries) (hu : u.context.libraryName = l.name)

theorem saved_of_brought {res : Except Fault UpdateReport} (h : p.Accounted xs v)
    (hbrought : DocumentStore.Brought (p.documents l) u l.name v res t) :
    ∀ x ∈ (⟨l, u, res.isOk⟩ :: xs : List Pass), x.library ∈ p.libraries → x.finished = true →
      x.inputs.functions ≠ [] → t.Readable (p.manifestPath x.library) := by
  intro x hx hlibrary hfinished hf
  rcases List.mem_cons.1 hx with rfl | hx
  · obtain ⟨f, hf⟩ := List.exists_mem_of_ne_nil _ hf
    cases res with
    | error e => cases hfinished
    | ok report => exact hbrought.readable hf
  · exact hbrought.stays _ ((p.documents x.library).isDocument_manifestPath _)
      (h.saved x hx hlibrary hfinished hf)

section

variable {m : Manifest} {ns : List String} (hm : m.Lists l.name ns)
  (hns : ∀ n, n ∈ ns ↔ n ∈ u.functions.map (·.name))
  (hapart : p.Apart v.current (⟨l, u, true⟩ :: xs))
  (hturned : DocumentStore.Turned (p.documents l) u u.functions v (.ok () : Except Fault Unit) w)

include hl hm hns hapart hturned

/-- A manifest that is not saved was loaded as it still is. -/
theorem catalogued_of_unchanged (h : p.Accounted xs v)
    (hload : (exec ((p.documents l).loadManifest l.name : InWorld Manifest) v).1 = .ok m) :
    p.Catalogued (⟨l, u, true⟩ :: xs) w l := by
  intro bytes hbytes
  have hold : v.Holds (p.manifestPath l) bytes :=
    (hturned.renews.new _ ((p.documents l).isDocument_manifestPath _) bytes hbytes).resolve_right
      (hapart.not_isArtifact List.mem_cons_self hl)
  have hread := (h.manifests l hl bytes hold).1.bytesAt_of_holds hold
  refine ⟨(h.catalogued_of_turned hapart hturned hl bytes hbytes).1, m, ns, _,
    entered_of_turned hm hns hturned, ?_⟩
  exact ((h.manifests l hl).listed.loaded hload).2 bytes hread

omit hapart in
theorem catalogued_of_written
    (hwrote : Wrote (p.manifestPath l) m.toJson w (.ok ()) t) :
    p.Catalogued (⟨l, u, true⟩ :: xs) t l := by
  intro bytes hbytes
  have hrenews := (hwrote.renews ((p.documents l).isDocument_manifestPath _)).mono
    (fun path (hpath : p.IsDocument path) => hpath.of_project) fun _ _ => id
  have hread := hwrote.written rfl
  refine ⟨⟨_, hread⟩, m, ns, _, (entered_of_turned hm hns hturned).renews hl hrenews, ?_⟩
  exact hbytes.unique (World.holds_of_bytesAt_eq_ok hread)

end

include hl hu

/-- The update of a library that comes to its functions. -/
theorem of_brought {res : Except Fault UpdateReport} (h : p.Accounted xs v)
    (hapart : p.Apart v.current (⟨l, u, res.isOk⟩ :: xs))
    (hbrought : DocumentStore.Brought (p.documents l) u l.name v res t) :
    p.Accounted (⟨l, u, res.isOk⟩ :: xs) t := by
  have hsaved := h.saved_of_brought hbrought
  cases hbrought with
  | @halted e t hturned =>
    refine ⟨fun path hpath bytes => h.origin_of_turned hu hturned hpath, fun l' hl' => ?_, hsaved⟩
    exact (h.catalogued_of_turned hapart hturned hl').of_not_finishes (Bool.and_false _)
  | @unchanged report m ns t hload hm hns hturned =>
    refine ⟨fun path hpath bytes => h.origin_of_turned hu hturned hpath, fun l' hl' => ?_, hsaved⟩
    by_cases hsame : l = l'
    · subst hsame
      exact catalogued_of_unchanged hl hm hns hapart hturned h hload
    · exact (h.catalogued_of_turned hapart hturned hl').of_not_finishes (Pass.finishes_of_ne hsame)
  | @changed report m ns w t hturned hm hns hwrote =>
    have hrenews := (hwrote.renews ((p.documents l).isDocument_manifestPath _)).mono
      (fun path (hpath : p.IsDocument path) => hpath.of_project) fun _ _ => id
    refine ⟨fun path hpath bytes hbytes => ?_, fun l' hl' => ?_, hsaved⟩
    · rw [hrenews.current]
      rcases hrenews.new path hpath bytes hbytes with hold | ⟨hplace, -⟩
      · exact h.origin_of_turned hu hturned hpath hold
      · exact .inr ⟨l, hl, hplace⟩
    · by_cases hsame : l = l'
      · subst hsame
        exact catalogued_of_written hl hm hns hturned hwrote
      · refine ((h.catalogued_of_turned hapart hturned hl').renews hl' hrenews ?_).of_not_finishes
          (Pass.finishes_of_ne hsame)
        rintro bytes ⟨hplace, -⟩
        rw [hturned.renews.current] at hplace
        exact hsame (hapart.manifests l' hl' l hl hplace).symm

end

/-- What is known is known after an update of a library. -/
theorem update (h : p.Accounted xs w) (hl : l ∈ p.libraries)
    (hapart : p.Apart w.current (p.pass l w ++ xs)) :
    p.Accounted (p.pass l w ++ xs) (exec (l.update p (p.store l) : InWorld UpdateReport) w).2 := by
  unfold Project.pass at hapart ⊢
  cases hu : LawfulStore.inputsAt l p w with
  | none => exact h.renews (World.renews_of_ground_eq (DocumentStore.ground_update hu))
  | some u =>
    rw [hu] at hapart
    obtain ⟨v, hv, hbrought⟩ :=
      DocumentStore.brought_update (p.documents l) hu (h.manifests l hl).listed
    have hcontext := (LawfulStore.reads_of_inputsAt hu).libraryName_eq
    rw [← (Prod.mk.inj hv).2] at hapart
    exact of_brought hl hcontext (h.renews (World.renews_of_ground_eq hv)) hapart hbrought

theorem updateAll : ∀ {ls : List Library} {xs : List Pass} {w : World}, p.Accounted xs w →
    (∀ l ∈ ls, l ∈ p.libraries) → p.Apart w.current (p.passes ls w ++ xs) →
      p.Accounted (p.passes ls w ++ xs) (exec (p.updateAll ls : InWorld (List UpdateReport)) w).2
  | [], _, _, h, _, _ => h
  | l :: ls, xs, w, h, hls, hapart => by
    have hl := hls l List.mem_cons_self
    have hcurrent := (p.documents l).keeps_current_update l p w
    have hupdate := h.update (w := w) hl
    unfold passes at hapart ⊢
    rw [Project.updateAll, List.mapM_cons, exec_bind]
    change (exec (l.update p (p.store l)) w).2.current = w.current at hcurrent
    rcases hx : exec (l.update p (p.store l) : InWorld UpdateReport) w with ⟨e | report, t⟩ <;>
      rw [hx] at hapart hupdate hcurrent <;>
      simp only [Except.isOk, Except.toBool, Bool.false_eq_true, ↓reduceIte, List.nil_append]
        at hapart hupdate hcurrent ⊢
    · exact hupdate hapart
    · rw [List.append_assoc] at hapart ⊢
      have hrest := updateAll (hupdate hapart.of_append)
        (fun l' hl' => hls l' (List.mem_cons_of_mem _ hl')) (hcurrent ▸ hapart)
      rw [exec_bind_pure]
      exact hrest

end Accounted

/-! ## Every history -/

theorem mem_libraries_of_library {name : String} (h : p.library name = .ok l) : l ∈ p.libraries := by
  unfold library library? at h
  split at h
  · rename_i l' hfind
    cases h
    exact List.mem_of_find?_eq_some hfind
  · cases h

theorem mem_libraries_of_mapM : ∀ {names : List String} {ls : List Library},
    names.mapM p.library = .ok ls → ∀ l ∈ ls, l ∈ p.libraries
  | [], ls, h => by
    cases h
    exact nofun
  | name :: names, ls, h => by
    rw [List.mapM_cons] at h
    cases hl : p.library name with
    | error e =>
      rw [hl] at h
      cases h
    | ok l =>
      rw [hl] at h
      cases hls : names.mapM p.library with
      | error e =>
        rw [hls] at h
        cases h
      | ok ls =>
        rw [hls] at h
        cases h
        exact List.forall_mem_cons.2 ⟨mem_libraries_of_library hl, mem_libraries_of_mapM hls⟩

theorem mem_libraries_of_selected {names : Option (List String)} {ls : List Library}
    (h : p.selected names = .ok ls) : ∀ l ∈ ls, l ∈ p.libraries := by
  cases names with
  | none =>
    cases h
    exact fun _ => id
  | some names => exact mem_libraries_of_mapM h

theorem keeps_current_updateAll (p : Project) (ls : List Library) :
    Keeps World.current (p.updateAll ls : InWorld (List UpdateReport)) := by
  unfold updateAll
  induction ls with
  | nil => exact keeps_pure _
  | cons l ls ih =>
    rw [List.mapM_cons]
    exact ((p.documents l).keeps_current_update l p).bind fun _ => ih.bind fun _ => keeps_pure _

theorem Reached.accounted (h : p.Reached xs w) (hapart : p.Apart w.current xs) : p.Accounted xs w := by
  induction h with
  | start h =>
    exact ⟨fun path hpath bytes hbytes => absurd hbytes (h path hpath bytes),
      fun l hl bytes hbytes => absurd hbytes (h _ (.manifest hl) bytes), nofun⟩
  | edit _ ht ih =>
    rw [ht.current] at hapart
    exact (ih hapart).renews ht
  | update _ hls ih =>
    rw [p.keeps_current_updateAll] at hapart
    exact (ih hapart.of_append).updateAll (mem_libraries_of_selected hls) hapart

/-- After a finished update that has read a function there is the manifest of the library. -/
theorem Accounted.exists_entered (h : p.Accounted xs w) (hl : l ∈ p.libraries) {x : Pass}
    (hx : xs.find? (Pass.finishes l) = some x) {f : ShaderFunction} (hf : f ∈ x.inputs.functions) :
    ∃ m ns, w.bytesAt (p.manifestPath l) = .ok m.toJson.render.toUTF8 ∧ p.Entered xs w l m ns x := by
  have hfinishes : x.finishes l = true := List.find?_some hx
  have hlibrary := Pass.library_of_finishes hfinishes
  obtain ⟨bytes, hbytes⟩ : w.Readable (p.manifestPath l) := by
    rw [← hlibrary]
    exact h.saved x (List.mem_of_find?_eq_some hx) (hlibrary ▸ hl) (Bool.and_eq_true_iff.1 hfinishes).2
      (List.ne_nil_of_mem hf)
  obtain ⟨-, m, ns, y, hentered, rfl⟩ := h.manifests l hl bytes (World.holds_of_bytesAt_eq_ok hbytes)
  obtain rfl := Option.some.inj (hx.symm.trans hentered.last)
  exact ⟨m, ns, hbytes, hentered⟩

/-- The last finished update of a library has listed its functions. -/
theorem Accounted.exists_manifest (h : p.Accounted xs w) (hl : l ∈ p.libraries) {x : Pass}
    (hx : xs.find? (Pass.finishes l) = some x) {f : ShaderFunction} (hf : f ∈ x.inputs.functions) :
    ∃ m ns, exec ((p.store l).loadManifest l.name : InWorld Manifest) w = (.ok m, w)
      ∧ m.functions = strings ns ∧ f.name ∈ ns := by
  obtain ⟨m, ns, hbytes, hentered⟩ := h.exists_entered hl hx hf
  exact ⟨m, ns, DocumentStore.exec_loadManifest_of_written (D := p.documents l) hbytes hentered.lists,
    hentered.lists.functions, (hentered.mem_iff f.name).2 (List.mem_map_of_mem hf)⟩

/-- The update of one library that is named. -/
theorem Reached.update_library (h : p.Reached xs w) (hl : p.library l.name = .ok l) :
    p.Reached (p.pass l w ++ xs) (exec (l.update p (p.store l) : InWorld UpdateReport) w).2 := by
  have hls : p.selected (some [l.name]) = .ok [l] := by
    simp only [selected, List.mapM_cons, List.mapM_nil, hl]
    rfl
  have hupdate := h.update hls
  have hpasses : p.passes [l] w = p.pass l w := by
    simp only [passes, ite_self, List.nil_append]
  have hworld : (exec (p.updateAll [l] : InWorld (List UpdateReport)) w).2
      = (exec (l.update p (p.store l) : InWorld UpdateReport) w).2 := by
    unfold updateAll
    simp only [List.mapM_cons, List.mapM_nil, pure_bind]
    rw [exec_bind_pure]
  rwa [hpasses, hworld] at hupdate

/-- The manifest of a library is loaded as it is on the disk. It lists functions that the last
finished update of the library has read, and under the name of each one with a valid signature there
is the document of an artifact of the library, which is loaded if its text is read as the value it was
written from. -/
theorem exists_manifest_of_reached (h : p.Reached xs w) (hapart : p.Apart w.current xs)
    (hunshared : p.Unshared w.current xs) (hl : l ∈ p.libraries) {bytes : ByteArray}
    (hbytes : w.Holds (p.manifestPath l) bytes) :
    ∃ m ns x, exec ((p.store l).loadManifest l.name : InWorld Manifest) w = (.ok m, w)
      ∧ bytes = m.toJson.render.toUTF8 ∧ m.functions = strings ns
      ∧ xs.find? (Pass.finishes l) = some x
      ∧ ∀ n ∈ ns, n ∈ x.names
        ∧ ∀ f ∈ x.inputs.functions, f.name = n → (∃ s, f.signature = .ok s) →
          ∃ a : Artifact, a.library = l.name
            ∧ w.readText (p.artifactPath l n) = .ok (.ok a.record.toJson.render)
            ∧ (Json.parse a.record.toJson.render = .ok a.record.toJson →
              exec ((p.store l).load n : InWorld (Option ArtifactRecord)) w = (.ok (some a.record), w))
    := by
  have haccounted := h.accounted hapart
  obtain ⟨hreadable, m, ns, x, hentered, rfl⟩ := haccounted.manifests l hl bytes hbytes
  have hload := DocumentStore.exec_loadManifest_of_written (D := p.documents l)
    (hreadable.bytesAt_of_holds hbytes) hentered.lists
  refine ⟨m, ns, x, hload, rfl, hentered.lists.functions, hentered.last, fun n hn =>
    ⟨(hentered.mem_iff n).1 hn, fun f hf hname hs => ?_⟩⟩
  subst hname
  have hx : x ∈ xs := List.mem_of_find?_eq_some hentered.last
  obtain rfl : x.library = l := Pass.library_of_finishes (List.find?_some hentered.last)
  have hmem : f.name ∈ x.names := List.mem_map_of_mem hf
  obtain ⟨file, hfile⟩ := hentered.held f hf hs
  rcases haccounted.documents _ (.artifact hl f.name) file (World.holds_of_bytesAt_eq_ok hfile) with
    ⟨y, hy, hcontext, g, -, hinputs, hg, hplace, rfl⟩ | ⟨l', hl', hplace⟩
  · have hlibrary : g.artifact.library = x.library.name := by
      have hname := hunshared x hx y hy f.name hmem g.function.name (List.mem_map_of_mem hg) hplace
      rw [hname, ← hcontext, ← hinputs]
      rfl
    refine ⟨g.artifact, hlibrary, World.readText_of_written hfile, fun hparse => ?_⟩
    exact DocumentStore.exec_read_of_written "artifact" hfile hparse g.artifact.ofJson_toJson_record
  · exact absurd hplace (hapart.artifacts x hx f.name hmem l' hl')

end Project

namespace SharedDirectory

open Project

/-! ## Two libraries with one directory -/

def first : Library := { name := "A", file := "a.hlsl" }

def second : Library := { name := "B", file := "b.hlsl" }

def project : Project := { root := .fileSystem, libraries := [first, second] }

/-- A world with a source. -/
def withSource (w : World) (name text : String) : World :=
  w.onDisk (w.disk.put [name] (.file text.toUTF8))

/-- A world after an update of a library. -/
def updated (w : World) (l : Library) : World :=
  (exec (l.update project (project.store l) : InWorld UpdateReport) w).2

variable {xs : List Pass} {w : World}

theorem reached_empty : project.Reached [] {} := by
  refine .start fun path _ bytes hbytes => ?_
  unfold World.Holds MemoryDisk.lookup at hbytes
  split_ifs at hbytes <;> cases hbytes

theorem reached_withSource (h : project.Reached xs w) {name : String} (text : String)
    (hlookup : w.disk.lookup [name] = none) (hname : name.toList.getLast? ≠ some 'n') :
    project.Reached xs (withSource w name text) := by
  refine h.edit (World.renews_put ?_ fun path hpath => hpath.of_project.placeFrom_ne _ hname)
  rw [hlookup]
  nofun

theorem reached_updated (h : project.Reached xs w) {l : Library} (hl : project.library l.name = .ok l) :
    project.Reached (project.pass l w ++ xs) (updated w l) :=
  h.update_library hl

theorem current_updated (w : World) (l : Library) : (updated w l).current = w.current :=
  (project.documents l).keeps_current_update l project w

def libraryNames (x : Pass) : Library × List String := (x.library, x.names)

theorem apart {names : List (Library × List String)} (h : xs.map libraryNames = names)
    (hnames : ∀ e ∈ names, e.1 ∈ project.libraries ∧ ∀ n ∈ e.2, n ∈ ["Foo", "Bar"]) :
    project.Apart .fileSystem xs := by
  have hplaces : (∀ l ∈ project.libraries, ∀ l' ∈ project.libraries,
      DiskPath.fileSystem.placeFrom (project.manifestPath l)
        = DiskPath.fileSystem.placeFrom (project.manifestPath l') → l = l')
      ∧ ∀ l ∈ project.libraries, ∀ n ∈ ["Foo", "Bar"], ∀ l' ∈ project.libraries,
        DiskPath.fileSystem.placeFrom (project.artifactPath l n)
          ≠ DiskPath.fileSystem.placeFrom (project.manifestPath l') := by
    decide +kernel
  refine ⟨hplaces.1, fun x hx n hn => ?_⟩
  obtain ⟨hl, hx⟩ := hnames (libraryNames x) (h ▸ List.mem_map_of_mem hx)
  exact hplaces.2 x.library hl n (hx n hn)

/-! ### Functions with different names -/

def start : World := withSource {} "a.hlsl" "void Foo() \x7b a(); \x7d"

def edited : World := withSource (updated start first) "b.hlsl" "void Bar() \x7b b(); \x7d"

def passes : List Pass := project.pass second edited ++ (project.pass first start ++ [])

theorem evaluated : passes.map libraryNames = [(second, ["Bar"]), (first, ["Foo"])]
    ∧ (updated edited second).current = .fileSystem
    ∧ ((updated start first).disk.lookup ["b.hlsl"]).isNone = true
    ∧ ((updated edited second).bytesAt (project.manifestPath first)).isOk = true := by
  decide +kernel

theorem reached : project.Reached passes (updated edited second) := by
  obtain ⟨-, -, hmissing, -⟩ := evaluated
  have hstart : project.Reached [] start := reached_withSource reached_empty _ rfl (by decide)
  have hfirst := reached_updated hstart (l := first) rfl
  have hedited : project.Reached _ edited :=
    reached_withSource hfirst _ (Option.isNone_iff_eq_none.1 hmissing) (by decide)
  exact reached_updated hedited (l := second) rfl

theorem unshared {names : List (Library × List String)} (h : xs.map libraryNames = names)
    (hnames : ∀ e ∈ names, ∀ e' ∈ names, ∀ n ∈ e.2, ∀ n' ∈ e'.2,
      DiskPath.fileSystem.placeFrom (project.artifactPath e.1 n)
          = DiskPath.fileSystem.placeFrom (project.artifactPath e'.1 n') → e.1.name = e'.1.name) :
    project.Unshared .fileSystem xs := fun x hx y hy =>
  hnames (libraryNames x) (h ▸ List.mem_map_of_mem hx) (libraryNames y) (h ▸ List.mem_map_of_mem hy)

theorem exists_manifest_of_two_libraries :
    ∃ m ns x, exec ((project.store first).loadManifest first.name : InWorld Manifest)
          (updated edited second) = (.ok m, updated edited second)
      ∧ m.functions = strings ns ∧ passes.find? (Pass.finishes first) = some x
      ∧ ∀ n ∈ ns, n ∈ x.names
        ∧ ∀ f ∈ x.inputs.functions, f.name = n → (∃ s, f.signature = .ok s) →
          ∃ a : Artifact, a.library = first.name
            ∧ (updated edited second).readText (project.artifactPath first n)
              = .ok (.ok a.record.toJson.render) := by
  obtain ⟨hnames, hcurrent, -, hmanifest⟩ := evaluated
  obtain ⟨bytes, hbytes⟩ : (updated edited second).Readable (project.manifestPath first) := by
    cases hread : (updated edited second).bytesAt (project.manifestPath first) with
    | ok bytes => exact ⟨bytes, hread⟩
    | error e =>
      rw [hread] at hmanifest
      cases hmanifest
  have hapart : project.Apart (updated edited second).current passes := by
    rw [hcurrent]
    exact apart hnames (by decide)
  have hunshared : project.Unshared (updated edited second).current passes := by
    rw [hcurrent]
    exact unshared hnames (by decide +kernel)
  obtain ⟨m, ns, x, hload, -, hns, hx, hheld⟩ := exists_manifest_of_reached reached hapart hunshared
    List.mem_cons_self (World.holds_of_bytesAt_eq_ok hbytes)
  refine ⟨m, ns, x, hload, hns, hx, fun n hn => ⟨(hheld n hn).1, fun f hf hname hs => ?_⟩⟩
  obtain ⟨a, ha, htext, -⟩ := (hheld n hn).2 f hf hname hs
  exact ⟨a, ha, htext⟩

/-! ### Functions with one name -/

def contested : World :=
  withSource (withSource {} "a.hlsl" "void Foo() \x7b a(); \x7d") "b.hlsl" "void Foo() \x7b b(); \x7d"

def foo : ShaderFunction := ⟨0, "", "void", "Foo", [], " a(); "⟩

def twin : ShaderFunction := ⟨0, "", "void", "Foo", [], " b(); "⟩

/-- What the first library generates. Without pins it has no identifiers. -/
def artifact : Artifact :=
  match LawfulStore.inputsAt first project contested with
  | some u => .withIdentifiers foo {} (u.tag foo) u.context {} none
  | none => default

/-- Loading it, whatever is asked for. -/
def held (_ : String) : InWorld (Option ArtifactRecord) := pure (some artifact.record)

theorem evaluated_contested :
    (LawfulStore.inputsAt first project contested).map (·.functions) = some [foo]
      ∧ (exec (first.update project (project.store first) : InWorld UpdateReport) contested).1.isOk
        = true
      ∧ (LawfulStore.inputsAt second project (updated contested first)).map (·.functions) = some [twin]
      ∧ (exec (second.update project { project.store second with load := held } : InWorld UpdateReport)
          (updated contested first)).1.isOk = true
      ∧ artifact.record.toJson.isPlain 0 = true
      ∧ (updated contested first).current = .fileSystem
      ∧ foo.signature = .ok {} ∧ twin.signature = .ok {}
      ∧ TexCoordinate.highest foo.body = .ok none := by
  decide +kernel

theorem signature_foo : foo.signature = .ok {} ∧ twin.signature = .ok {}
    ∧ TexCoordinate.highest foo.body = .ok none :=
  evaluated_contested.2.2.2.2.2.2

theorem artifact_eq {g : Generation} (hg : g.Sound) (hf : g.function = foo)
    (hu : LawfulStore.inputsAt first project contested = some g.inputs) : g.artifact = artifact := by
  obtain ⟨hsignature, -, hnumeral⟩ := signature_foo
  obtain ⟨u, f, s, t, n⟩ := g
  obtain rfl : f = foo := hf
  obtain rfl : s = {} := Except.ok.inj (hg.signature.symm.trans hsignature)
  obtain rfl : n = none := Except.ok.inj (hg.texCoordinate.symm.trans hnumeral)
  have hempty : ∀ r, t.ofRole r = [] := fun r =>
    List.eq_nil_iff_forall_not_mem.2 fun e he => by
      have hpin := hg.named.only r e.1 (List.mem_map_of_mem he)
      cases hpin
  obtain rfl : t = {} := by
    obtain ⟨inputs, outputs, parameters⟩ := t
    have hinputs : inputs = [] := hempty .input
    have houtputs : outputs = [] := hempty .output
    have hparameters : parameters = [] := hempty .parameter
    rw [hinputs, houtputs, hparameters]
  rw [artifact, hu]
  rfl

section

variable {u v : UpdateInputs} (hu : LawfulStore.inputsAt first project contested = some u)
  (hv : LawfulStore.inputsAt second project (updated contested first) = some v)

include hu in
theorem reached_first : project.Reached [⟨first, u, true⟩] (updated contested first) := by
  have hpass : project.pass first contested = [⟨first, u, true⟩] := by
    unfold Project.pass
    rw [hu, evaluated_contested.2.1]
  have hcontested : project.Reached [] contested :=
    reached_withSource (reached_withSource reached_empty _ rfl (by decide)) _ rfl (by decide)
  have hreached := reached_updated hcontested (l := first) rfl
  rwa [hpass] at hreached

include hu in
theorem functions_first : u.functions = [foo] := by
  have hfoo := evaluated_contested.1
  rw [hu] at hfoo
  exact Option.some.inj hfoo

include hu in
theorem accounted_first : project.Accounted [⟨first, u, true⟩] (updated contested first) := by
  have hnames : [(⟨first, u, true⟩ : Pass)].map libraryNames = [(first, ["Foo"])] := by
    simp [libraryNames, Pass.names, functions_first hu, foo]
  refine (reached_first hu).accounted ?_
  rw [evaluated_contested.2.2.2.2.2.1]
  exact apart hnames (by decide)

include hu in
/-- What the first library has generated is on the disk. -/
theorem bytesAt_artifact : (updated contested first).bytesAt (project.artifactPath first foo.name)
    = .ok artifact.record.toJson.render.toUTF8 := by
  have haccounted := accounted_first hu
  have hmem : foo ∈ u.functions := functions_first hu ▸ List.mem_cons_self
  have hlast : [(⟨first, u, true⟩ : Pass)].find? (Pass.finishes first) = some ⟨first, u, true⟩ :=
    List.find?_cons_of_pos (Pass.finishes_self first u)
  obtain ⟨m, ns, -, hentered⟩ := haccounted.exists_entered List.mem_cons_self hlast hmem
  obtain ⟨bytes, hbytes⟩ := hentered.held foo hmem ⟨_, signature_foo.1⟩
  have horigin := haccounted.documents _ (.artifact List.mem_cons_self foo.name) bytes
    (World.holds_of_bytesAt_eq_ok hbytes)
  rcases horigin with ⟨x, hx, -, g, hg, hinputs, hfunction, -, rfl⟩ | ⟨l, hl, hplace⟩
  · obtain rfl := List.mem_singleton.1 hx
    have hf : g.function = foo := List.mem_singleton.1 (functions_first hu ▸ hfunction)
    rw [hbytes, artifact_eq hg hf (hinputs ▸ hu)]
  · rw [evaluated_contested.2.2.2.2.2.1] at hplace
    revert l
    decide +kernel

include hu hv in
/-- The second library finds that artifact and goes on to its end. -/
theorem reached_second :
    project.Reached [⟨second, v, true⟩, ⟨first, u, true⟩] (updated (updated contested first) second) := by
  obtain ⟨-, -, htwin, hsecond, hplain, -⟩ := evaluated_contested
  rw [hv] at htwin
  have hload : ∀ t : World, t.ground = (updated contested first).ground →
      exec ((project.store second).load twin.name) t = exec (held twin.name) t := by
    intro t ht
    have hbytes := (World.bytesAt_congr ht _).trans (bytesAt_artifact hu)
    have hread := DocumentStore.exec_read_of_written "artifact" hbytes (parse_render hplain)
      artifact.ofJson_toJson_record
    have hpath : project.artifactPath first foo.name = project.artifactPath second twin.name := by
      decide +kernel
    have hheld : exec (held twin.name) t = (.ok (some artifact.record), t) := exec_pure _ _
    rw [hheld, ← hread, hpath]
    rfl
  have hsame : exec (second.update project (project.store second)) (updated contested first)
      = exec (second.update project { project.store second with load := held })
        (updated contested first) :=
    DocumentStore.exec_update_congr hv (Option.some.inj htwin)
      ((project.documents second).keeps_ground_loadManifest _) hload
  have hpass : project.pass second (updated contested first) = [⟨second, v, true⟩] := by
    unfold Project.pass
    rw [hv, hsame, hsecond]
  have hreached := reached_updated (reached_first hu) (l := second) rfl
  rwa [hpass] at hreached

include hu hv in
theorem accounted_second :
    project.Accounted [⟨second, v, true⟩, ⟨first, u, true⟩] (updated (updated contested first) second) := by
  have htwin := evaluated_contested.2.2.1
  rw [hv] at htwin
  have hnames : [(⟨second, v, true⟩ : Pass), ⟨first, u, true⟩].map libraryNames
      = [(second, ["Foo"]), (first, ["Foo"])] := by
    simp [libraryNames, Pass.names, functions_first hu, Option.some.inj htwin, foo, twin]
  refine (reached_second hu hv).accounted ?_
  rw [current_updated, evaluated_contested.2.2.2.2.2.1]
  exact apart hnames (by decide)

end

/-- Two libraries list a function of one name in one directory, and one of them finds the artifact of
the other. -/
theorem entry_of_other_library : ¬ ∀ (p : Project) (xs : List Pass) (w : World), p.Reached xs w →
    ∀ l ∈ p.libraries, ∀ m ns,
      exec ((p.store l).loadManifest l.name : InWorld Manifest) w = (.ok m, w) →
      m.functions = strings ns → ∀ n ∈ ns,
        ∃ a, exec ((p.store l).load n : InWorld (Option ArtifactRecord)) w = (.ok (some a), w)
          ∧ a.library = .string l.name := by
  intro hclaim
  obtain ⟨u, hu, hfoo⟩ := Option.map_eq_some_iff.1 evaluated_contested.1
  obtain ⟨v, hv, htwin⟩ := Option.map_eq_some_iff.1 evaluated_contested.2.2.1
  obtain ⟨w, hreached, haccounted⟩ : ∃ w : World,
      project.Reached [⟨second, v, true⟩, ⟨first, u, true⟩] w
        ∧ project.Accounted [⟨second, v, true⟩, ⟨first, u, true⟩] w :=
    ⟨_, reached_second hu hv, accounted_second hu hv⟩
  have hentry : ∀ l ∈ project.libraries, ∀ x : Pass, ∀ f ∈ x.inputs.functions, f.name = "Foo" →
      [(⟨second, v, true⟩ : Pass), ⟨first, u, true⟩].find? (Pass.finishes l) = some x →
        ∃ a, exec ((project.store l).load "Foo" : InWorld (Option ArtifactRecord)) w
            = (.ok (some a), w) ∧ a.library = .string l.name := by
    intro l hl x f hf hname hx
    obtain ⟨m, ns, hload, hns, hn⟩ := haccounted.exists_manifest hl hx hf
    exact hclaim project _ w hreached l hl m ns hload hns "Foo" (hname ▸ hn)
  have hne : second ≠ first := by decide
  have hother : (⟨second, v, true⟩ : Pass).finishes first = false := Pass.finishes_of_ne hne
  obtain ⟨a, ha, hfirst⟩ := hentry first List.mem_cons_self ⟨first, u, true⟩ foo
    (hfoo ▸ List.mem_cons_self) rfl (by
      rw [List.find?_cons, hother]
      exact List.find?_cons_of_pos (Pass.finishes_self first u))
  obtain ⟨b, hb, hsecond⟩ := hentry second (List.mem_cons_of_mem _ List.mem_cons_self) ⟨second, v, true⟩
    twin (htwin ▸ List.mem_cons_self) rfl (List.find?_cons_of_pos (Pass.finishes_self second v))
  -- both libraries have the same store
  have hdirectory : project.outputDirectory second = project.outputDirectory first := by decide
  have hstore : project.store (m := InWorld) second = project.store first := by
    unfold Project.store
    rw [hdirectory]
  rw [hstore] at hb
  obtain rfl : a = b := Option.some.inj (Except.ok.inj (Prod.mk.inj (ha.symm.trans hb)).1)
  exact absurd (string.inj (hfirst.symm.trans hsecond)) (by decide)

end SharedDirectory

end ShaderGraph
