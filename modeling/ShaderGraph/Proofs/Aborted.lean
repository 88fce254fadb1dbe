import ShaderGraph.Proofs.Damaged
import ShaderGraph.Proofs.Held
import ShaderGraph.Proofs.Stopped

/-!
# Updates that documents stop

A document that stops its reader stops every update that comes to it. An update whose documents can be
used, or count as missing, ends in no fault that is about a document (`DocumentStore.faults_iff_stops`).
-/

namespace ShaderGraph

open Json Routine

/-- Whether a fault is about what is in a document. -/
def Fault.IsOfDocument : Fault → Prop
  | .json _ => True
  | .document _ => True
  | .file (.undecodable _) => True
  | _ => False

namespace InWorld

variable {α β : Type} {x : InWorld α} {f : α → InWorld β} {w : World}

/-- Whether a program that is run in a world ends in no fault that is about what is in a document. -/
def Spared (x : InWorld α) (w : World) : Prop := ∀ e, (exec x w).1 = .error e → ¬e.IsOfDocument

theorem spared_of_ok {a : α} (h : (exec x w).1 = .ok a) : Spared x w := fun e he => by
  cases h.symm.trans he

theorem spared_bind (hx : Spared x w) (hf : ∀ a t, exec x w = (.ok a, t) → Spared (f a) t) :
    Spared (x >>= f) w := by
  refine exec_bind_cases (Q := fun res _ => ∀ e, res = .error e → ¬e.IsOfDocument) (fun e t h => ?_) hf
  rintro e' he'
  cases he'
  exact hx e (congrArg Prod.fst h)

theorem spared_orFault_bind {ε : Type} {fault : ε → Fault} {r : Except ε α}
    (herror : ∀ e, r = .error e → ¬(fault e).IsOfDocument) (hok : ∀ a, r = .ok a → Spared (f a) w) :
    Spared (orFault fault r >>= f) w := by
  cases r with
  | ok a => exact hok a rfl
  | error e =>
    intro e' he'
    cases he'
    exact herror e rfl

theorem spared_isThere (w : World) (p : DiskPath) : Spared (Disk.isThere p : InWorld Bool) w := by
  intro e he
  rw [exec_isThere] at he
  cases hholds : w.disk.holds (w.current.join p) fun _ => true <;> rw [hholds] at he <;> cases he
  exact id

theorem spared_change (f : MemoryDisk → Except DiskError MemoryDisk) (w : World) :
    Spared (change f) w := by
  intro e he
  unfold change at he
  rw [exec_getThe_bind] at he
  cases hf : f w.disk <;> rw [hf] at he <;> cases he
  exact id

theorem spared_makeDirectory (w : World) (p : DiskPath) :
    Spared (Disk.makeDirectory p : InWorld Unit) w := by
  intro e he
  unfold Disk.makeDirectory instDiskInWorld at he
  simp only [exec_getThe_bind] at he
  rcases hmade : w.disk.makeAll (w.current.join p).names.reverse with ⟨d, e' | ⟨⟩⟩ <;>
    rw [hmade] at he <;> cases he
  exact id

end InWorld

/-- A manifest that lists values without parts. -/
def Manifest.IsUsable (m : Manifest) : Prop :=
  ∃ items, m.functions = .array items ∧ items.all isFixed = true

/-- A record whose header can be searched and whose identifiers are tables. -/
def ArtifactRecord.IsUsable (a : ArtifactRecord) : Prop :=
  IsRead a.comment.elements ∧ IsRead a.identifiers.table

theorem Json.exists_includes {j : Json} (h : IsRead j.elements) (s : String) :
    ∃ b, j.includes s = .ok b := by
  obtain ⟨parts, hparts⟩ := h
  unfold elements elements? at hparts
  cases j <;> simp [includes] at hparts ⊢

theorem ArtifactRecord.exists_isCurrent {earlier : Option ArtifactRecord}
    (h : ∀ a, earlier = some a → a.IsUsable) (tag : String) : ∃ b, isCurrent earlier tag = .ok b := by
  cases earlier with
  | none => exact ⟨false, rfl⟩
  | some a => exact Json.exists_includes (h a rfl).1 tag

theorem ArtifactRecord.exists_tables {earlier : Option ArtifactRecord}
    (h : ∀ a, earlier = some a → a.IsUsable) :
    ∃ i, (earlier.mapM fun a => a.identifiers.table) = .ok i := by
  cases earlier with
  | none => exact ⟨none, rfl⟩
  | some a =>
    obtain ⟨i, hi⟩ := (h a rfl).2
    refine ⟨some i, ?_⟩
    change some <$> a.identifiers.table = .ok (some i)
    rw [hi]
    rfl

theorem Progress.exists_register {p : Progress} (h : p.manifest.IsUsable) (name : String) :
    ∃ q, p.register name = .ok q ∧ q.manifest.IsUsable := by
  obtain ⟨items, hitems, hfixed⟩ := h
  unfold register Manifest.add?
  rw [hitems]
  simp only [includes, ok_bind]
  split_ifs
  · exact ⟨p, rfl, items, hitems, hfixed⟩
  · refine ⟨_, rfl, items ++ [.string name], rfl, ?_⟩
    rw [List.all_append, hfixed]
    rfl

theorem Progress.exists_removeOthers {p : Progress} (h : p.manifest.IsUsable) (names : List String) :
    ∃ q, p.removeOthers names = .ok q := by
  obtain ⟨items, hitems, hfixed⟩ := h
  unfold removeOthers Manifest.others
  rw [hitems]
  simp only [elements, elements?, ok_bind, hfixed, if_true]
  cases items.filter fun f => !Manifest.isAmong names f <;> exact ⟨_, rfl⟩

namespace DocumentStore

open InWorld

variable {α : Type} {decoder : Json → Except DocumentError α} {breaks : Json → Prop} {kind : String}
  {path : DiskPath} {bytes : ByteArray} {D : DocumentStore} {w t : World} {name library : String}

/-! ## Documents that stop an update -/

/-- Before its turn, the document of a function stays as it is, unless a function with a document in the
same place comes first. -/
theorem Turned.bytesAt {u : UpdateInputs} {fs : List ShaderFunction} {β : Type} {res : Except Fault β}
    (h : Turned D u fs w res t)
    (hfirst : ∀ g ∈ fs, w.current.placeFrom (D.artifactPath (.string g.name))
      ≠ w.current.placeFrom (D.artifactPath (.string name)))
    (hbytes : w.bytesAt (D.artifactPath (.string name)) = .ok bytes) :
    t.bytesAt (D.artifactPath (.string name)) = .ok bytes := by
  have hdocument := D.isDocument_artifactPath (.string name)
  obtain ⟨bytes', hbytes'⟩ := h.renews.stays _ hdocument ⟨bytes, hbytes⟩
  rcases h.renews.new _ hdocument bytes' (World.holds_of_bytesAt_eq_ok hbytes') with hheld | hmade
  · rwa [hheld.unique (World.holds_of_bytesAt_eq_ok hbytes)] at hbytes'
  · obtain ⟨g, -, -, hg, hplace, -⟩ := hmade
    exact absurd hplace.symm (hfirst g.function hg)

/-- Whether a document stops the update of a library: its manifest stops its reader, or the artifact of a
function does that is not preceded by a function with a document in the same place. -/
def StopsUpdate (D : DocumentStore) (library : String) (u : UpdateInputs) (w : World) : Prop :=
  (∃ bytes, w.bytesAt (D.manifestPath (.string library)) = .ok bytes ∧ Stops (fun _ => False) bytes)
    ∨ ∃ before f after bytes, u.functions = before ++ f :: after
      ∧ (∀ g ∈ before, w.current.placeFrom (D.artifactPath (.string g.name))
        ≠ w.current.placeFrom (D.artifactPath (.string f.name)))
      ∧ w.bytesAt (D.artifactPath (.string f.name)) = .ok bytes ∧ Stops ArtifactRecord.Breaks bytes

/-- The update of a library ends in a fault if its manifest or the artifact of one of its functions stops
its reader. -/
theorem faults_updateFunctions (D : DocumentStore) (u : UpdateInputs) (source : String) (r : UpdateReport)
    (h : D.StopsUpdate r.library u w) :
    Faults (updateFunctions (m := InWorld) D.store u source r) w := by
  unfold updateFunctions
  rcases h with ⟨bytes, hbytes, hstops⟩ | ⟨before, f, after, bytes, hfs, hfirst, hbytes, hstops⟩
  · rcases loadManifest_cases hbytes with ⟨-, e, he⟩ | ⟨hnot, -⟩
    · exact faults_bind_left ⟨e, congrArg Prod.fst he⟩
    · exact absurd hstops hnot
  · refine faults_bind fun m w1 hm => faults_bind_left ?_
    have hw1 : w1.ground = w.ground := by
      have hkeeps := D.keeps_ground_loadManifest r.library w
      change exec (D.loadManifest r.library) w = _ at hm
      rwa [hm] at hkeeps
    rw [hfs, List.foldlM_append]
    refine faults_bind fun q w2 hq => ?_
    have hturned := turned_foldlM D u source before (.start r m u.context.sourceFile) w1
    rw [hq] at hturned
    have hbytes2 : w2.bytesAt (D.artifactPath (.string f.name)) = .ok bytes :=
      (hturned.of_ground_eq hw1).bytesAt hfirst hbytes
    rw [List.foldlM_cons]
    refine faults_bind_left ?_
    unfold updateFunction
    cases q.register f.name with
    | error e => exact ⟨.document e, rfl⟩
    | ok q' =>
      change Faults (D.store.load f.name >>= _) w2
      exact faults_bind_left ((faults_load_iff hbytes2).2 hstops)

theorem faults_update {l : Library} {p : Project} {u : UpdateInputs}
    (hu : LawfulStore.inputsAt l p w = some u) (h : D.StopsUpdate l.name u w) :
    Faults (l.update p D.store) w := by
  obtain ⟨includes, v, hgather, heq⟩ := LawfulStore.exists_update_eq hu
  have hground := (InWorld.undisturbed_ground.keeps_gather l p).of_exec hgather
  unfold Faults
  rw [heq]
  refine faults_updateFunctions D u _ _ ?_
  unfold StopsUpdate at h ⊢
  rw [(Prod.mk.inj hground).2]
  simp only [World.bytesAt_congr hground]
  exact h

/-! ## Documents that stop none -/

theorem spared_write (path : DiskPath) (j : Json) (w : World) :
    Spared (write path j : InWorld Unit) w := by
  unfold write
  refine spared_bind (spared_makeDirectory w _) fun _ t _ => spared_bind ?_ fun _ v _ => ?_
  · intro e he
    rw [exec_writeText] at he
    exact spared_change _ _ e he
  · intro e he
    rw [exec_rename] at he
    exact spared_change _ _ e he

theorem spared_read (hbreaks : ∀ j, IsBroken (decoder j) ↔ breaks j)
    (h : ∀ bytes, w.bytesAt path = .ok bytes → ¬Stops breaks bytes) :
    Spared (read kind decoder path : InWorld (Option α)) w := by
  cases hbytes : w.bytesAt path with
  | ok bytes =>
    rcases exec_read_cases kind hbreaks hbytes with ⟨hstops, -⟩ | ⟨-, found, t, hfound, -, -⟩
    · exact absurd hstops (h bytes hbytes)
    · exact spared_of_ok (congrArg Prod.fst hfound)
  | error e =>
    unfold read
    refine spared_bind (spared_isThere w path) fun b t hb => ?_
    obtain rfl : w = t := by
      rw [exec_isThere] at hb
      exact (Prod.mk.inj hb).2
    split_ifs
    · exact spared_of_ok rfl
    · intro e' he'
      rw [exec_bind, exec_readText, World.readText] at he'
      unfold World.bytesAt at hbytes
      rw [hbytes] at he'
      cases e <;> cases he' <;> exact id

/-- Whether a document lets an update go on: its bytes do not stop its reader, and what they carry can be
used. -/
def Serves (breaks : Json → Prop) (decoder : Json → Except DocumentError α) (usable : α → Prop)
    (path : DiskPath) (w : World) : Prop :=
  ∀ bytes, w.Holds path bytes → ¬Stops breaks bytes ∧ ∀ a, Carries decoder bytes a → usable a

def ServesManifest (D : DocumentStore) (library : String) (w : World) : Prop :=
  Serves (fun _ => False) Manifest.ofJson Manifest.IsUsable (D.manifestPath (.string library)) w

def ServesArtifact (D : DocumentStore) (name : String) (w : World) : Prop :=
  Serves ArtifactRecord.Breaks ArtifactRecord.ofJson ArtifactRecord.IsUsable (D.artifactPath (.string name)) w

/-- Whether the documents of functions do so, which are in different places. -/
structure ServesFunctions (D : DocumentStore) (fs : List ShaderFunction) (w : World) : Prop where
  artifacts : ∀ f ∈ fs, D.ServesArtifact f.name w
  apart : fs.Pairwise fun f g => w.current.placeFrom (D.artifactPath (.string f.name))
    ≠ w.current.placeFrom (D.artifactPath (.string g.name))

variable {usable : α → Prop}

theorem Serves.of_ground_eq (h : Serves breaks decoder usable path w) (ht : t.ground = w.ground) :
    Serves breaks decoder usable path t := by
  obtain ⟨hdisk, hcurrent⟩ := Prod.mk.inj ht
  intro bytes hbytes
  refine h bytes ?_
  rwa [World.Holds, ← hdisk, ← hcurrent]

theorem ServesFunctions.of_ground_eq {fs : List ShaderFunction} (h : D.ServesFunctions fs w)
    (ht : t.ground = w.ground) : D.ServesFunctions fs t where
  artifacts f hf := (h.artifacts f hf).of_ground_eq ht
  apart := (Prod.mk.inj ht).2 ▸ h.apart

theorem Serves.spared_read (h : Serves breaks decoder usable path w)
    (hbreaks : ∀ j, IsBroken (decoder j) ↔ breaks j) :
    Spared (read kind decoder path : InWorld (Option α)) w :=
  DocumentStore.spared_read hbreaks fun bytes hbytes => (h bytes (World.holds_of_bytesAt_eq_ok hbytes)).1

theorem Serves.isUsable {a : α} (h : Serves breaks decoder usable path w)
    (hbreaks : ∀ j, IsBroken (decoder j) ↔ breaks j)
    (hread : exec (read kind decoder path : InWorld (Option α)) w = (.ok (some a), t)) : usable a := by
  obtain ⟨bytes, hbytes⟩ := readable_of_read hread
  refine (h bytes (World.holds_of_bytesAt_eq_ok hbytes)).2 a ?_
  rcases exec_read_cases kind hbreaks hbytes with ⟨-, e, he⟩ | ⟨-, found, t', hfound, -, hcarries⟩
  · cases he.symm.trans hread
  · obtain rfl := Except.ok.inj (congrArg Prod.fst (hfound.symm.trans hread))
    exact (hcarries a).1 rfl

theorem ServesManifest.spared_load (h : D.ServesManifest library w) :
    Spared (D.loadManifest library : InWorld Manifest) w := by
  unfold loadManifest
  exact spared_bind (Serves.spared_read h isBroken_manifest_iff) fun _ _ _ => spared_of_ok rfl

theorem ServesManifest.isUsable {m : Manifest} (h : D.ServesManifest library w)
    (hload : exec (D.loadManifest library : InWorld Manifest) w = (.ok m, t)) : m.IsUsable := by
  unfold loadManifest at hload
  obtain ⟨found, v, hread, hm⟩ := exists_of_exec_bind hload
  cases found with
  | none =>
    cases hm
    exact ⟨[], rfl, rfl⟩
  | some m' =>
    cases hm
    exact Serves.isUsable h isBroken_manifest_iff hread

theorem spared_updateFunction (u : UpdateInputs) (source : String) {p : Progress} {f : ShaderFunction}
    (hp : p.manifest.IsUsable) (h : D.ServesArtifact f.name w) :
    Spared (updateFunction (m := InWorld) D.store u source p f) w := by
  have husable : ∀ {earlier v}, exec (D.store.load f.name : InWorld _) w = (.ok earlier, v) →
      ∀ a, earlier = some a → a.IsUsable := by
    rintro earlier v hload a rfl
    exact Serves.isUsable h (fun _ => ArtifactRecord.isBroken_ofJson) hload
  intro e he
  have hcourse := course_updateFunction (σ := World) D.store u source p f w
  rw [he] at hcourse
  generalize hres : Except.error e = res at hcourse
  generalize (exec (updateFunction (m := InWorld) D.store u source p f) w).2 = t at hcourse
  cases hcourse with
  | unlisted hnot =>
    obtain ⟨q, hq, -⟩ := Progress.exists_register hp f.name
    cases hq.symm.trans hnot
  | unloaded hload =>
    cases hres
    exact Serves.spared_read h (fun _ => ArtifactRecord.isBroken_ofJson) _ (congrArg Prod.fst hload)
  | uncompared hload hnot =>
    obtain ⟨b, hb⟩ := ArtifactRecord.exists_isCurrent (husable hload) (u.tag f)
    cases hb.symm.trans hnot
  | unidentified hload _ _ hnot =>
    obtain ⟨i, hi⟩ := ArtifactRecord.exists_tables (husable hload)
    cases hi.symm.trans hnot
  | undrawn hdrawn =>
    obtain ⟨-, -, -, -, hdraw⟩ := hdrawn
    cases hdraw
  | unsaved _ hsave =>
    cases hres
    exact spared_write _ _ _ _ (congrArg Prod.fst hsave)
  | unnumbered =>
    cases hres
    exact id
  | skipped _ _ _ hdone | failed _ _ _ _ _ hdone | updated _ _ _ hdone =>
    cases hdone
    cases hres

theorem yields_isUsable (u : UpdateInputs) (source : String) {p : Progress} (f : ShaderFunction)
    (hp : p.manifest.IsUsable) : Yields (updateFunction (m := InWorld) D.store u source p f)
      fun q => q.manifest.IsUsable := by
  intro v q hq
  obtain ⟨p', hp', hagrees⟩ := yields_registered D.store u source p f v q hq
  obtain ⟨p'', hp'', husable⟩ := Progress.exists_register hp f.name
  obtain rfl := Except.ok.inj (hp'.symm.trans hp'')
  exact hagrees.manifest ▸ husable

theorem yields_isUsable_foldlM (u : UpdateInputs) (source : String) :
    ∀ (fs : List ShaderFunction) {p : Progress}, p.manifest.IsUsable →
      Yields (fs.foldlM (updateFunction (m := InWorld) D.store u source) p) fun q => q.manifest.IsUsable
  | [], _, hp => yields_pure hp
  | f :: fs, _, hp => by
    rw [List.foldlM_cons]
    exact (yields_isUsable u source f hp).bind fun _ hq => yields_isUsable_foldlM u source fs hq

/-- After the turn of the first function the documents of the others serve as before. -/
theorem ServesFunctions.next {u : UpdateInputs} {f : ShaderFunction} {fs : List ShaderFunction} {β : Type}
    {res : Except Fault β} (h : D.ServesFunctions (f :: fs) w) (hturned : Turned D u [f] w res t) :
    D.ServesFunctions fs t := by
  have hapart := List.pairwise_cons.1 h.apart
  refine ⟨fun g hg bytes hbytes => ?_, hturned.renews.current ▸ hapart.2⟩
  refine (hturned.renews.new _ (D.isDocument_artifactPath _) bytes hbytes).elim
    (h.artifacts g (List.mem_cons_of_mem f hg) bytes) fun hmade => ?_
  obtain ⟨made, -, -, hmade, hplace, -⟩ := hmade
  rw [List.mem_singleton.1 hmade] at hplace
  exact absurd hplace.symm (hapart.1 g hg)

theorem spared_foldlM (u : UpdateInputs) (source : String) :
    ∀ {fs : List ShaderFunction} {p : Progress} {w : World}, p.manifest.IsUsable →
      D.ServesFunctions fs w → Spared (fs.foldlM (updateFunction (m := InWorld) D.store u source) p) w
  | [], _, _, _, _ => spared_of_ok rfl
  | f :: fs, p, w, hp, h => by
    have hturned := turned_updateFunction D u source p f w
    have hyields := yields_isUsable (D := D) u source f hp w
    rw [List.foldlM_cons]
    refine spared_bind (spared_updateFunction u source hp (h.artifacts f List.mem_cons_self))
      fun q t hq => ?_
    rw [hq] at hturned hyields
    exact spared_foldlM u source (hyields q rfl) (h.next hturned)

theorem spared_saveManifest (m : Manifest) (w : World) : Spared (D.saveManifest m : InWorld Unit) w := by
  unfold saveManifest
  exact spared_bind (spared_of_ok rfl) fun _ _ _ => spared_write _ _ _

theorem spared_updateFunctions {u : UpdateInputs} {source : String} {r : UpdateReport}
    (hmanifest : D.ServesManifest r.library w) (h : D.ServesFunctions u.functions w) :
    Spared (updateFunctions (m := InWorld) D.store u source r) w := by
  unfold updateFunctions
  refine spared_bind hmanifest.spared_load fun m v hload => ?_
  have hground := D.keeps_ground_loadManifest r.library w
  change exec (D.loadManifest r.library) w = _ at hload
  rw [hload] at hground
  have hm : m.IsUsable := hmanifest.isUsable hload
  have hyields := yields_isUsable_foldlM (D := D) u source u.functions
    (p := .start r m u.context.sourceFile) hm v
  refine spared_bind (spared_foldlM u source hm (h.of_ground_eq hground)) fun q t hq => ?_
  rw [hq] at hyields
  obtain ⟨q', hq'⟩ := Progress.exists_removeOthers (hyields q rfl) (u.functions.map (·.name))
  rw [hq']
  refine spared_orFault_bind (by simp) fun q'' _ => ?_
  split_ifs
  · exact spared_bind (spared_saveManifest _ _) fun _ _ _ => spared_of_ok rfl
  · exact spared_of_ok rfl

theorem spared_update {l : Library} {p : Project} {u : UpdateInputs}
    (hu : LawfulStore.inputsAt l p w = some u) (hmanifest : D.ServesManifest l.name w)
    (h : D.ServesFunctions u.functions w) : Spared (l.update p D.store) w := by
  obtain ⟨includes, v, hgather, heq⟩ := LawfulStore.exists_update_eq hu
  have hground := (InWorld.undisturbed_ground.keeps_gather l p).of_exec hgather
  unfold Spared
  rw [heq]
  exact spared_updateFunctions (Serves.of_ground_eq hmanifest hground) (h.of_ground_eq hground)

/-- Loading an artifact or a manifest ends in a fault if and only if the bytes of its document stop the
reader, and gives what they carry otherwise. What stops its reader stops the update of a library too;
if nothing does, and what the documents carry can be used, the update ends in no fault that is about a
document. -/
theorem faults_iff_stops (D : DocumentStore) (w : World) :
    (∀ name bytes, w.bytesAt (D.artifactPath (.string name)) = .ok bytes →
      (Faults (D.store.load name) w ↔ Stops ArtifactRecord.Breaks bytes)
        ∧ ∀ found, (exec (D.store.load name : InWorld _) w).1 = .ok found →
          ∀ a, found = some a ↔ Carries ArtifactRecord.ofJson bytes a)
    ∧ (∀ library bytes, w.bytesAt (D.manifestPath (.string library)) = .ok bytes →
      (Faults (D.store.loadManifest library) w ↔ Stops (fun _ => False) bytes)
        ∧ ∀ m, (exec (D.store.loadManifest library : InWorld _) w).1 = .ok m →
          Carries Manifest.ofJson bytes m
            ∨ (∀ m', ¬Carries Manifest.ofJson bytes m') ∧ m = { library := .string library })
    ∧ ∀ (l : Library) (p : Project) (u : UpdateInputs), LawfulStore.inputsAt l p w = some u →
      (D.StopsUpdate l.name u w → Faults (l.update p D.store) w)
        ∧ (D.ServesManifest l.name w → D.ServesFunctions u.functions w → Spared (l.update p D.store) w) := by
  refine ⟨fun name bytes h => ⟨faults_load_iff h, fun found => loaded_iff h⟩, fun library bytes h => ?_,
    fun l p u hu => ⟨faults_update hu, spared_update hu⟩⟩
  rcases loadManifest_cases h with ⟨hstops, e, he⟩ | ⟨hnot, m', hm', htold⟩
  · refine ⟨iff_of_true ⟨e, congrArg Prod.fst he⟩ hstops, fun m hm => ?_⟩
    cases (congrArg Prod.fst he).symm.trans hm
  · refine ⟨iff_of_false (not_faults_of_ok hm') hnot, fun m hm => ?_⟩
    obtain rfl := Except.ok.inj (hm'.symm.trans hm)
    exact htold

end DocumentStore

namespace BrokenTrees

open DocumentStore InWorld

/-! ### Trees that are no object -/

/-- The document of an artifact, but for its trees. -/
def document : Json := .object [("name", .string "Foo"), ("fingerprint", .string ""),
  ("comment", .string ""), ("output_trees", .array [])]

def store : DocumentStore := ⟨.ofString "/out", .ofString "/out"⟩

def library : Library := { name := "Lib", file := "lib.hlsl" }

def project : Project := { root := .fileSystem }

def function : ShaderFunction := ⟨0, "", "void", "Foo", [], " a(); "⟩

def inputs : UpdateInputs := library.inputs [function] [] [] []

/-- The manifest is no object either, but counts as missing. -/
def world : World where
  disk := ⟨[(["lib.hlsl"], .file "void Foo() \x7b a(); \x7d".toUTF8), (["out"], .directory),
    (["Foo.json", "out"], .file document.render.toUTF8),
    (["Lib.library.json", "out"], .file (Json.array []).render.toUTF8)]⟩

theorem bytesAt_document :
    world.bytesAt (store.artifactPath (.string "Foo")) = .ok document.render.toUTF8
      ∧ world.bytesAt (store.manifestPath (.string "Lib")) = .ok (Json.array []).render.toUTF8 :=
  ⟨rfl, rfl⟩

theorem inputsAt_world : LawfulStore.inputsAt library project world = some inputs := by
  decide +kernel

theorem breaks_document : ArtifactRecord.Breaks document := by
  have htrees : document.memberOr "output_trees" (.object []) = .array [] := rfl
  refine ⟨⟨⟨_, rfl⟩, ⟨_, rfl⟩, ⟨_, rfl⟩⟩, ⟨_, rfl⟩, ⟨⟨_, rfl⟩, ⟨_, rfl⟩, ⟨_, rfl⟩⟩,
    .inr ⟨⟨_, rfl⟩, .inl ?_⟩⟩
  simp [htrees]

theorem stops_document : Stops ArtifactRecord.Breaks document.render.toUTF8 :=
  .value (textOf?_render document) (Json.parse_render (by decide)) breaks_document

theorem decode_manifest :
    decode Manifest.ofJson (Json.array []).render = .error (.content .mistyped) := by
  rw [decode, Json.parse_render (by decide)]
  rfl

theorem not_stops_manifest : ¬Stops (fun _ => False) (Json.array []).render.toUTF8 := by
  rw [stops_iff_of_text isBroken_manifest_iff (textOf?_render _), decode_manifest]
  rintro ⟨e, he, hfault⟩
  cases he
  cases hfault

theorem not_carries_manifest (m : Manifest) : ¬Carries Manifest.ofJson (Json.array []).render.toUTF8 m := by
  rintro ⟨text, j, htext, hread⟩
  obtain rfl := Option.some.inj ((textOf?_render _).symm.trans htext)
  cases decode_manifest.symm.trans (decode_eq_ok_iff.2 ⟨j, hread⟩)

/-- A store with the same manifests that has no artifact. -/
def elsewhere : DocumentStore := ⟨.ofString "/elsewhere", .ofString "/out"⟩

theorem serves_elsewhere :
    elsewhere.ServesManifest "Lib" world ∧ elsewhere.ServesFunctions inputs.functions world := by
  have hnone : world.disk.lookup (world.current.placeFrom (elsewhere.artifactPath (.string "Foo"))) = none :=
    rfl
  refine ⟨fun bytes hbytes => ?_, fun f hf bytes hbytes => ?_, List.pairwise_singleton _ _⟩
  · obtain rfl := hbytes.unique (World.holds_of_bytesAt_eq_ok bytesAt_document.2)
    exact ⟨not_stops_manifest, fun m hm => absurd hm (not_carries_manifest m)⟩
  · obtain rfl := List.mem_singleton.1 hf
    cases hnone.symm.trans hbytes

theorem faults_of_broken_trees : Faults (store.store.load "Foo") world
    ∧ (∀ m, (exec (store.store.loadManifest "Lib" : InWorld Manifest) world).1 = .ok m →
      m = { library := .string "Lib" })
    ∧ ¬Faults (store.store.loadManifest "Lib") world
    ∧ Faults (library.update project store.store) world
    ∧ Spared (library.update project elsewhere.store) world := by
  obtain ⟨hload, hmanifest, hupdate⟩ := faults_iff_stops store world
  obtain ⟨-, -, hupdate'⟩ := faults_iff_stops elsewhere world
  obtain ⟨hartifactBytes, hmanifestBytes⟩ := bytesAt_document
  obtain ⟨hiff, htold⟩ := hmanifest "Lib" _ hmanifestBytes
  refine ⟨(hload "Foo" _ hartifactBytes).1.2 stops_document, fun m hm => ?_,
    fun h => not_stops_manifest (hiff.1 h), ?_, ?_⟩
  · exact ((htold m hm).resolve_left (not_carries_manifest m)).2
  · refine (hupdate library project inputs inputsAt_world).1 (.inr ⟨[], function, [], _, rfl, ?_,
      hartifactBytes, stops_document⟩)
    simp
  · exact (hupdate' library project inputs inputsAt_world).2 serves_elsewhere.1 serves_elsewhere.2

theorem not_forall_loaded : ¬∀ (D : DocumentStore) (w : World),
    (∀ name bytes, w.bytesAt (D.artifactPath (.string name)) = .ok bytes →
      ∃ found, (exec (D.store.load name : InWorld (Option ArtifactRecord)) w).1 = .ok found)
    ∧ ∀ library bytes, w.bytesAt (D.manifestPath (.string library)) = .ok bytes →
      ∃ m, (exec (D.store.loadManifest library : InWorld Manifest) w).1 = .ok m := by
  intro hclaim
  obtain ⟨found, hfound⟩ := (hclaim store world).1 "Foo" _ bytesAt_document.1
  exact not_faults_of_ok hfound ((faults_load_iff bytesAt_document.1).2 stops_document)

end BrokenTrees

end ShaderGraph
