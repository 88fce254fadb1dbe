import ShaderGraph.Proofs.Along
import ShaderGraph.Proofs.Declarations
import ShaderGraph.Proofs.Manifest
import ShaderGraph.Proofs.Stored
import ShaderGraph.Update.Project

/-!
# Documents that an update holds

A document has a name that ends in `.json`, so that no draft takes the place of one. An update writes
documents of its own library only: artifacts of its functions and its manifest. What could be read
can be read after it, and what it does not write stays as it is. A function with a valid signature
has an artifact after its turn, whether it was generated or up to date.
-/

namespace ShaderGraph

open Json Routine Text

/-! ## Paths of documents -/

/-- A path that a document may have. -/
def DiskPath.IsDocument (p : DiskPath) : Prop := ∃ names name, p.names = names ++ [name ++ ".json"]

theorem exists_pieces_append {sep : Char} {bs : List Char} (hbs : sep ∉ bs) :
    ∀ as : List Char, ∃ ps q, pieces sep (as ++ bs) = ps ++ [q ++ bs]
  | [] => ⟨[], [], pieces_of_not_mem hbs⟩
  | a :: as => by
    obtain ⟨ps, q, hps⟩ := exists_pieces_append hbs as
    rw [List.cons_append, pieces, hps]
    split_ifs
    · exact ⟨[] :: ps, q, rfl⟩
    · cases ps with
      | nil => exact ⟨[], a :: q, rfl⟩
      | cons p ps => exact ⟨(a :: p) :: ps, q, rfl⟩

theorem DiskPath.isDocument_child (d : DiskPath) (name : String) :
    (d.child (name ++ ".json")).IsDocument := by
  have hjson : ".json".toList = ['.', 'j', 's', 'o', 'n'] := by decide
  have hslash : '/' ∉ ".json".toList := by decide
  obtain ⟨ps, q, hps⟩ := exists_pieces_append hslash name.toList
  have hkept : q ++ ".json".toList ≠ [] ∧ q ++ ".json".toList ≠ ['.'] := by
    rw [hjson]
    refine ⟨by simp, fun h => ?_⟩
    have hlength := congrArg List.length h
    simp at hlength
  have hnames : ∃ names, namesOf (name ++ ".json").toList = names ++ [String.ofList q ++ ".json"] := by
    refine ⟨(ps.filter fun n => n ≠ [] ∧ n ≠ ['.']).map String.ofList, ?_⟩
    rw [namesOf, String.toList_append, hps, List.filter_append, List.map_append]
    congr 1
    rw [List.filter_cons_of_pos (by simpa using hkept)]
    simp
  obtain ⟨names, hnames⟩ := hnames
  unfold child join
  split_ifs
  · exact ⟨names, String.ofList q, hnames⟩
  · exact ⟨d.names ++ names, String.ofList q, by
      rw [ofString, hnames, List.append_assoc]⟩

theorem DiskPath.walk_of_document (latest : List String) (name suffix : String)
    (hsuffix : 2 < suffix.length) : walk latest (name ++ suffix) = (name ++ suffix) :: latest := by
  refine if_neg fun h => ?_
  have hlength := congrArg String.length h
  rw [String.length_append] at hlength
  have htwo : "..".length = 2 := by decide
  omega

/-- The place of a document and that of its draft are beside each other. -/
theorem DiskPath.IsDocument.places {p : DiskPath} (hp : p.IsDocument) (current : DiskPath) :
    ∃ name above, current.placeFrom p = (name ++ ".json") :: above
      ∧ current.placeFrom p.draft = (name ++ ".json" ++ ".tmp") :: above := by
  obtain ⟨names, name, hnames⟩ := hp
  have hdraft : p.draft.names = names ++ [name ++ ".json" ++ ".tmp"] := by
    simp [draft, withName, DiskPath.name, hnames]
  have hanchor : p.draft.anchor = p.anchor := rfl
  have hjson : 2 < ".json".length ∧ 2 < ".tmp".length := by decide
  refine ⟨name, ((if p.isAbsolute then [] else current.names) ++ names).foldl walk [], ?_, ?_⟩
  · unfold placeFrom place join
    split_ifs <;>
      simp only [hnames, List.nil_append, List.foldl_append, List.foldl_cons, List.foldl_nil,
        walk_of_document _ _ _ hjson.1]
  · unfold placeFrom place join isAbsolute
    rw [hanchor]
    split_ifs <;>
      simp only [hdraft, List.nil_append, List.foldl_append, List.foldl_cons, List.foldl_nil,
        walk_of_document _ _ _ hjson.2]

/-- No document is in the place of a file whose name has another end. -/
theorem DiskPath.IsDocument.placeFrom_ne {p : DiskPath} (hp : p.IsDocument) (current : DiskPath)
    {name : String} {above : List String} (h : name.toList.getLast? ≠ some 'n') :
    current.placeFrom p ≠ name :: above := by
  obtain ⟨name', above', hplace, -⟩ := hp.places current
  rw [hplace]
  intro heq
  have hjson : ".json".toList = ['.', 'j', 's', 'o', 'n'] := by decide
  rw [← (List.cons.inj heq).1, String.toList_append, hjson] at h
  simp at h

theorem DiskPath.IsDocument.placeFrom_ne_draft {p q : DiskPath} (hp : p.IsDocument)
    (hq : q.IsDocument) (current : DiskPath) :
    current.placeFrom q ≠ current.placeFrom p.draft := by
  obtain ⟨name, above, -, hdraft⟩ := hp.places current
  have htmp : ".tmp".toList = ['.', 't', 'm', 'p'] := by decide
  rw [hdraft]
  refine hq.placeFrom_ne current ?_
  rw [String.toList_append, htmp]
  simp

theorem DocumentStore.isDocument_artifactPath (D : DocumentStore) (name : Json) :
    (D.artifactPath name).IsDocument :=
  D.artifacts.isDocument_child _

theorem DocumentStore.isDocument_manifestPath (D : DocumentStore) (library : Json) :
    (D.manifestPath library).IsDocument := by
  have hsuffix : nameText library ++ ".library.json" = nameText library ++ ".library" ++ ".json" := by
    rw [String.append_assoc]
    rfl
  rw [manifestPath, hsuffix]
  exact D.manifests.isDocument_child _

/-! ## What stays of documents -/

/-- The bytes of the file at the place of a path, whether or not the way there is open. -/
def World.Holds (w : World) (p : DiskPath) (bytes : ByteArray) : Prop :=
  w.disk.lookup (w.current.placeFrom p) = some (.file bytes)

theorem World.holds_congr {w : World} {p q : DiskPath}
    (h : w.current.placeFrom p = w.current.placeFrom q) (bytes : ByteArray) :
    w.Holds p bytes ↔ w.Holds q bytes := by
  rw [Holds, Holds, h]

theorem World.Holds.unique {w : World} {p : DiskPath} {bytes bytes' : ByteArray}
    (h : w.Holds p bytes) (h' : w.Holds p bytes') : bytes = bytes' :=
  Entry.file.inj (Option.some.inj (h.symm.trans h'))

theorem World.bytesAt_eq_ok_iff {w : World} {p : DiskPath} {bytes : ByteArray} :
    w.bytesAt p = .ok bytes
      ↔ w.disk.locate (w.current.join p) = .ok (w.current.placeFrom p) ∧ w.Holds p bytes :=
  MemoryDisk.read_eq_ok_iff

theorem World.holds_of_bytesAt_eq_ok {w : World} {p : DiskPath} {bytes : ByteArray}
    (h : w.bytesAt p = .ok bytes) : w.Holds p bytes :=
  (World.bytesAt_eq_ok_iff.1 h).2

/-- Whether something can be read where a path leads. -/
def World.Readable (w : World) (p : DiskPath) : Prop := ∃ bytes, w.bytesAt p = .ok bytes

/-- From one world to a later one: what can be read at some paths can still be read, and what is
there was there or is one of `Q`. -/
structure World.Renews (P : DiskPath → Prop) (w : World) (Q : DiskPath → ByteArray → Prop)
    (t : World) : Prop where
  current : t.current = w.current
  stays : ∀ p, P p → w.Readable p → t.Readable p
  new : ∀ p, P p → ∀ bytes, t.Holds p bytes → w.Holds p bytes ∨ Q p bytes

theorem World.Readable.bytesAt_of_holds {w : World} {p : DiskPath} {bytes : ByteArray}
    (h : w.Readable p) (hbytes : w.Holds p bytes) : w.bytesAt p = .ok bytes := by
  obtain ⟨bytes', hread⟩ := h
  rw [hbytes.unique (World.holds_of_bytesAt_eq_ok hread), hread]

namespace World.Renews

variable {P P' : DiskPath → Prop} {w t v : World} {Q Q' : DiskPath → ByteArray → Prop}

theorem trans (h : Renews P w Q t) (h' : Renews P t Q v) : Renews P w Q v where
  current := h'.current.trans h.current
  stays p hp hw := h'.stays p hp (h.stays p hp hw)
  new p hp bytes hv := (h'.new p hp bytes hv).elim (h.new p hp bytes) .inr

theorem mono (h : Renews P w Q t) (hP : ∀ p, P' p → P p) (hQ : ∀ p bytes, Q p bytes → Q' p bytes) :
    Renews P' w Q' t where
  current := h.current
  stays p hp := h.stays p (hP p hp)
  new p hp bytes ht := (h.new p (hP p hp) bytes ht).imp_right (hQ p bytes)

end World.Renews

/-- The part of a world that documents are in. -/
def World.ground (w : World) : MemoryDisk × DiskPath := (w.disk, w.current)

/-- A world in which nothing has been told. -/
def World.silenced (w : World) : World := { w with messages := [], diagnostics := [] }

theorem World.ground_of_silenced {w t : World} (h : t.silenced = w.silenced) :
    t.ground = w.ground := by
  have hground := congrArg World.ground h
  exact hground

theorem World.bytesAt_congr {w t : World} (h : t.ground = w.ground) (p : DiskPath) :
    t.bytesAt p = w.bytesAt p := by
  obtain ⟨hdisk, hcurrent⟩ := Prod.mk.inj h
  rw [bytesAt, bytesAt, hdisk, hcurrent]

theorem World.renews_of_ground_eq {P : DiskPath → Prop} {w t : World}
    {Q : DiskPath → ByteArray → Prop} (h : t.ground = w.ground) : Renews P w Q t := by
  obtain ⟨hdisk, hcurrent⟩ := Prod.mk.inj h
  refine ⟨hcurrent, fun p _ hw => ?_, fun p _ bytes ht => .inl ?_⟩
  · rwa [Readable, World.bytesAt_congr h]
  · rwa [Holds, ← hdisk, ← hcurrent]

/-- Another file may be written at a place that no document has. -/
theorem World.renews_put {P : DiskPath → Prop} {w : World} {place : List String}
    {bytes : ByteArray} (hplace : w.disk.lookup place ≠ some .directory)
    (hP : ∀ p, P p → w.current.placeFrom p ≠ place) :
    Renews P w (fun _ _ => False) (w.onDisk (w.disk.put place (.file bytes))) := by
  have hchanges : w.disk.ChangesAt [place] (w.disk.put place (.file bytes)) := by
    refine MemoryDisk.changesAt_of_lookup (MemoryDisk.keepsOpen_put fun h => absurd h hplace)
      fun other hother b => ?_
    rw [MemoryDisk.lookup_put_of_ne (by simpa using hother)]
  have hother : ∀ p, P p → w.current.placeFrom p ∉ [place] := fun p hp => by simpa using hP p hp
  exact ⟨rfl, fun p hp ⟨b, hb⟩ => ⟨b, hchanges.kept _ b hb (hother p hp)⟩,
    fun p hp b hb => .inl (hchanges.new _ b hb (hother p hp))⟩

/-- Writing a document renews it alone. -/
theorem Wrote.renews {path : DiskPath} {j : Json} {w t : World} {res : Except Fault Unit}
    (h : Wrote path j w res t) (hpath : path.IsDocument) :
    World.Renews DiskPath.IsDocument w (fun p bytes => w.current.placeFrom p = w.current.placeFrom path
      ∧ bytes = j.render.toUTF8 ∧ res = .ok ()) t := by
  obtain ⟨⟨d, rfl⟩, hchanges, hwritten, hunwritten⟩ := h
  have hdraft : ∀ p : DiskPath, p.IsDocument →
      w.current.placeFrom p ∉ [w.current.placeFrom path.draft] := fun p hp => by
    simpa using hpath.placeFrom_ne_draft hp w.current
  have hboth : ∀ p : DiskPath, p.IsDocument → w.current.placeFrom p ≠ w.current.placeFrom path →
      w.current.placeFrom p ∉ [w.current.placeFrom path.draft, w.current.placeFrom path] :=
    fun p hp hne => by simpa using ⟨hpath.placeFrom_ne_draft hp w.current, hne⟩
  refine ⟨rfl, fun p hp ⟨bytes, hbytes⟩ => ?_, fun p hp bytes hbytes => ?_⟩
  · by_cases hplace : w.current.placeFrom p = w.current.placeFrom path
    · cases res with
      | error e => exact ⟨bytes, (hunwritten e rfl).kept _ _ hbytes (hdraft p hp)⟩
      | ok _ =>
        obtain ⟨hlocate, hheld⟩ := World.bytesAt_eq_ok_iff.1 (hwritten rfl)
        refine ⟨_, World.bytesAt_eq_ok_iff.2
          ⟨?_, (World.holds_congr (w := w.onDisk d) hplace _).2 hheld⟩⟩
        exact hchanges.keepsOpen.locate (World.bytesAt_eq_ok_iff.1 hbytes).1
    · exact ⟨bytes, hchanges.kept _ _ hbytes (hboth p hp hplace)⟩
  · cases res with
    | error e => exact .inl ((hunwritten e rfl).new _ _ hbytes (hdraft p hp))
    | ok _ =>
      by_cases hplace : w.current.placeFrom p = w.current.placeFrom path
      · have hheld := World.holds_of_bytesAt_eq_ok (hwritten rfl)
        exact .inr ⟨hplace,
          hbytes.unique ((World.holds_congr (w := w.onDisk d) hplace _).2 hheld), rfl⟩
      · exact .inl (hchanges.new _ _ hbytes (hboth p hp hplace))

/-! ## What reading and logging leave -/

namespace InWorld

theorem undisturbed_silenced : Undisturbed World.silenced where
  current _ := rfl
  isFile p w := by
    change (exec (ask _ p) w).2.silenced = _
    rw [exec_ask]
  readText p w := by rw [exec_readText]
  pause _ := rfl
  log _ _ _ := rfl
  keep _ _ := rfl

theorem undisturbed_ground : Undisturbed World.ground := undisturbed_silenced.comp World.ground

theorem keeps_ground_draw {α : Type} (f : Supply → α × Supply) :
    Keeps World.ground (modifyGetThe Supply f : InWorld α) := fun _ => rfl

end InWorld

namespace DocumentStore

variable {α : Type} {decoder : Json → Except DocumentError α} {kind : String} {path : DiskPath}

theorem keeps_ground_read :
    Keeps World.ground (read kind decoder path : InWorld (Option α)) := by
  unfold read
  refine Keeps.bind (fun w => by rw [InWorld.exec_isThere]) fun b => ?_
  split_ifs
  · exact keeps_pure _
  · refine (InWorld.undisturbed_ground.readText path).bind fun text => ?_
    cases text with
    | error e => exact keeps_throw _
    | ok text =>
      simp only []
      cases decode decoder text with
      | ok a => exact keeps_pure _
      | error e =>
        simp only []
        cases e.fault? with
        | some fault => exact keeps_throw _
        | none => exact (InWorld.undisturbed_ground.log _ _).bind fun _ => keeps_pure _

theorem keeps_ground_load (D : DocumentStore) (name : String) :
    Keeps World.ground (D.store.load name : InWorld (Option ArtifactRecord)) :=
  keeps_ground_read

theorem readText_of_not_readable {w : World} (h : ¬w.Readable path) (text : String) :
    w.readText path ≠ .ok (.ok text) := by
  intro htext
  unfold World.readText at htext
  split at htext
  · cases htext
  · cases htext
  · rename_i bytes hbytes
    exact h ⟨bytes, hbytes⟩

/-- What is read of a document does not depend on what has been told. -/
theorem result_read_congr {w t : World} (h : t.silenced = w.silenced) :
    (exec (read kind decoder path : InWorld (Option α)) t).1
      = (exec (read kind decoder path : InWorld (Option α)) w).1 := by
  have hthere : (t.disk.holds (t.current.join path) fun _ => true).mapError t.fault
      = (w.disk.holds (w.current.join path) fun _ => true).mapError w.fault := by
    have hsame := congrArg
      (fun v : World => (v.disk.holds (v.current.join path) fun _ => true).mapError v.fault) h
    exact hsame
  have htext : t.readText path = w.readText path := by
    have hsame := congrArg (fun v : World => v.readText path) h
    exact hsame
  unfold read
  rw [exec_bind, exec_bind, InWorld.exec_isThere, InWorld.exec_isThere, hthere]
  rcases (w.disk.holds (w.current.join path) fun _ => true).mapError w.fault with e | b
  · rfl
  · simp only
    cases b with
    | false => rfl
    | true =>
      simp only [Bool.not_true, Bool.false_eq_true, ↓reduceIte]
      rw [exec_bind, exec_bind, InWorld.exec_readText, InWorld.exec_readText, htext]
      rcases w.readText path with e | e | text
      · rfl
      · rfl
      · simp only
        cases decode decoder text with
        | ok a => rfl
        | error e =>
          simp only
          cases e.fault? <;> rfl

/-- What was read of a document is in its text. -/
theorem decode_of_read {w t : World} {a : α}
    (h : exec (read kind decoder path : InWorld (Option α)) w = (.ok (some a), t)) :
    ∃ text, w.readText path = .ok (.ok text) ∧ decode decoder text = .ok a := by
  unfold read at h
  rw [exec_bind, InWorld.exec_isThere] at h
  split at h
  · rename_i b t' hthere
    obtain rfl := (Prod.mk.inj hthere).2
    cases b with
    | false => cases h
    | true =>
      simp only [Bool.not_true, Bool.false_eq_true, ↓reduceIte] at h
      rw [exec_bind, InWorld.exec_readText] at h
      split at h
      · rename_i text t' hread
        cases text with
        | error e => cases h
        | ok text =>
          simp only at h
          refine ⟨text, (Prod.mk.inj hread).1, ?_⟩
          cases hdecode : decode decoder text with
          | ok a' =>
            rw [hdecode] at h
            rw [Option.some.inj (Except.ok.inj (Prod.mk.inj h).1)]
          | error e =>
            rw [hdecode] at h
            cases hfault : e.fault? <;> simp only [hfault] at h <;> cases h
      · cases h
  · cases h

/-- A document that was read can be read. -/
theorem readable_of_read {w t : World} {a : α}
    (h : exec (read kind decoder path : InWorld (Option α)) w = (.ok (some a), t)) :
    w.Readable path := by
  by_contra hnot
  obtain ⟨text, htext, -⟩ := decode_of_read h
  exact readText_of_not_readable hnot text htext

/-! ## The turns of functions -/

/-- The document of what was generated of one of some functions, in its place. -/
def IsArtifact (D : DocumentStore) (current : DiskPath) (u : UpdateInputs) (fs : List ShaderFunction)
    (p : DiskPath) (bytes : ByteArray) : Prop :=
  ∃ g : Generation, g.Sound ∧ g.inputs = u ∧ g.function ∈ fs
    ∧ current.placeFrom p = current.placeFrom (D.artifactPath (.string g.function.name))
    ∧ bytes = g.artifact.record.toJson.render.toUTF8

/-- What the turns of functions do: only artifacts of them come, and once all have had their turn
those with a valid signature have one. -/
structure Turned (D : DocumentStore) (u : UpdateInputs) (fs : List ShaderFunction) (w : World)
    {α : Type} (res : Except Fault α) (t : World) : Prop where
  renews : World.Renews DiskPath.IsDocument w (D.IsArtifact w.current u fs) t
  held : ∀ a, res = .ok a → ∀ f ∈ fs, (∃ s, f.signature = .ok s) →
    t.Readable (D.artifactPath (.string f.name))

variable {D : DocumentStore} {u : UpdateInputs} {f : ShaderFunction} {fs : List ShaderFunction}
  {w t v : World}

theorem turned_of_error {e : Fault} (h : t.ground = w.ground) :
    Turned D u fs w (.error e : Except Fault α) t :=
  ⟨World.renews_of_ground_eq h, nofun⟩

theorem Turned.cons {β : Type} {a : β} {res : Except Fault α}
    (h : Turned D u [f] w (.ok a : Except Fault β) t) (h' : Turned D u fs t res v) :
    Turned D u (f :: fs) w res v where
  renews := by
    have hcurrent := h.renews.current
    refine (h.renews.mono (fun _ hp => hp) fun p bytes => ?_).trans
      (h'.renews.mono (fun _ hp => hp) fun p bytes => ?_)
    · rintro ⟨g, hg, hu, hf, hrest⟩
      exact ⟨g, hg, hu, List.mem_cons.2 (.inl (List.mem_singleton.1 hf)), hrest⟩
    · rintro ⟨g, hg, hu, hf, hrest⟩
      rw [hcurrent] at hrest
      exact ⟨g, hg, hu, List.mem_cons_of_mem _ hf, hrest⟩
  held b hb g hg hs := by
    rcases List.mem_cons.1 hg with rfl | hg
    · exact h'.renews.stays _ (D.isDocument_artifactPath _)
        (h.held a rfl g List.mem_cons_self hs)
    · exact h'.held b hb g hg hs

theorem Turned.fault {e : Fault} {β : Type} (h : Turned D u [f] w (.error e : Except Fault β) t) :
    Turned D u (f :: fs) w (.error e : Except Fault α) t where
  renews := h.renews.mono (fun _ hp => hp) fun _ _ ⟨g, hg, hu, hf, hrest⟩ =>
    ⟨g, hg, hu, List.mem_cons.2 (.inl (List.mem_singleton.1 hf)), hrest⟩
  held := nofun

theorem turned_of_ground_eq {res : Except Fault α} (h : t.ground = w.ground)
    (hheld : (∃ s, f.signature = .ok s) → w.Readable (D.artifactPath (.string f.name))) :
    Turned D u [f] w res t where
  renews := World.renews_of_ground_eq h
  held _ _ g hg hs := by
    obtain rfl := List.mem_singleton.1 hg
    rw [World.Readable, World.bytesAt_congr h]
    exact hheld hs

/-- Saving what was generated of a function is its turn. -/
theorem turned_save {g : Generation} (hg : g.Sound) {res : Except Fault Unit}
    (hsave : exec (D.store.save g.artifact.record : InWorld Unit) w = (res, t)) :
    Turned D g.inputs [g.function] w res t := by
  have hwrote := wrote_write (D.artifactPath g.artifact.record.name) g.artifact.record.toJson w
  change exec (DocumentStore.write _ _) w = _ at hsave
  rw [hsave] at hwrote
  refine ⟨(hwrote.renews (D.isDocument_artifactPath _)).mono (fun _ hp => hp) ?_, fun a ha f hf _ => ?_⟩
  · rintro p bytes ⟨hplace, rfl, -⟩
    exact ⟨g, hg, rfl, List.mem_cons_self, hplace, rfl⟩
  · obtain rfl := List.mem_singleton.1 hf
    exact ⟨_, hwrote.written ha⟩

theorem Turned.of_ground_eq {res : Except Fault α} (h : Turned D u fs t res v)
    (ht : t.ground = w.ground) : Turned D u fs w res v where
  renews := by
    refine (World.renews_of_ground_eq ht).trans ?_
    rw [← (Prod.mk.inj ht).2]
    exact h.renews
  held := h.held

theorem Turned.to_ground_eq {β : Type} {res : Except Fault α} {res' : Except Fault β}
    (h : Turned D u fs w res t) (hres : ∀ b, res' = .ok b → ∃ a, res = .ok a)
    (hv : v.ground = t.ground) : Turned D u fs w res' v where
  renews := h.renews.trans (World.renews_of_ground_eq hv)
  held b hb f hf hs := by
    obtain ⟨a, ha⟩ := hres b hb
    rw [World.Readable, World.bytesAt_congr hv]
    exact h.held a ha f hf hs

theorem ground_of_drawn {r : Except Fault (Except NumeralError Artifact)}
    (h : Drawn (σ := World) D.store u f w r t) : t.ground = w.ground := by
  obtain ⟨hload, -, -, -, hdraw⟩ := h
  exact ((InWorld.keeps_ground_draw _).of_exec hdraw).trans ((D.keeps_ground_load _).of_exec hload)

theorem exists_generation_of_drawn {a : Artifact}
    (h : Drawn (σ := World) D.store u f w (.ok (.ok a)) t) :
    ∃ g : Generation, g.Sound ∧ g.inputs = u ∧ g.function = f ∧ g.artifact = a := by
  obtain ⟨-, -, hs, -, hdraw⟩ := h
  exact exists_generation hs (Except.ok.inj (congrArg Prod.fst hdraw))

theorem turned_of_course {source : String} {p : Progress} {res : Except Fault Progress}
    (h : Course D.store u source p f w res t) : Turned D u [f] w res t := by
  have hlog := InWorld.undisturbed_ground.log
  have hloaded : ∀ {r v}, exec (D.store.load f.name : InWorld _) w = (r, v) → v.ground = w.ground :=
    (D.keeps_ground_load f.name).of_exec
  cases h with
  | unlisted => exact turned_of_error rfl
  | unloaded hload | uncompared hload | unidentified hload => exact turned_of_error (hloaded hload)
  | undrawn h | unnumbered h => exact turned_of_error (ground_of_drawn h)
  | @skipped q earlier r v t _ hload hc hlogged =>
    obtain ⟨a, rfl⟩ : ∃ a, earlier = some a := by
      cases earlier with
      | none => cases hc
      | some a => exact ⟨a, rfl⟩
    exact turned_of_ground_eq (((hlog _ _).of_exec hlogged).trans (hloaded hload))
      fun _ => readable_of_read hload
  | failed _ hload _ hsignature _ hreport =>
    refine turned_of_ground_eq
      (((InWorld.undisturbed_ground.keeps_report _).of_exec hreport).trans (hloaded hload))
      fun ⟨s, hs⟩ => ?_
    rw [hsignature] at hs
    cases hs
  | unsaved h hsave =>
    obtain ⟨g, hg, rfl, rfl, rfl⟩ := exists_generation_of_drawn h
    exact ((turned_save hg hsave).to_ground_eq nofun rfl).of_ground_eq (ground_of_drawn h)
  | updated _ h hsave hlogged =>
    obtain ⟨g, hg, rfl, rfl, rfl⟩ := exists_generation_of_drawn h
    exact ((turned_save hg hsave).to_ground_eq (fun _ _ => ⟨(), rfl⟩)
      ((hlog _ _).of_exec hlogged)).of_ground_eq (ground_of_drawn h)

theorem turned_updateFunction (D : DocumentStore) (u : UpdateInputs) (source : String) (p : Progress)
    (f : ShaderFunction) (w : World) :
    Turned D u [f] w (exec (updateFunction (m := InWorld) D.store u source p f) w).1
      (exec (updateFunction D.store u source p f) w).2 :=
  turned_of_course (course_updateFunction D.store u source p f w)

theorem turned_foldlM (D : DocumentStore) (u : UpdateInputs) (source : String) :
    ∀ (fs : List ShaderFunction) (p : Progress) (w : World),
      Turned D u fs w (exec (fs.foldlM (updateFunction (m := InWorld) D.store u source) p) w).1
        (exec (fs.foldlM (updateFunction D.store u source) p) w).2
  | [], _, _ => ⟨World.renews_of_ground_eq rfl, nofun⟩
  | f :: fs, p, w => by
    have hturned := turned_updateFunction D u source p f w
    rw [List.foldlM_cons]
    refine exec_bind_cases (fun e t h => ?_) fun q t h => ?_ <;> rw [h] at hturned
    · exact hturned.fault
    · exact hturned.cons (turned_foldlM D u source fs q t)

end DocumentStore

/-! ## Manifests -/

namespace Manifest

variable {m : Manifest} {library : String} {ns : List String}

/-- A manifest with the names of functions of a library, and with texts. -/
structure Lists (m : Manifest) (library : String) (ns : List String) : Prop where
  library : m.library = .string library
  sourceFile : ∃ s, m.sourceFile = .string s
  functions : m.functions = strings ns
  updated : ∃ s, m.updated = .string s
  version : m.version = .int formatVersion

theorem lists_empty (library : String) : Lists { library := .string library } library [] :=
  ⟨rfl, ⟨_, rfl⟩, rfl, ⟨_, rfl⟩, rfl⟩

theorem arePlain_map_string (depth : Nat) : ∀ ns : List String, arePlain depth (ns.map string) = true
  | [] => rfl
  | _ :: ns => arePlain_map_string depth ns

theorem Lists.isPlain (h : m.Lists library ns) : m.toJson.isPlain 0 = true := by
  obtain ⟨library', source, functions, updated, version⟩ := m
  obtain ⟨rfl, ⟨s, rfl⟩, rfl, ⟨t, rfl⟩, rfl⟩ := h
  have hversion : formatVersion.natAbs < Numeral.limit := by
    have hlongest : Numeral.longest ≠ 0 := by decide
    unfold Numeral.limit
    generalize Numeral.longest = n at hlongest
    exact Nat.one_lt_pow hlongest (by decide)
  have hdepth : 0 < deepest ∧ 1 < deepest := by decide
  simp [toJson, Json.isPlain, arePlainMembers, strings, arePlain_map_string, OrderedMap.keys, int,
    hversion, hdepth.1, hdepth.2]

theorem Lists.parse_render (h : m.Lists library ns) : Json.parse m.toJson.render = .ok m.toJson :=
  Json.parse_render h.isPlain

theorem ofJson_toJson (m : Manifest) : ofJson m.toJson = .ok m := by
  have hfields : recordFields fieldNames m.toJson = .ok [("library", m.library),
      ("source_file", m.sourceFile), ("functions", m.functions), ("updated", m.updated),
      ("version", m.version)] :=
    recordFields_object rfl (by simp [OrderedMap.keys])
  rw [ofJson, hfields]
  rfl

end Manifest

namespace DocumentStore

variable {D : DocumentStore} {m : Manifest} {library : String} {ns : List String} {w t : World}

theorem keeps_ground_loadManifest (D : DocumentStore) (library : String) :
    Keeps World.ground (D.loadManifest library : InWorld Manifest) :=
  keeps_ground_read.bind fun _ => keeps_pure _

/-- A manifest is loaded as it was written. -/
theorem exec_loadManifest_of_written
    (h : w.bytesAt (D.manifestPath (.string library)) = .ok m.toJson.render.toUTF8)
    (hm : m.Lists library ns) : exec (D.loadManifest library : InWorld Manifest) w = (.ok m, w) := by
  unfold loadManifest
  rw [exec_bind, exec_read_of_written "manifest" h hm.parse_render m.ofJson_toJson]
  rfl

/-- A manifest that is loaded has been decoded, or it is an empty one. -/
theorem decode_of_loadManifest
    (hm : (exec (D.loadManifest library : InWorld Manifest) w).1 = .ok m) :
    m = { library := .string library }
      ∨ ∃ text, w.readText (D.manifestPath (.string library)) = .ok (.ok text)
        ∧ decode Manifest.ofJson text = .ok m := by
  unfold loadManifest at hm
  rw [exec_bind] at hm
  split at hm
  · rename_i r t hr
    cases r with
    | none => exact .inl (Except.ok.inj hm).symm
    | some m' =>
      obtain rfl : m' = m := Except.ok.inj hm
      exact .inr (decode_of_read hr)
  · cases hm

theorem eq_empty_of_loadManifest (h : ¬w.Readable (D.manifestPath (.string library)))
    (hm : (exec (D.loadManifest library : InWorld Manifest) w).1 = .ok m) :
    m = { library := .string library } := by
  obtain hempty | ⟨text, htext, -⟩ := decode_of_loadManifest hm
  · exact hempty
  · exact absurd htext (readText_of_not_readable h text)

/-- The manifest of a library lists names, if there is one. -/
def Listed (D : DocumentStore) (library : String) (w : World) : Prop :=
  ∀ bytes, w.bytesAt (D.manifestPath (.string library)) = .ok bytes →
    ∃ m ns, Manifest.Lists m library ns ∧ bytes = m.toJson.render.toUTF8

/-- Where the manifest lists names, what is loaded is that manifest or an empty one. -/
theorem Listed.loaded (h : D.Listed library w)
    (hm : (exec (D.loadManifest library : InWorld Manifest) w).1 = .ok m) :
    (∃ ns, m.Lists library ns) ∧ ∀ bytes,
      w.bytesAt (D.manifestPath (.string library)) = .ok bytes → bytes = m.toJson.render.toUTF8 := by
  by_cases hreadable : w.Readable (D.manifestPath (.string library))
  · obtain ⟨bytes, hbytes⟩ := hreadable
    obtain ⟨m', ns, hlists, rfl⟩ := h bytes hbytes
    rw [exec_loadManifest_of_written hbytes hlists] at hm
    obtain rfl := Except.ok.inj hm
    refine ⟨⟨ns, hlists⟩, fun bytes' hbytes' => ?_⟩
    exact Except.ok.inj (hbytes'.symm.trans hbytes)
  · obtain rfl := eq_empty_of_loadManifest hreadable hm
    exact ⟨⟨[], Manifest.lists_empty library⟩, fun bytes hbytes => absurd ⟨bytes, hbytes⟩ hreadable⟩

end DocumentStore

section

variable {σ : Type} [Sources (Routine σ)] [Journal (Routine σ)] [MonadStateOf Supply (Routine σ)]

/-- Two progresses with one manifest, of which the later one tells of no less. -/
structure Progress.Agrees (p q : Progress) : Prop where
  manifest : q.manifest = p.manifest
  removed : q.report.removed = p.report.removed
  error : q.report.error = p.report.error
  unchanged : q.changed = false → p.changed = false

omit [Sources (Routine σ)] in
/-- Once it is listed, the turn of a function leaves the manifest. -/
theorem yields_registered (store : ArtifactStore (Routine σ)) (u : UpdateInputs) (source : String)
    (p : Progress) (f : ShaderFunction) :
    Yields (updateFunction store u source p f) fun q =>
      ∃ p', p.register f.name = .ok p' ∧ p'.Agrees q := by
  intro s q hq
  have hcourse := course_updateFunction store u source p f s
  rw [hq] at hcourse
  obtain ⟨p', hp', rfl | ⟨message, rfl⟩ | rfl⟩ := hcourse.exists_of_ok
  · exact ⟨p', hp', rfl, rfl, rfl, id⟩
  · exact ⟨p', hp', rfl, rfl, rfl, id⟩
  · exact ⟨p', hp', rfl, rfl, rfl, nofun⟩

omit [Sources (Routine σ)] in
/-- A function is listed after its turn. -/
theorem yields_updateFunction (store : ArtifactStore (Routine σ)) (u : UpdateInputs)
    (source : String) {p : Progress} (f : ShaderFunction) {ns : List String}
    (hp : p.manifest.functions = strings ns) :
    Yields (updateFunction store u source p f) fun q => ∃ ns', p.Leads ns q ns' ∧ f.name ∈ ns' := by
  intro s q hq
  obtain ⟨p', hp', hagrees⟩ := yields_registered store u source p f s q hq
  obtain ⟨ns', hleads, hn⟩ := Progress.exists_leads_register hp hp'
  refine ⟨ns', ⟨hagrees.manifest.trans hleads.manifest, hleads.listed, fun hc => ?_⟩, hn⟩
  exact (hleads.unchanged (hagrees.unchanged hc)).imp_right hagrees.manifest.trans

omit [Sources (Routine σ)] in
theorem yields_foldlM (store : ArtifactStore (Routine σ)) (u : UpdateInputs) (source : String) :
    ∀ (fs : List ShaderFunction) {p : Progress} {ns : List String},
      p.manifest.functions = strings ns →
        Yields (fs.foldlM (updateFunction store u source) p) fun q =>
          ∃ ns', p.Leads ns q ns' ∧ ∀ f ∈ fs, f.name ∈ ns'
  | [], _, ns, hp => yields_pure ⟨ns, .refl hp, nofun⟩
  | f :: fs, p, ns, hp => by
    rw [List.foldlM_cons]
    refine (yields_updateFunction store u source f hp).bind fun q ⟨ns', hleads, hf⟩ => ?_
    intro s r hr
    obtain ⟨ns'', hleads', hfs⟩ := yields_foldlM store u source fs hleads.functions s r hr
    refine ⟨ns'', hleads.trans hleads', fun g hg => ?_⟩
    rcases List.mem_cons.1 hg with rfl | hg
    · exact hleads'.listed hf
    · exact hfs g hg

end

/-! ## Updates -/

theorem Manifest.Lists.of_listing {r : UpdateReport} {m q : Manifest} {library source : String}
    {ns ns' : List String} (hm : m.Lists library ns)
    (hq : q = (Progress.start r m source).manifest.listing ns') : q.Lists library ns' := by
  subst hq
  exact ⟨hm.library, ⟨source, rfl⟩, rfl, hm.updated, hm.version⟩

theorem Manifest.Lists.at_time {m : Manifest} {library : String} {ns : List String}
    (hm : m.Lists library ns) (time : String) :
    Lists { m with updated := .string time } library ns :=
  ⟨hm.library, hm.sourceFile, hm.functions, ⟨time, rfl⟩, hm.version⟩

namespace DocumentStore

/-- What an update that has read all does to the documents of a store: it stops at a function or at
the manifest, which then stays as it is, or all functions have their turn and the manifest lists
them. -/
inductive Brought (D : DocumentStore) (u : UpdateInputs) (library : String) (w : World) :
    Except Fault UpdateReport → World → Prop
  | halted {e : Fault} {t : World} (h : Turned D u u.functions w (.error e : Except Fault Unit) t) :
    Brought D u library w (.error e) t
  | unchanged {report : UpdateReport} {m : Manifest} {ns : List String} {t : World}
    (hload : (exec (D.loadManifest library : InWorld Manifest) w).1 = .ok m)
    (hm : m.Lists library ns) (hns : ∀ n, n ∈ ns ↔ n ∈ u.functions.map (·.name))
    (h : Turned D u u.functions w (.ok () : Except Fault Unit) t) :
    Brought D u library w (.ok report) t
  | changed {report : UpdateReport} {m : Manifest} {ns : List String} {v t : World}
    (h : Turned D u u.functions w (.ok () : Except Fault Unit) v) (hm : m.Lists library ns)
    (hns : ∀ n, n ∈ ns ↔ n ∈ u.functions.map (·.name))
    (hwrote : Wrote (D.manifestPath (.string library)) m.toJson v (.ok ()) t) :
    Brought D u library w (.ok report) t

/-- A manifest is saved with the time of the day. -/
theorem exists_wrote_of_saveManifest {D : DocumentStore} {m : Manifest} {library : String}
    (hm : m.library = .string library) (w : World) :
    ∃ time v, v.ground = w.ground
      ∧ Wrote (D.manifestPath (.string library)) { m with updated := .string time }.toJson v
        (exec (D.saveManifest m : InWorld Unit) w).1 (exec (D.saveManifest m) w).2 := by
  have hnow : exec (Clock.now : InWorld Instant) w = (.ok w.readClock.1, w.readClock.2) := rfl
  refine ⟨w.readClock.1.iso, w.readClock.2, rfl, ?_⟩
  unfold saveManifest
  rw [exec_bind, hnow, hm]
  exact wrote_write _ _ _

theorem brought_updateFunctions (D : DocumentStore) (u : UpdateInputs) (source : String)
    (r : UpdateReport) {w : World} (hm : D.Listed r.library w) :
    Brought D u r.library w (exec (updateFunctions D.store u source r) w).1
      (exec (updateFunctions D.store u source r) w).2 := by
  unfold updateFunctions
  refine (D.keeps_ground_loadManifest r.library).exec_bind_cases
    (fun e t ht => .halted (turned_of_error ht)) fun m w1 hload hw1 => ?_
  have hm1 : (exec (D.loadManifest r.library : InWorld Manifest) w).1 = .ok m := by rw [hload]
  obtain ⟨⟨ns, hlists⟩, -⟩ := hm.loaded hm1
  have hturned := turned_foldlM D u source u.functions (.start r m u.context.sourceFile) w1
  have hyields := yields_foldlM D.store u source u.functions
    (p := .start r m u.context.sourceFile) hlists.functions w1
  refine exec_bind_cases (fun e w2 h => ?_) fun q w2 h => ?_ <;> rw [h] at hturned hyields <;>
    replace hturned := hturned.of_ground_eq hw1
  · exact .halted (hturned.to_ground_eq nofun rfl)
  · obtain ⟨ns', hleads, hnames⟩ := hyields q rfl
    refine exec_orFault_bind_cases (fun e _ => .halted (hturned.to_ground_eq nofun rfl))
      fun q' hq' => ?_
    obtain ⟨⟨ns'', hmanifest, hns⟩, hunchanged⟩ := Progress.exists_listing hleads hnames hq'
    have hlists' := hlists.of_listing hmanifest
    simp only
    split
    · obtain ⟨time, v, hv, hwrote⟩ := exists_wrote_of_saveManifest (D := D) hlists'.library w2
      have hended : Turned D u u.functions w (.ok () : Except Fault Unit) v :=
        hturned.to_ground_eq (fun _ _ => ⟨_, rfl⟩) hv
      refine exec_bind_cases (fun e t h => ?_) fun _ t h => ?_ <;>
        (change exec (D.saveManifest _) w2 = _ at h; rw [h] at hwrote)
      · refine .halted ⟨hended.renews.trans ?_, nofun⟩
        refine (hwrote.renews (D.isDocument_manifestPath _)).mono (fun _ hp => hp) ?_
        rintro p bytes ⟨-, -, hok⟩
        cases hok
      · exact .changed hended (hlists'.at_time time) hns hwrote
    · rename_i hc
      have hsame := hunchanged (by simpa using hc)
      exact .unchanged hm1 (hsame ▸ hlists') hns (hturned.to_ground_eq (fun _ _ => ⟨_, rfl⟩) rfl)

/-- An update keeps what can be read. -/
theorem Brought.stays {D : DocumentStore} {u : UpdateInputs} {library : String} {w t : World}
    {res : Except Fault UpdateReport} (h : Brought D u library w res t) (p : DiskPath)
    (hp : p.IsDocument) (hw : w.Readable p) : t.Readable p := by
  cases h with
  | halted h => exact h.renews.stays p hp hw
  | unchanged _ _ _ h => exact h.renews.stays p hp hw
  | changed h _ _ hwrote =>
    exact (hwrote.renews (D.isDocument_manifestPath _)).stays p hp (h.renews.stays p hp hw)

/-- After an update that ends without a fault there is a manifest, if there was a function. -/
theorem Brought.readable {D : DocumentStore} {u : UpdateInputs} {library : String} {w t : World}
    {report : UpdateReport} (h : Brought D u library w (.ok report) t)
    {f : ShaderFunction} (hf : f ∈ u.functions) :
    t.Readable (D.manifestPath (.string library)) := by
  cases h with
  | @unchanged _ m ns _ hload hlists hns hturned =>
    refine hturned.renews.stays _ (D.isDocument_manifestPath _) ?_
    by_contra hnot
    have hempty := eq_empty_of_loadManifest hnot hload
    have hnone : strings ns = .array [] := by rw [← hlists.functions, hempty]
    have hns' : ns = [] := List.map_eq_nil_iff.1 (array.inj hnone)
    have hmem := (hns f.name).2 (List.mem_map_of_mem hf)
    rw [hns'] at hmem
    cases hmem
  | changed _ _ _ hwrote => exact ⟨_, hwrote.written rfl⟩

theorem ground_update {l : Library} {p : Project} {store : ArtifactStore InWorld} {w : World}
    (hu : LawfulStore.inputsAt l p w = none) : (exec (l.update p store) w).2.ground = w.ground := by
  rw [LawfulStore.exec_update_of_none hu]
  exact InWorld.undisturbed_ground.keeps_gather l p w

theorem brought_update (D : DocumentStore) {l : Library} {p : Project} {u : UpdateInputs} {w : World}
    (hu : LawfulStore.inputsAt l p w = some u) (hm : D.Listed l.name w) :
    ∃ v, v.ground = w.ground ∧ Brought D u l.name v (exec (l.update p D.store) w).1
      (exec (l.update p D.store) w).2 := by
  obtain ⟨includes, v, hgather, heq⟩ := LawfulStore.exists_update_eq hu
  have hground : v.ground = w.ground := (InWorld.undisturbed_ground.keeps_gather l p).of_exec hgather
  rw [heq]
  refine ⟨v, hground, brought_updateFunctions D u (p.sourcePath l).toText
    { library := l.name, includes := includes } fun bytes hbytes => hm bytes ?_⟩
  rw [← hbytes, World.bytesAt_congr hground]

section

variable {store : ArtifactStore InWorld} {load : String → InWorld (Option ArtifactRecord)}
  {u : UpdateInputs} {f : ShaderFunction} {w : World}

theorem exec_updateFunction_congr (source : String) (q : Progress)
    (hload : exec (store.load f.name) w = exec (load f.name) w) :
    exec (updateFunction store u source q f) w
      = exec (updateFunction { store with load := load } u source q f) w := by
  unfold updateFunction
  cases q.register f.name with
  | error e => rfl
  | ok q' =>
    change exec (store.load f.name >>= _) w = exec (load f.name >>= _) w
    rw [exec_bind, exec_bind, hload]

/-- An update of one function asks a store for no other artifact. -/
theorem exec_update_congr {l : Library} {p : Project} (hu : LawfulStore.inputsAt l p w = some u)
    (hf : u.functions = [f]) (hmanifest : Keeps World.ground (store.loadManifest l.name))
    (hload : ∀ v, v.ground = w.ground → exec (store.load f.name) v = exec (load f.name) v) :
    exec (l.update p store) w = exec (l.update p { store with load := load }) w := by
  obtain ⟨includes, v, hgather, heq⟩ := LawfulStore.exists_update_eq hu
  have hground : v.ground = w.ground := (InWorld.undisturbed_ground.keeps_gather l p).of_exec hgather
  rw [heq, heq]
  unfold updateFunctions
  rw [exec_bind, exec_bind, hf]
  have hv := hmanifest v
  rcases hm : exec (store.loadManifest l.name) v with ⟨e | m, v'⟩ <;> rw [hm] at hv
  simp only [List.foldlM_cons, List.foldlM_nil, bind_pure]
  have hv' : v'.ground = w.ground := hv.trans hground
  rw [exec_bind, exec_bind, exec_updateFunction_congr _ _ (hload v' hv')]

end

/-! ## The directory that paths are seen from -/

theorem keeps_current_write (path : DiskPath) (j : Json) :
    Keeps World.current (write path j : InWorld Unit) := by
  intro w
  obtain ⟨d, hd⟩ := (wrote_write path j w).world
  rw [hd]
  rfl

theorem calmStore_current (D : DocumentStore) :
    CalmStore (Same World.current) (D.store : ArtifactStore InWorld) := by
  have hcalm : Calm (Same World.current) := (InWorld.undisturbed_ground.comp Prod.snd).calm
  have hload : ∀ name, Keeps World.current (D.store.load name : InWorld (Option ArtifactRecord)) :=
    fun name => (D.keeps_ground_load name).comp Prod.snd
  have hloadManifest : ∀ library, Keeps World.current (D.loadManifest library : InWorld Manifest) :=
    fun library => (D.keeps_ground_loadManifest library).comp Prod.snd
  have hsaveManifest : ∀ m, Keeps World.current (D.saveManifest m : InWorld Unit) :=
    fun m => Keeps.bind (fun _ => rfl) fun _ => keeps_current_write _ _
  exact ⟨hcalm, fun _ _ => rfl, hload, fun _ => keeps_current_write _ _, hloadManifest, hsaveManifest⟩

theorem keeps_current_update (D : DocumentStore) (l : Library) (p : Project) :
    Keeps World.current (l.update p D.store : InWorld UpdateReport) :=
  D.calmStore_current.along_update l p

end DocumentStore

end ShaderGraph
