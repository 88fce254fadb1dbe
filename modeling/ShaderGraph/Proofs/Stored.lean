import ShaderGraph.Memory.World
import ShaderGraph.Proofs.Disk
import ShaderGraph.Proofs.Records
import ShaderGraph.Proofs.Routine
import ShaderGraph.Proofs.Written

/-!
# Documents on a disk

A document that is written stands where its path leads, and nothing else has changed but the draft
that it was written to first; when writing it fails, the earlier document stays. So an artifact is
loaded as it was saved (`DocumentStore.load_save`).
-/

namespace ShaderGraph

open Routine

/-- The place that a path leads to, seen from a directory. -/
def DiskPath.placeFrom (current p : DiskPath) : List String := (current.join p).place

/-- The bytes of the file that a path leads to. -/
def World.bytesAt (w : World) (p : DiskPath) : Except DiskError ByteArray :=
  w.disk.read (w.current.join p)

/-- A world with another disk. -/
def World.onDisk (w : World) (d : MemoryDisk) : World := { w with disk := d }

namespace InWorld

theorem exec_getThe_bind {α : Type} (f : World → InWorld α) (w : World) :
    exec (getThe World >>= f) w = exec (f w) w := rfl

theorem exists_of_makeDirectory {w t : World} {p : DiskPath} {res : Except Fault Unit}
    (h : exec (Disk.makeDirectory p : InWorld Unit) w = (res, t)) :
    ∃ d, w.disk.ChangesAt [] d ∧ t = w.onDisk d := by
  have hchanges := MemoryDisk.changesAt_makeAll (w.current.join p).names.reverse w.disk
  unfold Disk.makeDirectory instDiskInWorld at h
  simp only [exec_getThe_bind] at h
  rcases hmade : w.disk.makeAll (w.current.join p).names.reverse with ⟨d, e | ⟨⟩⟩ <;>
    rw [hmade] at h hchanges <;> cases h <;> exact ⟨d, hchanges, rfl⟩

theorem exec_change_cases {f : MemoryDisk → Except DiskError MemoryDisk} {w t : World}
    {res : Except Fault Unit} (h : exec (change f) w = (res, t)) :
    (∃ e, res = .error e ∧ t = w) ∨ ∃ d, f w.disk = .ok d ∧ res = .ok () ∧ t = w.onDisk d := by
  unfold change at h
  rw [exec_getThe_bind] at h
  rcases hf : f w.disk with e | d <;> rw [hf] at h <;> cases h
  · exact .inl ⟨_, rfl, rfl⟩
  · exact .inr ⟨d, rfl, rfl, rfl⟩

theorem exec_writeText (w : World) (p : DiskPath) (text : String) :
    exec (Disk.writeText p text : InWorld Unit) w
      = exec (change fun d => d.write (w.current.join p) text.toUTF8) w := rfl

theorem exec_rename (w : World) (p q : DiskPath) : exec (Disk.rename p q : InWorld Unit) w
    = exec (change fun d => d.rename (w.current.join p) (w.current.join q)) w := rfl

theorem exec_ask (w : World) (question : MemoryDisk → DiskPath → Except DiskError Bool) (p : DiskPath) :
    exec (ask question p) w = ((question w.disk (w.current.join p)).mapError w.fault, w) := by
  unfold ask
  rw [exec_getThe_bind]
  cases question w.disk (w.current.join p) <;> rfl

theorem exec_isThere (w : World) (p : DiskPath) : exec (Disk.isThere p : InWorld Bool) w
    = ((w.disk.holds (w.current.join p) fun _ => true).mapError w.fault, w) :=
  exec_ask w _ p

theorem exec_readText (w : World) (p : DiskPath) :
    exec (Sources.readText p : InWorld (Except FileError String)) w = (w.readText p, w) := by
  unfold Sources.readText Disk.toSources instDiskInWorld
  simp only [exec_getThe_bind]
  rcases w.readText p with e | r <;> rfl

end InWorld

/-- The path that a document is written to first. -/
def DiskPath.draft (p : DiskPath) : DiskPath := p.withName (p.name ++ ".tmp")

/-- What writing a document does to a world: the disk alone changes, at the draft and at the path,
and at the path only if the document then stands there. -/
structure Wrote (path : DiskPath) (j : Json) (w : World) (res : Except Fault Unit) (t : World) :
    Prop where
  world : ∃ d, t = w.onDisk d
  changes : w.disk.ChangesAt [w.current.placeFrom path.draft, w.current.placeFrom path] t.disk
  written : res = .ok () → t.bytesAt path = .ok j.render.toUTF8
  unwritten : ∀ e, res = .error e → w.disk.ChangesAt [w.current.placeFrom path.draft] t.disk

theorem wrote_of_error {path : DiskPath} {j : Json} {w : World} {e : Fault} {d : MemoryDisk}
    (hd : w.disk.ChangesAt [w.current.placeFrom path.draft] d) : Wrote path j w (.error e) (w.onDisk d) :=
  ⟨⟨d, rfl⟩, hd.mono (by simp), nofun, fun _ _ => hd⟩

theorem wrote_write (path : DiskPath) (j : Json) (w : World) :
    Wrote path j w (exec (DocumentStore.write path j : InWorld Unit) w).1
      (exec (DocumentStore.write path j : InWorld Unit) w).2 := by
  unfold DocumentStore.write
  refine exec_bind_cases (fun e t ht => ?_) fun _ t ht => ?_ <;>
    obtain ⟨d, hmade, rfl⟩ := InWorld.exists_of_makeDirectory ht <;>
    replace hmade := hmade.mono (List.nil_subset [w.current.placeFrom path.draft])
  · exact wrote_of_error hmade
  · refine exec_bind_cases (fun e t ht => ?_) fun _ t ht => ?_ <;>
      rw [InWorld.exec_writeText] at ht <;>
      rcases InWorld.exec_change_cases ht with ⟨e', he, rfl⟩ | ⟨d', hd', he, rfl⟩ <;> cases he
    · exact wrote_of_error hmade
    · have hdraft : w.disk.ChangesAt [w.current.placeFrom path.draft] d' :=
        hmade.trans (MemoryDisk.changesAt_write hd')
      rw [InWorld.exec_rename]
      rcases hmoved : exec (InWorld.change _) _ with ⟨res, t⟩
      rcases InWorld.exec_change_cases hmoved with ⟨e, rfl, rfl⟩ | ⟨d'', hd'', rfl, rfl⟩
      · exact wrote_of_error hdraft
      · obtain ⟨hchanges, bytes, hbytes, hread⟩ := MemoryDisk.rename_eq_ok hd''
        obtain rfl := Except.ok.inj (hbytes.symm.trans (MemoryDisk.read_of_write hd'))
        exact ⟨⟨d'', rfl⟩, (hdraft.mono (by simp)).trans hchanges, fun _ => hread, nofun⟩

theorem fromUTF8?_toUTF8 (s : String) : String.fromUTF8? s.toUTF8 = some s := dif_pos s.isValidUTF8

namespace World

variable {w : World} {path : DiskPath} {j : Json}

/-- A document is read from its file as it was written. -/
theorem readText_of_written (h : w.bytesAt path = .ok j.render.toUTF8) :
    w.readText path = .ok (.ok j.render) := by
  unfold bytesAt at h
  rw [readText, h]
  simp only [fromUTF8?_toUTF8]
  rw [Text.universalNewlines_render, String.ofList_toList]

theorem holds_of_bytesAt {bytes : ByteArray} (h : w.bytesAt path = .ok bytes) :
    w.disk.holds (w.current.join path) (fun _ => true) = .ok true := by
  unfold bytesAt MemoryDisk.read at h
  unfold MemoryDisk.holds
  cases hfind : w.disk.find (w.current.join path) with
  | ok e => rfl
  | error e =>
    rw [hfind] at h
    cases h

end World

theorem DocumentStore.exec_read_of_written {α : Type} {decoder : Json → Except DocumentError α}
    {path : DiskPath} {j : Json} {a : α} {w : World} (kind : String)
    (h : w.bytesAt path = .ok j.render.toUTF8) (hj : Json.parse j.render = .ok j)
    (ha : decoder j = .ok a) :
    exec (read kind decoder path : InWorld (Option α)) w = (.ok (some a), w) := by
  have hdecode : decode decoder j.render = .ok a := by
    rw [decode, hj]
    simp only [ha]
    rfl
  unfold read
  rw [exec_bind, InWorld.exec_isThere, World.holds_of_bytesAt h]
  simp only [Except.mapError, Bool.not_true, Bool.false_eq_true, ↓reduceIte]
  rw [exec_bind, InWorld.exec_readText, World.readText_of_written h]
  simp only [hdecode]
  rfl

/-- From the document of an artifact its record is read and that of no other artifact; and after it
was saved it is loaded, if the text of its document is read as the value it was written from. -/
theorem DocumentStore.load_save (a : Artifact) :
    (∀ b : Artifact, ArtifactRecord.ofJson a.record.toJson = .ok b.record ↔ b = a)
      ∧ ∀ (s : DocumentStore) (w : World),
        Json.parse a.record.toJson.render = .ok a.record.toJson →
        (exec (s.store.save a.record : InWorld Unit) w).1 = .ok () →
          exec (s.store.load a.name : InWorld (Option ArtifactRecord))
              (exec (s.store.save a.record : InWorld Unit) w).2
            = (.ok (some a.record), (exec (s.store.save a.record : InWorld Unit) w).2) := by
  have hread := a.ofJson_toJson_record
  refine ⟨fun b => ⟨fun hb => ?_, fun hb => ?_⟩, fun s w hparse hsave => ?_⟩
  · exact Artifact.record_injective (Except.ok.inj (hb.symm.trans hread))
  · rw [hb, hread]
  · have hwritten := (wrote_write (s.artifactPath a.record.name) a.record.toJson w).written hsave
    exact exec_read_of_written "artifact" hwritten hparse hread

namespace TwoSwitches

/-- An artifact with parts of every kind. Its texts hold what has to be escaped. -/
def artifact : Artifact where
  name := "a/Blend \"\\\x01é😀"
  fingerprint := "HLSL Hash: 00"
  comment := "DO NOT MODIFY\r\nHLSL Hash: 00"
  library := "Lib"
  sourceFile := "lib.hlsl"
  description := "blends\ttwo"
  categories := ["Mixing"]
  inputs := [
    { id := .string "1", pinName := "A", displayName := "A (0)", kind := "SCALAR", sortPriority := -1,
      previewValue := some [.whole 0] },
    { id := .string "2", pinName := "On", displayName := "On", kind := "STATIC_BOOL",
      previewBool := some true }]
  parameters := [{ id := .string "3", parameterName := "Strength", kind := "SCALAR",
                   defaultValue := some [.whole 1, .whole (-2)] }]
  outputs := [{ id := .string "4", name := "R", description := "the sum" }]
  variants := [
    { index := 0, boolValues := [("On", true), ("Up", true)], code := "R = A;\n",
      bindings := [⟨"A", "A"⟩], additionalOutputs := [("R", "CMOT_Float1")] },
    { index := 1, boolValues := [("On", false), ("Up", true)], code := "", bindings := [],
      additionalOutputs := [] }]
  outputTrees := [("R", .switch "Up" (.switch "On" (.leaf 0) (.leaf 1)) (.leaf 12)), ("S", .leaf 3)]
  includeFilePaths := ["/Engine/A.ush"]
  additionalDefines := [⟨"D", "1"⟩]
  texCoordinateIndex := some 2
  identifiers := ⟨[("A", .string "1"), ("On", .string "2")], [("R", .string "4")],
    [("Strength", .string "3")]⟩

def store : DocumentStore := ⟨.ofString "out", .ofString "out"⟩

theorem load_save_of_two_switches :
    ArtifactRecord.ofJson artifact.record.toJson = .ok artifact.record
      ∧ exec (store.store.load artifact.name : InWorld (Option ArtifactRecord))
          (exec (store.store.save artifact.record : InWorld Unit) {}).2
        = (.ok (some artifact.record), (exec (store.store.save artifact.record : InWorld Unit) {}).2) := by
  have hevaluated : artifact.record.toJson.isPlain 0 = true
      ∧ (exec (store.store.save artifact.record : InWorld Unit) {}).1 = .ok () := by
    decide +kernel
  obtain ⟨hread, hload⟩ := DocumentStore.load_save artifact
  exact ⟨(hread artifact).2 rfl,
    hload store {} (Json.parse_render hevaluated.1) hevaluated.2⟩

end TwoSwitches

end ShaderGraph
