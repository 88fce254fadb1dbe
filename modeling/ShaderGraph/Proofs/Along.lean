import ShaderGraph.Proofs.Update
import ShaderGraph.Update.Project

/-!
# What an update leads along

Where each operation of the surroundings and of a store leads from a state to one that comes after
it, so does an update, whatever it comes to.
-/

namespace ShaderGraph

open Routine

section

variable {σ : Type} [Sources (Routine σ)] [Journal (Routine σ)] [MonadStateOf Supply (Routine σ)]
  {R : σ → σ → Prop} [IsPreorder σ R]

/-- The operations of a store lead along. -/
structure CalmStore (R : σ → σ → Prop) (store : ArtifactStore (Routine σ)) : Prop extends Calm R where
  draw : ∀ {α : Type} (f : Supply → α × Supply), Along R (modifyGetThe Supply f : Routine σ α)
  load : ∀ name, Along R (store.load name)
  save : ∀ a, Along R (store.save a)
  loadManifest : ∀ library, Along R (store.loadManifest library)
  saveManifest : ∀ m, Along R (store.saveManifest m)

namespace CalmStore

variable {store : ArtifactStore (Routine σ)} (h : CalmStore R store)

include h

theorem along_updateFunction (u : UpdateInputs) (source : String) (p : Progress)
    (f : ShaderFunction) : Along R (updateFunction store u source p f) := by
  unfold updateFunction logInfo
  refine (along_orFault _ _).bind fun _ => (h.load _).bind fun earlier =>
    (along_orFault _ _).bind fun current => ?_
  split_ifs
  · exact (h.log _ _).bind fun _ => along_pure _
  · cases f.signature with
    | error e => exact (h.along_report _).bind fun _ => along_pure _
    | ok signature =>
      exact (along_orFault _ _).bind fun _ => (h.draw _).bind fun _ => (along_orFault _ _).bind fun _ =>
        (h.save _).bind fun _ => (h.log _ _).bind fun _ => along_pure _

theorem along_updateFunctions (u : UpdateInputs) (source : String) (r : UpdateReport) :
    Along R (updateFunctions store u source r) := by
  unfold updateFunctions
  refine (h.loadManifest _).bind fun _ => (along_foldlM (h.along_updateFunction u source) _ _).bind
    fun _ => (along_orFault _ _).bind fun p => ?_
  simp only
  split
  · exact (h.saveManifest _).bind fun _ => along_pure _
  · exact along_pure _

theorem along_update (l : Library) (p : Project) : Along R (l.update p store) := by
  rw [Library.update_eq]
  refine (h.along_gather l p).bind fun gathered => ?_
  rcases gathered with r | ⟨u, r⟩
  · exact along_pure _
  · exact h.along_updateFunctions u _ r

end CalmStore

end

section

variable {σ : Type} [Disk (Routine σ)] [Journal (Routine σ)] [Clock (Routine σ)]
  [MonadStateOf Supply (Routine σ)] {R : σ → σ → Prop} [IsPreorder σ R]

/-- The operations of a disk lead along, and those of the clock and the supply. -/
structure CalmDisk (R : σ → σ → Prop) : Prop extends Calm R where
  isDirectory : ∀ p, Along R (Sources.isDirectory p : Routine σ Bool)
  isThere : ∀ p, Along R (Disk.isThere p : Routine σ Bool)
  makeDirectory : ∀ p, Along R (Disk.makeDirectory p : Routine σ Unit)
  writeText : ∀ p text, Along R (Disk.writeText p text : Routine σ Unit)
  rename : ∀ p q, Along R (Disk.rename p q : Routine σ Unit)
  now : Along R (Clock.now : Routine σ Instant)
  draw : ∀ {α : Type} (f : Supply → α × Supply), Along R (modifyGetThe Supply f : Routine σ α)

namespace CalmDisk

omit [IsPreorder σ R] in
theorem mono {R' : σ → σ → Prop} (h : CalmDisk R) (hR : ∀ s t, R s t → R' s t) : CalmDisk R' where
  current := h.current.mono hR
  isFile p := (h.isFile p).mono hR
  readText p := (h.readText p).mono hR
  pause := h.pause.mono hR
  log severity message := (h.log severity message).mono hR
  keep d := (h.keep d).mono hR
  isDirectory p := (h.isDirectory p).mono hR
  isThere p := (h.isThere p).mono hR
  makeDirectory p := (h.makeDirectory p).mono hR
  writeText p text := (h.writeText p text).mono hR
  rename p q := (h.rename p q).mono hR
  now := h.now.mono hR
  draw f := (h.draw f).mono hR

variable (h : CalmDisk R)

include h

theorem along_read {α : Type} (kind : String) (decoder : Json → Except DocumentError α)
    (path : DiskPath) : Along R (DocumentStore.read kind decoder path : Routine σ (Option α)) := by
  unfold DocumentStore.read
  refine (h.isThere _).bind fun b => ?_
  split_ifs
  · exact along_pure _
  · refine (h.readText _).bind fun text => ?_
    cases text with
    | error e => exact along_throw _
    | ok text =>
      simp only []
      cases DocumentStore.decode decoder text with
      | ok a => exact along_pure _
      | error e =>
        simp only []
        cases e.fault? with
        | some fault => exact along_throw _
        | none => exact (h.log _ _).bind fun _ => along_pure _

theorem along_write (path : DiskPath) (j : Json) :
    Along R (DocumentStore.write path j : Routine σ Unit) :=
  (h.makeDirectory _).bind fun _ => (h.writeText _ _).bind fun _ => h.rename _ _

theorem calmStore (D : DocumentStore) : CalmStore R (D.store (m := Routine σ)) where
  toCalm := h.toCalm
  draw := h.draw
  load _ := h.along_read _ _ _
  save _ := h.along_write _ _
  loadManifest _ := (h.along_read _ _ _).bind fun _ => along_pure _
  saveManifest _ := h.now.bind fun _ => h.along_write _ _

end CalmDisk

end

end ShaderGraph
