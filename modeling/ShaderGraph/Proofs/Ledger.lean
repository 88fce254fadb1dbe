import ShaderGraph.Proofs.Manifest
import ShaderGraph.Proofs.Shelf

/-!
# Shelves with a record

A ledger is a shelf that also keeps what is written to it, one write after the other. It is a store
that records its writes and never fails.
-/

namespace ShaderGraph

open Routine

deriving instance DecidableEq for UpdateInputs

theorem exists_ok_of_isSome {ε α : Type} {x : Except ε α} (h : x.toOption.isSome = true) :
    ∃ a, x = .ok a := by
  cases x with
  | ok a => exact ⟨a, rfl⟩
  | error e => cases h

/-- A shelf and what has been written to it. -/
structure Ledger extends Shelf where
  writes : List StoreWrite := []

namespace Ledger

/-- A program that uses the shelf. -/
def onShelf {α : Type} (x : Routine Shelf α) : Routine Ledger α := fun s =>
  ((exec x s.toShelf).1, { s with toShelf := (exec x s.toShelf).2 })

instance : MonadLift (Routine Shelf) (Routine Ledger) := ⟨onShelf⟩

/-- Notes a write. -/
def note (w : StoreWrite) : Routine Ledger Unit :=
  modifyThe Ledger fun s => { s with writes := s.writes ++ [w] }

/-- The operations of the store. -/
def store : ArtifactStore (Routine Ledger) where
  load name := onShelf (Shelf.store.load name)
  save a := do
    onShelf (Shelf.store.save a)
    note (.artifact a)
  loadManifest library := onShelf (Shelf.store.loadManifest library)
  saveManifest m := do
    onShelf (Shelf.store.saveManifest m)
    note (.manifest m)

def view (s : Ledger) : StoreView :=
  ⟨s.artifacts, fun l => (s.manifests l).getD { library := .string l }, s.writes⟩

theorem keeps_inWorld {α : Type} (x : InWorld α) : Keeps view (onShelf (Shelf.inWorld x)) :=
  fun _ => rfl

theorem view_putManifest (s : Ledger) (m : Manifest) :
    view { s with
      manifests := Shelf.putAt s.manifests m.library m, writes := s.writes ++ [.manifest m] }
      = (view s).saveManifest m := by
  unfold view StoreView.saveManifest Shelf.putAt
  congr 1
  cases m.library with
  | string l =>
    funext k
    by_cases hk : k = l
    · subst hk
      simp [Shelf.textOf]
    · simp [Shelf.textOf, hk]
  | _ => rfl

def recording : RecordingStore Ledger where
  store := store
  view := view
  undisturbed := ⟨keeps_inWorld _, fun _ => keeps_inWorld _, fun _ => keeps_inWorld _,
    keeps_inWorld _, fun _ _ => keeps_inWorld _, fun _ => keeps_inWorld _⟩
  logged _ _ _ := rfl
  kept _ _ := rfl
  draw _ s := ⟨s.supply, _, rfl, rfl⟩
  load _ _ := ⟨_, rfl, rfl⟩
  save _ _ := ⟨_, rfl, rfl⟩
  loadManifest _ _ := ⟨_, rfl, rfl⟩
  saveManifest m s := ⟨m.updated, _, rfl, view_putManifest s m⟩

/-- A ledger without entries whose world has a source. -/
def ofSource (text : String) : Ledger :=
  { disk := MemoryDisk.put {} ["lib.hlsl"] (.file text.toUTF8) }

/-- What an update leaves, in another world. -/
def updated (l : Library) (p : Project) (s : Ledger) (w : World) : Ledger :=
  { (exec (l.update p store) s).2 with toWorld := w }

theorem view_setWorld (s : Ledger) (w : World) : view { s with toWorld := w } = view s := rfl

theorem view_updated (l : Library) (p : Project) (s : Ledger) (w : World) :
    recording.view (updated l p s w) = recording.view (exec (l.update p recording.store) s).2 :=
  view_setWorld (exec (l.update p store) s).2 w

theorem typed_ofSource (text library : String) :
    (recording.view (ofSource text)).Typed library :=
  ⟨⟨rfl, [], rfl⟩, nofun, nofun⟩

end Ledger

end ShaderGraph
