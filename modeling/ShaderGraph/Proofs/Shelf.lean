import ShaderGraph.Memory.World
import ShaderGraph.Proofs.Routine

/-!
# Stores in memory

A shelf keeps artifacts and manifests beside a world, under their names and as they are. It is a
lawful store: whatever a program does in the world leaves the shelf alone.
-/

namespace ShaderGraph

open Routine

/-- A world with a store beside it. -/
structure Shelf extends World where
  artifacts : String → Option ArtifactRecord := fun _ => none
  manifests : String → Option Manifest := fun _ => none

namespace Shelf

/-- A program that runs in the world. -/
def inWorld {α : Type} (x : InWorld α) : Routine Shelf α := fun s =>
  ((exec x s.toWorld).1, { s with toWorld := (exec x s.toWorld).2 })

instance : MonadLift InWorld (Routine Shelf) := ⟨inWorld⟩

/-- The text that a value is, if it is one. -/
def textOf : Json → Option String
  | .string s => some s
  | _ => none

/-- A store with one more entry. -/
def putAt {α : Type} (entries : String → Option α) (name : Json) (a : α) : String → Option α :=
  match textOf name with
  | some s => Function.update entries s (some a)
  | none => entries

/-- The operations of the store. -/
def store : ArtifactStore (Routine Shelf) where
  load name := return (← getThe Shelf).artifacts name
  save a := modifyThe Shelf fun s => { s with artifacts := putAt s.artifacts a.name a }
  loadManifest library :=
    return ((← getThe Shelf).manifests library).getD { library := .string library }
  saveManifest m := modifyThe Shelf fun s => { s with manifests := putAt s.manifests m.library m }

theorem keeps_inWorld {α : Type} (x : InWorld α) : Keeps artifacts (inWorld x) := fun _ => rfl

/-- A shelf loads what was last saved under a name. -/
def lawful : LawfulStore Shelf where
  store := store
  artifact := artifacts
  current := keeps_inWorld _
  isFile _ := keeps_inWorld _
  readText _ := keeps_inWorld _
  pause := keeps_inWorld _
  log _ _ := keeps_inWorld _
  keep _ := keeps_inWorld _
  draw _ := ⟨keeps_inWorld _, fun s => ⟨s.supply, rfl⟩⟩
  load _ _ := rfl
  loaded _ _ _ h := (Except.ok.inj h).symm
  saved _ _ _ := rfl
  notSaved _ _ _ h := nomatch h
  loadManifest _ _ := rfl
  saveManifest _ _ := rfl

end Shelf

end ShaderGraph
