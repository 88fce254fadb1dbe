import ShaderGraph.Proofs.Scene
import ShaderGraph.Proofs.Stored

/-!
# Scenes in memory

A theatre is a world with a list of the events to come, some before each operation of a program. It is
a scene, and what a watcher does in it can be computed.
-/

namespace ShaderGraph

open Routine

/-- A world in which events come. -/
structure Theatre where
  world : World
  /-- the events that have come to handlers -/
  deliveries : List Delivery := []
  /-- the events that come before each of the next operations, with the libraries whose handlers they
  come to -/
  upcoming : List (List (String × FileEvent)) := []

namespace Theatre

/-- An event comes to the handler of a library, if it has one. -/
def receive (t : Theatre) (e : String × FileEvent) : Theatre :=
  match t.world.watcher.handlers.get? e.1 with
  | none => t
  | some h =>
    let d : Delivery := ⟨e.1, e.2, t.world.current.toText, h.files⟩
    { t with
      world := { t.world with watcher := (t.world.watcher.receive e.1 d.path).2 }
      deliveries := t.deliveries ++ [d] }

/-- The events come that come before the next operation. -/
def await (t : Theatre) : Theatre :=
  { (t.upcoming.headD []).foldl receive t with upcoming := t.upcoming.tail }

/-- An operation on the world, once events have come. -/
def perform {α : Type} (x : InWorld α) : Routine Theatre α := fun t =>
  let r := exec x t.await.world
  (r.1, { t.await with world := r.2 })

instance : MonadLift InWorld (Routine Theatre) where
  monadLift := perform

/-- What is seen of the watcher in a theatre. -/
def stage (t : Theatre) : Stage := ⟨t.world.watcher, t.deliveries, t.world.calls⟩

theorem waits_receive (t : Theatre) (e : String × FileEvent) :
    t.stage.Waits (t.receive e).stage := by
  unfold receive
  cases hget : t.world.watcher.handlers.get? e.1 with
  | none => exact .still
  | some h => exact .come (d := ⟨e.1, e.2, t.world.current.toText, h.files⟩) .still hget rfl

theorem waits_await (t : Theatre) : t.stage.Waits t.await.stage := by
  have hall : ∀ (es : List (String × FileEvent)) (t : Theatre),
      t.stage.Waits (es.foldl receive t).stage := by
    intro es
    induction es with
    | nil => exact fun _ => .still
    | cons e es ih => exact fun t => (t.waits_receive e).trans (ih _)
  exact hall _ t

/-- What a watcher and its observer are in a world. -/
def watching (w : World) : Watcher × List ObserverCall := (w.watcher, w.calls)

theorem watching_change (f : MemoryDisk → Except DiskError MemoryDisk) (w : World) :
    watching (exec (InWorld.change f) w).2 = watching w := by
  rcases hx : exec (InWorld.change f) w with ⟨result, t⟩
  obtain ⟨-, -, rfl⟩ | ⟨d, -, -, rfl⟩ := InWorld.exec_change_cases hx <;> rfl

theorem calm_watching : CalmDisk (Same watching) where
  current _ := rfl
  isFile p w := by
    change watching (exec (InWorld.ask _ p) w).2 = _
    rw [InWorld.exec_ask]
  readText p w := by
    change watching _ = _
    rw [InWorld.exec_readText]
  pause _ := rfl
  log _ _ _ := rfl
  keep _ _ := rfl
  isDirectory p w := by
    change watching (exec (InWorld.ask _ p) w).2 = _
    rw [InWorld.exec_ask]
  isThere p w := by
    change watching _ = _
    rw [InWorld.exec_isThere]
  makeDirectory p w := by
    rcases hx : exec (Disk.makeDirectory p : InWorld Unit) w with ⟨result, t⟩
    obtain ⟨d, -, rfl⟩ := InWorld.exists_of_makeDirectory hx
    rfl
  writeText p text w := by
    rw [InWorld.exec_writeText]
    exact watching_change _ w
  rename p q w := by
    rw [InWorld.exec_rename]
    exact watching_change _ w
  now _ := rfl
  draw _ _ := rfl

theorem along_perform {α : Type} {x : InWorld α} (hx : Along (Same watching) x) :
    Along (fun s t : Theatre => s.stage.Waits t.stage) (perform x) := by
  intro t
  have hsame : watching (exec x t.await.world).2 = watching t.await.world := hx _
  obtain ⟨hwatcher, hcalls⟩ := Prod.mk.inj hsame
  have hstage : (exec (perform x) t).2.stage = t.await.stage := by
    change Stage.mk (exec x t.await.world).2.watcher _ (exec x t.await.world).2.calls = _
    rw [hwatcher, hcalls]
    rfl
  exact hstage ▸ t.waits_await

/-- A theatre is a scene. -/
def scene : Scene Theatre where
  stage := stage
  calm :=
    { current := along_perform calm_watching.current
      isFile := fun p => along_perform (calm_watching.isFile p)
      readText := fun p => along_perform (calm_watching.readText p)
      pause := along_perform calm_watching.pause
      log := fun severity message => along_perform (calm_watching.log severity message)
      keep := fun d => along_perform (calm_watching.keep d)
      isDirectory := fun p => along_perform (calm_watching.isDirectory p)
      isThere := fun p => along_perform (calm_watching.isThere p)
      makeDirectory := fun p => along_perform (calm_watching.makeDirectory p)
      writeText := fun p text => along_perform (calm_watching.writeText p text)
      rename := fun p q => along_perform (calm_watching.rename p q)
      now := along_perform calm_watching.now
      draw := fun f => along_perform (calm_watching.draw f) }
  look t := ⟨_, t.waits_await, rfl⟩
  change _ t := ⟨t.await.stage, _, t.waits_await, rfl, rfl⟩
  call _ t := ⟨t.await.stage, _, t.waits_await, rfl, rfl⟩

end Theatre

end ShaderGraph
