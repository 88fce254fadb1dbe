import Mathlib.Logic.Function.Basic
import Mathlib.Order.Defs.Unbundled
import ShaderGraph.Update.Library

/-!
# Routines and the stores they meet

A routine is a program that changes a state and may end in a fault; what it did before remains. What
it does to the artifacts of a store is seen through a view of the state: reading, logging and
drawing identifiers keep it, and a store shows in it what is loaded and saved.
-/

namespace ShaderGraph

/-- A program with a state. -/
abbrev Routine (σ : Type) := ExceptT Fault (StateM σ)

namespace Routine

variable {σ ν α β : Type}

/-- The result of a program and the state it leaves. -/
def exec (x : Routine σ α) (s : σ) : Except Fault α × σ := x.run.run s

theorem exec_pure (a : α) (s : σ) : exec (pure a : Routine σ α) s = (.ok a, s) := rfl

theorem exec_bind (x : Routine σ α) (f : α → Routine σ β) (s : σ) :
    exec (x >>= f) s = match exec x s with
      | (.ok a, t) => exec (f a) t
      | (.error e, t) => (.error e, t) := by
  simp only [exec, bind, ExceptT.bind, ExceptT.mk, ExceptT.run, ExceptT.bindCont, StateT.run,
    StateT.bind]
  rcases x s with ⟨e | a, t⟩ <;> rfl

theorem exec_bind_pure (x : Routine σ α) (f : α → β) (s : σ) :
    exec (x >>= fun a => pure (f a)) s = ((exec x s).1.map f, (exec x s).2) := by
  rw [exec_bind]
  rcases exec x s with ⟨e | a, t⟩ <;> rfl

theorem exec_of_fst {x : Routine σ α} {s : σ} {r : Except Fault α} (h : (exec x s).1 = r) :
    exec x s = (r, (exec x s).2) := Prod.ext h rfl

theorem exists_exec_of_isSome {x : Routine σ α} {s : σ} (h : (exec x s).1.toOption.isSome) :
    ∃ a, exec x s = (.ok a, (exec x s).2) := by
  rcases hx : exec x s with ⟨e | a, t⟩ <;> rw [hx] at h
  · cases h
  · exact ⟨a, rfl⟩

/-- What holds of both outcomes of the first part of a program holds of the program. -/
theorem exec_bind_cases {x : Routine σ α} {f : α → Routine σ β} {s : σ}
    {Q : Except Fault β → σ → Prop} (herror : ∀ e t, exec x s = (.error e, t) → Q (.error e) t)
    (hok : ∀ a t, exec x s = (.ok a, t) → Q (exec (f a) t).1 (exec (f a) t).2) :
    Q (exec (x >>= f) s).1 (exec (x >>= f) s).2 := by
  rw [exec_bind]
  split
  · rename_i a t h
    exact hok a t h
  · rename_i e t h
    exact herror e t h

/-- A program that comes to a result has come through its first part. -/
theorem exists_of_exec_bind {x : Routine σ α} {f : α → Routine σ β} {s t : σ} {b : β}
    (h : exec (x >>= f) s = (.ok b, t)) :
    ∃ a u, exec x s = (.ok a, u) ∧ exec (f a) u = (.ok b, t) := by
  rw [exec_bind] at h
  split at h
  · rename_i a u hx
    exact ⟨a, u, hx, h⟩
  · cases h

/-- A program that ends in a fault does so in one of its parts. -/
theorem error_of_exec_bind {x : Routine σ α} {f : α → Routine σ β} {s t : σ} {e : Fault}
    (h : exec (x >>= f) s = (.error e, t)) :
    exec x s = (.error e, t) ∨ ∃ a u, exec x s = (.ok a, u) ∧ exec (f a) u = (.error e, t) := by
  rw [exec_bind] at h
  split at h
  · rename_i a u hx
    exact .inr ⟨a, u, hx, h⟩
  · cases h
    exact .inl ‹_›

/-- A program whose result, if it comes to one, is as it should be. -/
def Yields (x : Routine σ α) (P : α → Prop) : Prop := ∀ s a, (exec x s).1 = .ok a → P a

theorem Yields.of_exec {x : Routine σ α} {P : α → Prop} {s t : σ} {a : α} (hx : Yields x P)
    (h : exec x s = (.ok a, t)) : P a :=
  hx s a (congrArg Prod.fst h)

theorem yields_pure {a : α} {P : α → Prop} (h : P a) : Yields (pure a : Routine σ α) P := by
  intro s b hb
  rw [exec_pure] at hb
  cases hb
  exact h

theorem Yields.bind {x : Routine σ α} {f : α → Routine σ β} {P : α → Prop} {Q : β → Prop}
    (hx : Yields x P) (hf : ∀ a, P a → Yields (f a) Q) : Yields (x >>= f) Q := by
  intro s b hb
  have hs := hx s
  rw [exec_bind] at hb
  split at hb
  · rename_i a t ha
    rw [ha] at hs
    exact hf a (hs a rfl) t b hb
  · cases hb

theorem yields_of_result {x : Routine σ α} : Yields x fun _ => True := fun _ _ _ => trivial

theorem yields_orFault {ε : Type} (fault : ε → Fault) (x : Except ε α) :
    Yields (orFault fault x : Routine σ α) fun a => x = .ok a := by
  cases x with
  | ok a => exact yields_pure rfl
  | error e => exact fun s a h => by cases h

/-- A program that leads from every state to one that comes after it. -/
def Along (R : σ → σ → Prop) (x : Routine σ α) : Prop := ∀ s, R s (exec x s).2

theorem Along.mono {R R' : σ → σ → Prop} {x : Routine σ α} (hx : Along R x)
    (h : ∀ s t, R s t → R' s t) : Along R' x := fun s => h _ _ (hx s)

theorem Along.of_exec {R : σ → σ → Prop} {x : Routine σ α} {r : Except Fault α} {s t : σ}
    (hx : Along R x) (h : exec x s = (r, t)) : R s t := by
  have hs := hx s
  rwa [h] at hs

section

variable {R : σ → σ → Prop} [IsPreorder σ R]

theorem along_pure (a : α) : Along R (pure a : Routine σ α) := fun s => refl s

theorem along_throw (e : Fault) : Along R (throw e : Routine σ α) := fun s => refl s

theorem Along.bind {x : Routine σ α} {f : α → Routine σ β} (hx : Along R x)
    (hf : ∀ a, Along R (f a)) : Along R (x >>= f) := by
  intro s
  have hs := hx s
  rw [exec_bind]
  split
  · rename_i a t hx
    rw [hx] at hs
    exact IsTrans.trans _ _ _ hs (hf a t)
  · rename_i e t hx
    rwa [hx] at hs

theorem along_orFault {ε : Type} (fault : ε → Fault) (x : Except ε α) :
    Along R (orFault fault x : Routine σ α) := by
  cases x with
  | ok a => exact along_pure a
  | error e => exact along_throw (fault e)

theorem along_foldlM {f : β → α → Routine σ β} (hf : ∀ b a, Along R (f b a)) :
    ∀ (as : List α) (b : β), Along R (as.foldlM f b)
  | [], _ => along_pure _
  | a :: as, b => by
    rw [List.foldlM_cons]
    exact (hf b a).bind fun b => along_foldlM hf as b

theorem along_forM {f : α → Routine σ PUnit} (hf : ∀ a, Along R (f a)) :
    ∀ xs : List α, Along R (xs.forM f)
  | [] => along_pure _
  | x :: xs => (hf x).bind fun _ => along_forM hf xs

theorem along_mapM {f : α → Routine σ β} :
    ∀ {xs : List α}, (∀ x ∈ xs, Along R (f x)) → Along R (xs.mapM f)
  | [], _ => along_pure _
  | x :: xs, hf => by
    rw [List.mapM_cons]
    exact (hf x List.mem_cons_self).bind fun _ =>
      (along_mapM fun x hx => hf x (List.mem_cons_of_mem _ hx)).bind fun _ => along_pure _

theorem along_filterM {p : α → Routine σ Bool} (hp : ∀ a, Along R (p a)) (as : List α) :
    Along R (as.filterM p) := by
  have haux : ∀ as acc : List α, Along R (as.filterAuxM p acc) := by
    intro as
    induction as with
    | nil => exact fun acc => along_pure _
    | cons a as ih => exact fun acc => (hp a).bind fun b => ih _
  exact (haux as []).bind fun _ => along_pure _

end

/-- States that show the same. -/
def Same (view : σ → ν) (s t : σ) : Prop := view t = view s

instance (view : σ → ν) : IsPreorder σ (Same view) where
  refl _ := rfl
  trans _ _ _ hst htv := Eq.trans htv hst

/-- A program that leaves a view of the state as it is. -/
def Keeps (view : σ → ν) (x : Routine σ α) : Prop := ∀ s, view (exec x s).2 = view s

section

variable {view : σ → ν}

theorem keeps_pure (a : α) : Keeps view (pure a : Routine σ α) := fun _ => rfl

theorem Keeps.comp {x : Routine σ α} (hx : Keeps view x) {μ : Type} (g : ν → μ) :
    Keeps (fun s => g (view s)) x := fun s => congrArg g (hx s)

theorem keeps_throw (e : Fault) : Keeps view (throw e : Routine σ α) := fun _ => rfl

theorem Keeps.of_exec {x : Routine σ α} {r : Except Fault α} {s t : σ} (hx : Keeps view x)
    (h : exec x s = (r, t)) : view t = view s := by
  have hs := hx s
  rwa [h] at hs

theorem Keeps.bind {x : Routine σ α} {f : α → Routine σ β} (hx : Keeps view x)
    (hf : ∀ a, Keeps view (f a)) : Keeps view (x >>= f) := by
  intro s
  have hs := hx s
  rw [exec_bind]
  split
  · rename_i a t hx
    rw [hx] at hs
    rw [hf a t, hs]
  · rename_i e t hx
    rwa [hx] at hs

theorem Keeps.exec_bind_cases {x : Routine σ α} {f : α → Routine σ β} {s : σ}
    {Q : Except Fault β → σ → Prop} (hx : Keeps view x)
    (herror : ∀ e t, view t = view s → Q (.error e) t)
    (hok : ∀ a t, exec x s = (.ok a, t) → view t = view s → Q (exec (f a) t).1 (exec (f a) t).2) :
    Q (exec (x >>= f) s).1 (exec (x >>= f) s).2 := by
  have hs := hx s
  refine Routine.exec_bind_cases (fun e t h => ?_) fun a t h => ?_ <;> rw [h] at hs
  · exact herror e t hs
  · exact hok a t h hs

theorem exec_orFault_bind_cases {ε : Type} {fault : ε → Fault} {x : Except ε α}
    {f : α → Routine σ β} {s : σ} {Q : Except Fault β → σ → Prop}
    (herror : ∀ e, x = .error e → Q (.error (fault e)) s)
    (hok : ∀ a, x = .ok a → Q (exec (f a) s).1 (exec (f a) s).2) :
    Q (exec (orFault fault x >>= f) s).1 (exec (orFault fault x >>= f) s).2 := by
  cases x with
  | ok a => exact hok a rfl
  | error e => exact herror e rfl

end

end Routine

open Routine

/-- Reading sources and telling messages leads along. -/
structure Calm {σ : Type} [Sources (Routine σ)] [Journal (Routine σ)] (R : σ → σ → Prop) : Prop where
  current : Along R (Sources.current : Routine σ DiskPath)
  isFile : ∀ p, Along R (Sources.isFile p : Routine σ Bool)
  readText : ∀ p, Along R (Sources.readText p : Routine σ (Except FileError String))
  pause : Along R (Sources.pause : Routine σ Unit)
  log : ∀ severity message, Along R (Journal.log severity message : Routine σ Unit)
  keep : ∀ d, Along R (Journal.keep d : Routine σ Unit)

namespace Calm

variable {σ : Type} [Sources (Routine σ)] [Journal (Routine σ)] {R : σ → σ → Prop} [IsPreorder σ R]
  (h : Calm R)

include h

theorem along_report (d : Diagnostic) : Along R (report d : Routine σ Unit) :=
  (h.keep d).bind fun _ => h.log _ _

theorem along_abort (r : UpdateReport) (source : DiskPath) (message : String) :
    Along R (r.abort source message : Routine σ UpdateReport) :=
  (h.along_report _).bind fun _ => along_pure _

theorem along_readSource (path : DiskPath) :
    Along R (readSource path : Routine σ (Except Failure String)) := by
  refine (h.readText path).bind fun r => ?_
  cases r with
  | ok text => exact along_pure _
  | error e => exact h.pause.bind fun _ => (h.readText path).bind fun _ => along_pure _

theorem along_readIncludes :
    ∀ is : List Include, Along R (readIncludes is : Routine σ (Except Failure (List String)))
  | [] => along_pure _
  | i :: is => by
    unfold readIncludes
    cases i.diskPath with
    | none => exact along_readIncludes is
    | some path =>
      refine (h.along_readSource _).bind fun r => ?_
      cases r with
      | error e => exact along_pure _
      | ok text => exact (along_readIncludes is).bind fun _ => along_pure _

end Calm

/-- Reading sources and telling messages leaves a view of the state as it is. -/
structure Undisturbed {σ ν : Type} [Sources (Routine σ)] [Journal (Routine σ)] (view : σ → ν) :
    Prop where
  current : Keeps view (Sources.current : Routine σ DiskPath)
  isFile : ∀ p, Keeps view (Sources.isFile p : Routine σ Bool)
  readText : ∀ p, Keeps view (Sources.readText p : Routine σ (Except FileError String))
  pause : Keeps view (Sources.pause : Routine σ Unit)
  log : ∀ severity message, Keeps view (Journal.log severity message : Routine σ Unit)
  keep : ∀ d, Keeps view (Journal.keep d : Routine σ Unit)

namespace Undisturbed

variable {σ ν : Type} [Sources (Routine σ)] [Journal (Routine σ)] {view : σ → ν}
  (h : Undisturbed view)

include h

theorem calm : Calm (Same view) := ⟨h.current, h.isFile, h.readText, h.pause, h.log, h.keep⟩

theorem comp {μ : Type} (g : ν → μ) : Undisturbed fun s => g (view s) :=
  ⟨h.current.comp g, fun p => (h.isFile p).comp g, fun p => (h.readText p).comp g, h.pause.comp g,
    fun severity message => (h.log severity message).comp g, fun d => (h.keep d).comp g⟩

theorem keeps_report (d : Diagnostic) : Keeps view (report d : Routine σ Unit) :=
  h.calm.along_report d

end Undisturbed

/-- A store whose artifacts can be seen in the state, and surroundings that leave them alone. -/
structure LawfulStore (σ : Type) [Sources (Routine σ)] [Journal (Routine σ)]
    [MonadStateOf Supply (Routine σ)] where
  store : ArtifactStore (Routine σ)
  /-- the artifact of a function -/
  artifact : σ → String → Option ArtifactRecord
  current : Keeps artifact (Sources.current : Routine σ DiskPath)
  isFile : ∀ p, Keeps artifact (Sources.isFile p : Routine σ Bool)
  readText : ∀ p, Keeps artifact (Sources.readText p : Routine σ (Except FileError String))
  pause : Keeps artifact (Sources.pause : Routine σ Unit)
  log : ∀ severity message, Keeps artifact (Journal.log severity message : Routine σ Unit)
  keep : ∀ d, Keeps artifact (Journal.keep d : Routine σ Unit)
  draw : ∀ {α : Type} (f : Supply → α × Supply),
    Keeps artifact (modifyGetThe Supply f : Routine σ α)
      ∧ ∀ s, ∃ supply, (exec (modifyGetThe Supply f : Routine σ α) s).1 = .ok (f supply).1
  load : ∀ name, Keeps artifact (store.load name)
  loaded : ∀ name s a, (exec (store.load name) s).1 = .ok a → a = artifact s name
  saved : ∀ (a : Artifact) s, (exec (store.save a.record) s).1 = .ok () →
    artifact (exec (store.save a.record) s).2
      = Function.update (artifact s) a.name (some a.record)
  notSaved : ∀ (a : Artifact) s e, (exec (store.save a.record) s).1 = .error e →
    artifact (exec (store.save a.record) s).2 = artifact s
  loadManifest : ∀ library, Keeps artifact (store.loadManifest library)
  saveManifest : ∀ manifest, Keeps artifact (store.saveManifest manifest)

theorem LawfulStore.undisturbed {σ : Type} [Sources (Routine σ)] [Journal (Routine σ)]
    [MonadStateOf Supply (Routine σ)] (D : LawfulStore σ) : Undisturbed D.artifact :=
  ⟨D.current, D.isFile, D.readText, D.pause, D.log, D.keep⟩

end ShaderGraph
