import Mathlib.Data.List.Induction
import ShaderGraph.Proofs.OrderedMap
import ShaderGraph.Watch.Watcher

/-!
# Registrations with an observer

An observer has one watch for each directory, shared by all handlers that are scheduled for it, and a
watch that is given up takes all of its handlers with it.
-/

namespace ShaderGraph

/-! ## Registries -/

/-- What an observer knows of the calls that were made. -/
structure Registry where
  /-- the directories of the watches, by their numbers -/
  directories : OrderedMap Nat String := []
  /-- the libraries whose handlers are called, each with the directory that it is about -/
  handlers : List (String × String) := []

namespace Registry

/-- What an observer knows after a call. A watch that is given up is the one of its directory. -/
def after (r : Registry) : ObserverCall → Registry
  | .schedule n library directory =>
    { directories := r.directories.insert n directory, handlers := r.handlers ++ [(library, directory)] }
  | .unschedule n =>
    { r with handlers := r.handlers.filter fun h => r.directories.get? n ≠ some h.2 }
  | .start | .stop | .join => r

/-- What an observer knows after some calls. -/
def ofCalls (calls : List ObserverCall) : Registry := calls.foldl after {}

theorem ofCalls_concat (calls : List ObserverCall) (c : ObserverCall) :
    ofCalls (calls ++ [c]) = (ofCalls calls).after c := by
  rw [ofCalls, List.foldl_append]
  rfl

end Registry

/-- Whether the handler of a library is registered for a directory after some calls. -/
def Registered (calls : List ObserverCall) (library directory : String) : Prop :=
  (library, directory) ∈ (Registry.ofCalls calls).handlers

instance (calls : List ObserverCall) (library directory : String) :
    Decidable (Registered calls library directory) := by
  unfold Registered
  infer_instance

/-- Whether a call may follow others: a number is given to one watch only, and only watches that there
have been are given up. -/
def ObserverCall.Follows (calls : List ObserverCall) : ObserverCall → Prop
  | .schedule n _ _ => ∀ library directory, .schedule n library directory ∉ calls
  | .unschedule n => ∃ library directory, .schedule n library directory ∈ calls
  | .start | .stop | .join => True

/-- Calls of which each may follow the ones before it. -/
def Tidy (calls : List ObserverCall) : Prop :=
  ∀ earlier c later, calls = earlier ++ c :: later → c.Follows earlier

variable {calls later : List ObserverCall} {c : ObserverCall} {n : Nat}
  {library library' directory directory' : String}

theorem tidy_nil : Tidy [] := by
  intro earlier c later h
  simp at h

theorem tidy_concat : Tidy (calls ++ [c]) ↔ Tidy calls ∧ c.Follows calls := by
  constructor
  · refine fun h => ⟨fun earlier c' later heq => h earlier c' (later ++ [c]) ?_, h calls c [] rfl⟩
    rw [heq, List.append_assoc, List.cons_append]
  · rintro ⟨h, hc⟩ earlier c' later heq
    obtain rfl | ⟨rest, last, rfl⟩ := later.eq_nil_or_concat'
    · obtain ⟨rfl, hlast⟩ := List.append_inj' heq rfl
      exact (List.cons.inj hlast).1 ▸ hc
    · rw [← List.cons_append, ← List.append_assoc] at heq
      exact h earlier c' rest (List.append_inj' heq rfl).1

namespace Tidy

theorem unique (h : Tidy calls) (hc : .schedule n library directory ∈ calls)
    (hc' : .schedule n library' directory' ∈ calls) : library' = library ∧ directory' = directory := by
  induction calls using List.reverseRecOn with
  | nil => cases hc
  | append_singleton calls c ih =>
    obtain ⟨htidy, hfollows⟩ := tidy_concat.1 h
    rw [List.mem_append, List.mem_singleton] at hc hc'
    rcases hc with hc | rfl <;> rcases hc' with hc' | hc'
    · exact ih htidy hc hc'
    · subst hc'
      exact absurd hc (hfollows _ _)
    · exact absurd hc' (hfollows _ _)
    · cases hc'
      exact ⟨rfl, rfl⟩

theorem exists_scheduled (h : Tidy calls) (hc : .unschedule n ∈ calls) :
    ∃ library directory, .schedule n library directory ∈ calls := by
  obtain ⟨earlier, later, rfl⟩ := List.append_of_mem hc
  obtain ⟨library, directory, hscheduled⟩ := h earlier _ later rfl
  exact ⟨library, directory, List.mem_append_left _ hscheduled⟩

theorem get?_directories (h : Tidy calls) : (Registry.ofCalls calls).directories.get? n = some directory
    ↔ ∃ library, .schedule n library directory ∈ calls := by
  induction calls using List.reverseRecOn with
  | nil => simp [Registry.ofCalls, OrderedMap.get?]
  | append_singleton calls c ih =>
    obtain ⟨htidy, hfollows⟩ := tidy_concat.1 h
    rw [Registry.ofCalls_concat]
    cases c with
    | schedule m library' directory' =>
      change (OrderedMap.insert _ m directory').get? n = _ ↔ _
      rw [OrderedMap.get?_insert]
      split_ifs with hn
      · subst hn
        simp [hfollows _ directory, eq_comm]
      · simp [ih htidy, hn]
    | unschedule m =>
      simpa [Registry.after] using ih htidy
    | start | stop | join => simpa [Registry.after] using ih htidy

end Tidy

theorem registered_concat_schedule : Registered (calls ++ [.schedule n library' directory']) library directory
    ↔ Registered calls library directory ∨ library = library' ∧ directory = directory' := by
  unfold Registered
  rw [Registry.ofCalls_concat]
  simp [Registry.after]

theorem registered_concat_unschedule (h : Tidy calls) :
    Registered (calls ++ [.unschedule n]) library directory
      ↔ Registered calls library directory ∧ ∀ other, .schedule n other directory ∉ calls := by
  have hdirectory : (Registry.ofCalls calls).directories.get? n ≠ some directory
      ↔ ∀ other, .schedule n other directory ∉ calls := by
    rw [ne_eq, h.get?_directories, not_exists]
  unfold Registered
  rw [← hdirectory, Registry.ofCalls_concat]
  simp [Registry.after]

/-- A library that is not registered again stays so until a watch of the directory is given up. -/
theorem Tidy.registered_append (h : Tidy (calls ++ later))
    (hlater : ∀ n, .schedule n library directory ∉ later) :
    Registered (calls ++ later) library directory ↔ Registered calls library directory
      ∧ ∀ n other, .schedule n other directory ∈ calls ++ later → .unschedule n ∉ later := by
  induction later using List.reverseRecOn with
  | nil => simp
  | append_singleton later c ih =>
    rw [← List.append_assoc] at h ⊢
    obtain ⟨htidy, hfollows⟩ := tidy_concat.1 h
    specialize ih htidy fun n hn => hlater n (List.mem_append_left _ hn)
    cases c with
    | schedule m library' directory' =>
      have hother : ¬(library = library' ∧ directory = directory') := by
        rintro ⟨rfl, rfl⟩
        exact hlater m (by simp)
      have hnew : .unschedule m ∉ later := fun hm =>
        let ⟨_, _, hscheduled⟩ := htidy.exists_scheduled (List.mem_append_right _ hm)
        hfollows _ _ hscheduled
      rw [registered_concat_schedule, ih]
      constructor
      · rintro (⟨h, hkept⟩ | h)
        · refine ⟨h, fun n other hn => ?_⟩
          rcases List.mem_append.1 hn with hn | hn
          · simpa using hkept n other hn
          · cases List.mem_singleton.1 hn
            simpa using hnew
        · exact absurd h hother
      · rintro ⟨h, hkept⟩
        exact .inl ⟨h, fun n other hn hmem =>
          hkept n other (List.mem_append_left _ hn) (List.mem_append_left _ hmem)⟩
    | unschedule m =>
      rw [registered_concat_unschedule htidy, ih]
      constructor
      · rintro ⟨⟨h, hkept⟩, hm⟩
        refine ⟨h, fun n other hn hmem => ?_⟩
        replace hn : .schedule n other directory ∈ calls ++ later := by simpa using hn
        rcases List.mem_append.1 hmem with hmem | hmem
        · exact hkept n other hn hmem
        · cases List.mem_singleton.1 hmem
          exact hm other hn
      · rintro ⟨h, hkept⟩
        exact ⟨⟨h, fun n other hn hmem =>
            hkept n other (List.mem_append_left _ hn) (List.mem_append_left _ hmem)⟩,
          fun other hn => hkept m other (List.mem_append_left _ hn) (by simp)⟩
    | start | stop | join =>
      rw [Registered, Registry.ofCalls_concat]
      simpa [Registered, Registry.after] using ih

theorem registered_append_of_schedule {cs : List ObserverCall}
    (hcs : ∀ c ∈ cs, ∃ n l d, c = .schedule n l d) :
    Registered (calls ++ cs) library directory
      ↔ Registered calls library directory ∨ ∃ n, .schedule n library directory ∈ cs := by
  induction cs using List.reverseRecOn with
  | nil => simp
  | append_singleton cs c ih =>
    obtain ⟨n, l, d, rfl⟩ := hcs c (by simp)
    rw [← List.append_assoc, registered_concat_schedule,
      ih fun c hc => hcs c (List.mem_append_left _ hc)]
    simp only [List.mem_append, List.mem_singleton, ObserverCall.schedule.injEq, exists_or, or_assoc]
    simp

end ShaderGraph
