import ShaderGraph.Proofs.Scene

/-!
# Histories of watchers

What happens while a watcher is at work is told in order: the events that come to handlers, the looks
at flags, and the updates that have established watches. A state is reached by steps from one in
which no library has a handler; every start and every tick is made of such steps.
-/

namespace ShaderGraph

open Routine

/-- What happens while a watcher is at work. -/
inductive Happening (σ : Type) where
  | delivered (d : Delivery)
  /-- the flag of a library was looked at -/
  | consumed (library : String)
  /-- a library was updated, and depends on some files; those of their directories that were there are
  watched for it, in a state -/
  | refreshed (library : String) (files : List DiskPath) (directories : List String) (state : σ)
  /-- the watches of a library were given up, and a fault kept them from being established anew -/
  | broke (library : String)

/-- Something of one kind has happened, and nothing of another kind since then. -/
def Since {α : Type} (p q : α → Prop) (hist : List α) : Prop :=
  ∃ before x after, hist = before ++ x :: after ∧ p x ∧ ∀ y ∈ after, ¬q y

theorem since_append {α : Type} {p q : α → Prop} {hist new : List α} :
    Since p q (hist ++ new) ↔ Since p q new ∨ Since p q hist ∧ ∀ y ∈ new, ¬q y := by
  constructor
  · rintro ⟨before, x, after, heq, hp, hafter⟩
    obtain ⟨rest, rfl, hnew⟩ | ⟨rest, rfl, hrest⟩ := List.append_eq_append_iff.1 heq
    · exact .inl ⟨rest, x, after, hnew, hp, hafter⟩
    · cases rest with
      | nil => exact .inl ⟨[], x, after, hrest.symm, hp, hafter⟩
      | cons y rest =>
        obtain ⟨rfl, rfl⟩ := List.cons.inj hrest
        exact .inr ⟨⟨before, x, rest, rfl, hp, fun y hy => hafter y (List.mem_append_left _ hy)⟩,
          fun y hy => hafter y (List.mem_append_right _ hy)⟩
  · rintro (⟨before, x, after, rfl, h⟩ | ⟨⟨before, x, after, rfl, hp, hafter⟩, hnew⟩)
    · exact ⟨hist ++ before, x, after, (List.append_assoc _ _ _).symm, h⟩
    · refine ⟨before, x, after ++ new, by simp, hp, fun y hy => ?_⟩
      exact (List.mem_append.1 hy).elim (hafter y) (hnew y)

theorem since_singleton {α : Type} {p q : α → Prop} {x : α} : Since p q [x] ↔ p x := by
  refine ⟨fun ⟨before, y, after, heq, hp, _⟩ => ?_, fun hp => ⟨[], x, [], rfl, hp, by simp⟩⟩
  have hmem : y ∈ [x] := heq ▸ by simp
  exact List.mem_singleton.1 hmem ▸ hp

theorem Since.exists_mem {α : Type} {p q : α → Prop} {hist : List α} (h : Since p q hist) :
    ∃ x ∈ hist, p x := by
  obtain ⟨before, x, after, rfl, hp, -⟩ := h
  exact ⟨x, by simp, hp⟩

namespace Scene

variable {σ : Type} [Disk (Routine σ)] [Journal (Routine σ)] [Clock (Routine σ)]
  [MonadStateOf Supply (Routine σ)] [MonadStateOf Watcher (Routine σ)] [Observer (Routine σ)]
  (S : Scene σ)

/-- The events that came to handlers from a state to a later one. -/
def came (s t : σ) : List (Happening σ) :=
  ((S.stage t).deliveries.drop (S.stage s).deliveries.length).map .delivered

/-- A step from a state, with what happens in it. -/
inductive Step (s : σ) : List (Happening σ) → σ → Prop
  | waited {t : σ} (h : (S.stage s).Waits (S.stage t)) : Step s (S.came s t) t
  | polled {t : σ} {pending : Bool} (name : String)
    (h : exec (modifyGetThe Watcher (·.poll name) : Routine σ Bool) s = (.ok pending, t)) :
    Step s (S.came s t ++ [.consumed name]) t
  | started {t : σ} (h : exec (Observer.call .start : Routine σ Unit) s = (.ok (), t)) :
    Step s (S.came s t) t
  | stopped {t : σ} {l : Library} {e : Fault} (hl : l ∈ (S.stage s).watcher.project.libraries)
    (h : exec (Watcher.bring l : Routine σ UpdateReport) s = (.error e, t)) : Step s (S.came s t) t
  | broken {t u : σ} {l : Library} {r : UpdateReport} {e : Fault}
    (hl : l ∈ (S.stage s).watcher.project.libraries)
    (hbring : exec (Watcher.bring l : Routine σ UpdateReport) s = (.ok r, u))
    (h : exec (Watcher.refresh l r : Routine σ Unit) u = (.error e, t)) :
    Step s (S.came s t ++ [.broke l.name]) t
  | updated {t u v w : σ} {l : Library} {r : UpdateReport} {files : List DiskPath}
    {directories : List String}
    (hl : l ∈ (S.stage s).watcher.project.libraries)
    (hbring : exec (Watcher.bring l : Routine σ UpdateReport) s = (.ok r, u))
    (hsettle : exec (Watcher.settle l r : Routine σ (List DiskPath)) u = (.ok files, v))
    (hdirectories : exec (Watcher.directoriesOf files : Routine σ (List String)) v
      = (.ok directories, w))
    (hwatch : exec (Watcher.watch l files : Routine σ Unit) v = (.ok (), t)) :
    Step s (S.came s t ++ [.refreshed l.name files directories t]) t

/-- From a state to a later one, with what has happened on the way. -/
inductive Leads (s : σ) : List (Happening σ) → σ → Prop
  | here : Leads s [] s
  | step {hist new : List (Happening σ)} {t v : σ} (h : Leads s hist t) (hstep : S.Step t new v) :
    Leads s (hist ++ new) v

/-- A state that is reached, with all that has happened since no library had a handler. -/
def Reached (hist : List (Happening σ)) (t : σ) : Prop :=
  ∃ s, (S.stage s).watcher.handlers = [] ∧ (S.stage s).calls = [] ∧ S.Leads s hist t

variable {S} {s t v : σ} {hist new : List (Happening σ)} {ls : List Library} {l : Library}

theorem came_eq {ds : List Delivery}
    (h : (S.stage t).deliveries = (S.stage s).deliveries ++ ds) : S.came s t = ds.map .delivered := by
  rw [came, h, List.drop_left]

theorem eq_delivered_of_mem_came {x : Happening σ} (h : x ∈ S.came s t) : ∃ d, x = .delivered d :=
  let ⟨d, _, heq⟩ := List.mem_map.1 h
  ⟨d, heq.symm⟩

theorem Leads.trans (h : S.Leads s hist t) (h' : S.Leads t new v) : S.Leads s (hist ++ new) v := by
  induction h' with
  | here => rwa [List.append_nil]
  | step _ hstep ih =>
    rw [← List.append_assoc]
    exact ih.step hstep

theorem Step.leads (h : S.Step s new t) : S.Leads s new t := .step .here h

theorem Reached.leads (h : S.Reached hist s) (h' : S.Leads s new t) : S.Reached (hist ++ new) t := by
  obtain ⟨first, hhandlers, hcalls, hleads⟩ := h
  exact ⟨first, hhandlers, hcalls, hleads.trans h'⟩

/-! ## What steps keep -/

/-- What a step keeps: the project, the handlers that there are, and whose they are. -/
structure Keeps (S : Scene σ) (s t : σ) : Prop where
  project : (S.stage t).watcher.project = (S.stage s).watcher.project
  keys : (S.stage s).watcher.handlers.keys <+: (S.stage t).watcher.handlers.keys
  sound : (S.stage s).Sound → (S.stage t).Sound

theorem Keeps.trans (h : S.Keeps s t) (h' : S.Keeps t v) : S.Keeps s v :=
  ⟨h'.project.trans h.project, h.keys.trans h'.keys, fun hs => h'.sound (h.sound hs)⟩

/-- A change of the watcher as a step: events come, and then it is made. -/
theorem exists_of_change {α : Type} {f : Watcher → α × Watcher} {a : α}
    (h : exec (modifyGetThe Watcher f : Routine σ α) s = (.ok a, t)) :
    ∃ u, (S.stage s).Waits u ∧ a = (f u.watcher).1
      ∧ S.stage t = { u with watcher := (f u.watcher).2 } := by
  obtain ⟨u, t', hwaits, ht, hexec⟩ := S.change f s
  obtain ⟨ha, rfl⟩ := Prod.mk.inj (h.symm.trans hexec)
  exact ⟨u, hwaits, Except.ok.inj ha, ht⟩

/-- A step is one of updates of libraries of the project, or it looks at a flag. -/
theorem Step.goes (h : S.Step s new t) :
    (S.Goes (S.stage s).watcher.project.libraries s t ∧ ∃ rest, new = S.came s t ++ rest
      ∧ (∀ name, .consumed name ∉ rest) ∧ ∀ d, .delivered d ∉ rest)
    ∨ ∃ name u, new = S.came s t ++ [.consumed name] ∧ (S.stage s).Waits u
      ∧ S.stage t = { u with watcher := (u.watcher.poll name).2 } := by
  cases h with
  | waited h => exact .inl ⟨h.goes, [], (List.append_nil _).symm, by simp⟩
  | polled name h =>
    obtain ⟨u, hwaits, -, ht⟩ := exists_of_change h
    exact .inr ⟨name, u, rfl, hwaits, ht⟩
  | started h => exact .inl ⟨(along_call _).of_exec h, [], (List.append_nil _).symm, by simp⟩
  | stopped hl h =>
    exact .inl ⟨(along_bring_goes _).of_exec h, [], (List.append_nil _).symm, by simp⟩
  | broken hl hbring h =>
    exact .inl ⟨Stage.Goes.trans ((along_bring_goes _).of_exec hbring)
      ((along_refresh hl _).of_exec h), _, rfl, by simp⟩
  | updated hl hbring hsettle _ hwatch =>
    exact .inl ⟨Stage.Goes.trans ((along_bring_goes _).of_exec hbring)
        (Stage.Goes.trans ((along_settle hl _).of_exec hsettle)
          ((along_watch hl _).of_exec hwatch)), _, rfl, by simp⟩

theorem Step.keeps (h : S.Step s new t) : S.Keeps s t := by
  obtain ⟨hgoes, -⟩ | ⟨name, u, -, hwaits, ht⟩ := h.goes
  · exact ⟨hgoes.project, hgoes.keys, hgoes.sound fun _ h => h⟩
  · have hagrees := hwaits.agrees
    obtain ⟨hproject, -⟩ := u.watcher.adjust_project name Handler.poll
    refine ⟨?_, ?_, fun hs => ?_⟩
    · rw [ht]
      exact hproject.trans hagrees.project
    · rw [ht]
      exact (hagrees.keys.symm.trans (u.watcher.keys_adjust _ _).symm) ▸ List.prefix_refl _
    · rw [ht]
      exact (hs.of_plan hagrees.project hagrees.keys hagrees.plan).of_plan hproject
        (u.watcher.keys_adjust _ _) (u.watcher.plan_poll name)

theorem Leads.keeps (h : S.Leads s hist t) : S.Keeps s t := by
  induction h with
  | here => exact ⟨rfl, List.prefix_refl _, fun hs => hs⟩
  | step _ hstep ih => exact ih.trans hstep.keeps

theorem Reached.sound (h : S.Reached hist t) : (S.stage t).Sound := by
  obtain ⟨s, hhandlers, -, hleads⟩ := h
  refine hleads.keeps.sound ⟨?_, fun name h hget => ?_⟩
  · rw [hhandlers]
    exact .nil
  · rw [hhandlers] at hget
    cases hget

/-! ## Updates, starts and ticks are made of steps -/

/-- A watcher of a project, whose handlers are those of libraries of the project, goes on by steps. -/
def Passes (S : Scene σ) (p : Project) (s t : σ) : Prop :=
  (S.stage s).watcher.project = p → (S.stage s).Sound → ∃ hist, S.Leads s hist t

instance (p : Project) : IsPreorder σ (S.Passes p) where
  refl _ _ _ := ⟨[], .here⟩
  trans _ _ _ hst htv := fun hp hs => by
    obtain ⟨hist, hleads⟩ := hst hp hs
    obtain ⟨new, hleads'⟩ := htv (hleads.keeps.project.trans hp) (hleads.keeps.sound hs)
    exact ⟨hist ++ new, hleads.trans hleads'⟩

variable {p : Project} {name : String}

theorem passes_of_step (h : (S.stage s).watcher.project = p → S.Step s new t) : S.Passes p s t :=
  fun hp _ => ⟨new, (h hp).leads⟩

/-- What an update of a library has gone through when it comes to a report. -/
theorem exists_of_exec_update {r : UpdateReport}
    (h : exec (Watcher.update l : Routine σ UpdateReport) s = (.ok r, t)) :
    ∃ u files v, exec (Watcher.bring l : Routine σ UpdateReport) s = (.ok r, u)
      ∧ exec (Watcher.settle l r : Routine σ (List DiskPath)) u = (.ok files, v)
      ∧ exec (Watcher.watch l files : Routine σ Unit) v = (.ok (), t) := by
  unfold Watcher.update at h
  obtain ⟨r', u, hbring, hrest⟩ := exists_of_exec_bind h
  obtain ⟨⟨⟩, t', hrefresh, hend⟩ := exists_of_exec_bind hrest
  cases hend
  obtain ⟨files, v, hsettle, hwatch⟩ := exists_of_exec_bind hrefresh
  exact ⟨u, files, v, hbring, hsettle, hwatch⟩

/-- An update that comes to a result is a step. -/
theorem exists_step_of_update (hl : l ∈ (S.stage s).watcher.project.libraries) {r : UpdateReport}
    (h : exec (Watcher.update l : Routine σ UpdateReport) s = (.ok r, t)) :
    ∃ files directories, S.Step s (S.came s t ++ [.refreshed l.name files directories t]) t := by
  obtain ⟨u, files, v, hbring, hsettle, hwatch⟩ := exists_of_exec_update h
  obtain ⟨directories, w, hdirectories, -⟩ := exists_of_exec_bind hwatch
  exact ⟨files, directories, .updated hl hbring hsettle hdirectories hwatch⟩

theorem along_passes_update (hl : l ∈ p.libraries) :
    Along (S.Passes p) (Watcher.update l : Routine σ UpdateReport) := by
  intro s
  rcases h : exec (Watcher.update l : Routine σ UpdateReport) s with ⟨e | r, t⟩
  · obtain h | ⟨r, u, hbring, hrest⟩ := error_of_exec_bind h
    · exact passes_of_step fun hp => .stopped (hp ▸ hl) h
    · obtain h | ⟨_, _, _, hend⟩ := error_of_exec_bind hrest
      · exact passes_of_step fun hp => .broken (hp ▸ hl) hbring h
      · cases hend
  · intro hp _
    obtain ⟨files, directories, hstep⟩ := exists_step_of_update (hp ▸ hl) h
    exact ⟨_, hstep.leads⟩

/-- A turn of a library looks at its flag, and updates the library if it was raised. -/
theorem exec_turn (S : Scene σ) (name : String) (s : σ) :
    ∃ u v, (S.stage s).Waits u ∧ S.stage v = { u with watcher := (u.watcher.poll name).2 }
      ∧ exec (modifyGetThe Watcher (·.poll name) : Routine σ Bool) s
        = (.ok (u.watcher.isPending name), v)
      ∧ if u.watcher.isPending name then
          ∃ h t, (S.stage t).watcher.handlers.get? name = some h ∧ (S.stage v).Waits (S.stage t)
            ∧ exec (Watcher.turn name) s = ((exec (Watcher.update h.library) t).1.map some,
              (exec (Watcher.update h.library : Routine σ UpdateReport) t).2)
        else exec (Watcher.turn name) s = (.ok none, v) := by
  obtain ⟨u, v, hwaits, hv, hpoll⟩ := S.change (·.poll name) s
  change exec _ s = (.ok (u.watcher.isPending name), v) at hpoll
  refine ⟨u, v, hwaits, hv, hpoll, ?_⟩
  unfold Watcher.turn
  rw [exec_bind, hpoll]
  simp only
  split_ifs with hpending
  · obtain ⟨t, hwaits', hlook⟩ := S.look v
    have hmem : name ∈ (S.stage t).watcher.handlers.keys := by
      rw [hwaits'.agrees.keys, hv, Watcher.poll, Watcher.keys_adjust]
      refine OrderedMap.isSome_get?.1 ?_
      unfold Watcher.isPending at hpending
      cases hget : u.watcher.handlers.get? name <;> simp_all
    obtain ⟨h, hget⟩ := Option.isSome_iff_exists.1 (OrderedMap.isSome_get?.2 hmem)
    refine ⟨h, t, hget, hwaits', ?_⟩
    rw [exec_bind, hlook]
    simp only [hget]
    exact exec_bind_pure _ _ _
  · rfl

theorem along_passes_turn (name : String) :
    Along (S.Passes p) (Watcher.turn name : Routine σ (Option UpdateReport)) := by
  intro s hp hs
  obtain ⟨u, v, -, -, hpoll, hturn⟩ := S.exec_turn name s
  have hpolled : S.Step s _ v := .polled name hpoll
  split_ifs at hturn
  · obtain ⟨h, t, hget, hwaits, hexec⟩ := hturn
    have hwaited : S.Step v _ t := .waited hwaits
    have hkeeps := hpolled.keeps.trans hwaited.keeps
    have hproject := hkeeps.project.trans hp
    rw [hexec]
    have hmem := ((hkeeps.sound hs).owned name h hget).1
    obtain ⟨hist, hleads⟩ := along_passes_update (hproject ▸ hmem) t hproject (hkeeps.sound hs)
    exact ⟨_, hpolled.leads.trans (hwaited.leads.trans hleads)⟩
  · rw [hturn]
    exact ⟨_, hpolled.leads⟩

theorem along_passes_look : Along (S.Passes p) (getThe Watcher : Routine σ Watcher) :=
  along_look fun _ _ hwaits => passes_of_step fun _ => .waited hwaits

theorem along_passes_tick : Along (S.Passes p) (Watcher.tick : Routine σ (List UpdateReport)) :=
  along_passes_look.bind fun _ =>
    (along_mapM fun name _ => along_passes_turn name).bind fun _ => along_pure _

theorem along_passes_start : Along (S.Passes p) (Watcher.start : Routine σ (List UpdateReport)) := by
  intro s hp
  obtain ⟨t, hwaits, hlook⟩ := S.look s
  have hproject : (S.stage t).watcher.project = p := hwaits.agrees.project.trans hp
  have hrest : Along (S.Passes p) do
      let reports ← ((S.stage t).watcher.project.libraries.filter fun l =>
        l.updateOnFileChange || l.updateOnIncludeChange).mapM (Watcher.update (m := Routine σ))
      Observer.call .start
      return reports := by
    refine (along_mapM fun l hl => ?_).bind fun _ => Along.bind (fun s => ?_) fun _ => along_pure _
    · exact along_passes_update (hproject ▸ List.mem_of_mem_filter hl)
    · obtain ⟨v, t, -, -, hcall⟩ := S.call .start s
      rw [hcall]
      exact passes_of_step fun _ => .started hcall
  have hstart := IsTrans.trans _ _ _
    (passes_of_step (p := p) fun _ => Step.waited hwaits) (hrest t) hp
  unfold Watcher.start
  rw [exec_bind, hlook]
  exact hstart

/-- A program that goes on by steps leads from states that are reached to others. -/
theorem Reached.exists_leads (h : S.Reached hist s) {α : Type} {x : Routine σ α}
    (hx : ∀ p, Along (S.Passes p) x) : ∃ new, S.Leads s new (exec x s).2 := hx _ s rfl h.sound

/-- Every start is made of steps. -/
theorem Reached.start (h : S.Reached hist s) :
    ∃ new, S.Reached (hist ++ new) (exec (Watcher.start : Routine σ (List UpdateReport)) s).2 := by
  obtain ⟨new, hleads⟩ := h.exists_leads fun _ => along_passes_start
  exact ⟨new, h.leads hleads⟩

/-- Every tick is made of steps. -/
theorem Reached.tick (h : S.Reached hist s) :
    ∃ new, S.Reached (hist ++ new) (exec (Watcher.tick : Routine σ (List UpdateReport)) s).2 := by
  obtain ⟨new, hleads⟩ := h.exists_leads fun _ => along_passes_tick
  exact ⟨new, h.leads hleads⟩

end Scene

end ShaderGraph
