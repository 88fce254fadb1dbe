import Mathlib.Data.List.Nodup
import ShaderGraph.Proofs.History
import ShaderGraph.Proofs.Theatre

/-!
# Flags of handlers

A flag is raised exactly if an event about a file of the handler has come since the flag was last
looked at. So a turn of a library in a tick updates it if and only if there was such an event, however
the events come between the operations of the watcher; those that come while the library is being
updated are a reason for its next turn.
-/

namespace ShaderGraph

open Routine

/-- A library is due: since its flag was last looked at, an event has come to its handler that was
about one of its files. -/
def Due {σ : Type} (name : String) (hist : List (Happening σ)) : Prop :=
  Since (fun x => ∃ d, x = .delivered d ∧ d.library = name ∧ d.Hits) (· = .consumed name) hist

theorem due_append {σ : Type} {name : String} (hist new : List (Happening σ)) :
    Due name (hist ++ new) ↔ Due name new ∨ Due name hist ∧ .consumed name ∉ new := by
  refine since_append.trans (or_congr_right (and_congr_right fun _ => ?_))
  exact ⟨fun h hc => h _ hc rfl, fun h y hy heq => h (heq ▸ hy)⟩

theorem due_map_delivered {σ : Type} {name : String} {ds : List Delivery} :
    Due name (ds.map .delivered : List (Happening σ)) ↔ ∃ d ∈ ds, d.library = name ∧ d.Hits := by
  constructor
  · intro h
    obtain ⟨x, hx, d, rfl, hd⟩ := h.exists_mem
    obtain ⟨d', hd', heq⟩ := List.mem_map.1 hx
    exact ⟨d, Happening.delivered.inj heq ▸ hd', hd⟩
  · rintro ⟨d, hd, h⟩
    obtain ⟨before, after, rfl⟩ := List.append_of_mem hd
    exact ⟨before.map .delivered, .delivered d, after.map .delivered, by simp, ⟨d, rfl, h⟩, by simp⟩

theorem not_due_of_nothing {σ : Type} {name : String} {rest : List (Happening σ)}
    (hrest : ∀ d, .delivered d ∉ rest) : ¬Due name rest := fun h =>
  let ⟨_, hx, d, heq, _⟩ := h.exists_mem
  hrest d (heq ▸ hx)

/-- Flags are raised by the events that come, as far as these are told. -/
theorem Stage.Goes.isPending {σ : Type} {ls : List Library} {a b : Stage} {name : String}
    {hist : List (Happening σ)} (h : a.Goes ls b)
    (ha : a.watcher.isPending name = true ↔ Due name hist) :
    ∃ ds, b.deliveries = a.deliveries ++ ds
      ∧ (b.watcher.isPending name = true ↔ Due name (hist ++ ds.map .delivered)) := by
  obtain ⟨ds, hds, hpending⟩ := h.came
  refine ⟨ds, hds, ?_⟩
  rw [hpending, ha, due_append, due_map_delivered, or_comm]
  simp

namespace Scene

variable {σ : Type} [Disk (Routine σ)] [Journal (Routine σ)] [Clock (Routine σ)]
  [MonadStateOf Supply (Routine σ)] [MonadStateOf Watcher (Routine σ)] [Observer (Routine σ)]
  {S : Scene σ} {s t : σ} {hist new : List (Happening σ)} {name : String}

theorem Step.isPending (h : S.Step s new t)
    (hs : (S.stage s).watcher.isPending name = true ↔ Due name hist) :
    (S.stage t).watcher.isPending name = true ↔ Due name (hist ++ new) := by
  obtain ⟨hgoes, rest, rfl, hconsumed, hdelivered⟩ | ⟨n, u, rfl, hwaits, ht⟩ := h.goes
  · obtain ⟨ds, hds, hpending⟩ := hgoes.isPending hs
    rw [hpending, came_eq hds, ← List.append_assoc, due_append _ rest]
    simp [not_due_of_nothing hdelivered, hconsumed]
  · have hgoes : Stage.Goes [] _ _ := hwaits.goes
    obtain ⟨ds, hds, hpending⟩ := hgoes.isPending hs
    have hcame : S.came s t = ds.map .delivered := came_eq (by rw [ht]; exact hds)
    rw [hcame, ← List.append_assoc, due_append _ [_], ht]
    change (u.watcher.poll n).2.isPending name = true ↔ _
    rw [Watcher.isPending_poll, Bool.and_eq_true, hpending]
    simp [not_due_of_nothing]

/-- In a state that is reached a flag is raised exactly if its library is due. -/
theorem Reached.isPending (h : S.Reached hist t) :
    (S.stage t).watcher.isPending name = true ↔ Due name hist := by
  obtain ⟨s, hhandlers, -, hleads⟩ := h
  induction hleads with
  | here =>
    have hget : (S.stage s).watcher.handlers.get? name = none := by
      rw [hhandlers]
      rfl
    simp [Watcher.isPending, hget, not_due_of_nothing]
  | step _ hstep ih => exact hstep.isPending ih

/-- In a tick from a state, the turn of a library begins in a later one. -/
def TurnBegins (S : Scene σ) (s : σ) (name : String) (t : σ) : Prop :=
  ∃ before after reports, (S.stage s).watcher.handlers.keys = before ++ name :: after
    ∧ exec (do let _ ← getThe Watcher; before.mapM (Watcher.turn (m := Routine σ))) s
      = (.ok reports, t)

theorem exec_tick (S : Scene σ) (s : σ) :
    exec (Watcher.tick : Routine σ (List UpdateReport)) s = exec (do
      let _ ← getThe Watcher
      let reports ← (S.stage s).watcher.handlers.keys.mapM (Watcher.turn (m := Routine σ))
      return reports.filterMap id) s := by
  obtain ⟨t, hwaits, hlook⟩ := S.look s
  unfold Watcher.tick
  rw [exec_bind, exec_bind, hlook]
  simp only [hwaits.agrees.keys]

theorem TurnBegins.exists_leads (h : S.Reached hist s) (hbegins : S.TurnBegins s name t) :
    ∃ new, S.Leads s new t := by
  obtain ⟨before, -, reports, -, hexec⟩ := hbegins
  have hturns (p : Project) : Along (S.Passes p) (before.mapM (Watcher.turn (m := Routine σ))) :=
    along_mapM fun name _ => along_passes_turn name
  obtain ⟨new, hleads⟩ := h.exists_leads fun p =>
    (along_passes_look (S := S) (p := p)).bind fun _ => hturns p
  rw [hexec] at hleads
  exact ⟨new, hleads⟩

/-- Each library has one turn in a tick, and its turn updates it, once, if an event about one of its
files has come since its flag was last looked at, and does no more than look at the flag otherwise.
Events may come before each operation of the watcher; what counts is what has come when the flag is
looked at. -/
theorem Reached.updates_iff_due (h : S.Reached hist s)
    (hnames : ((S.stage s).watcher.project.libraries.map (·.name)).Nodup) :
    (S.stage s).watcher.handlers.keys.Nodup
    ∧ exec (Watcher.tick : Routine σ (List UpdateReport)) s = exec (do
        let _ ← getThe Watcher
        let reports ← (S.stage s).watcher.handlers.keys.mapM (Watcher.turn (m := Routine σ))
        return reports.filterMap id) s
    ∧ ∀ l ∈ (S.stage s).watcher.project.libraries, ∀ t, S.TurnBegins s l.name t →
      ∃ new pending u, S.Leads s new t
        ∧ exec (modifyGetThe Watcher (·.poll l.name) : Routine σ Bool) t = (.ok pending, u)
        ∧ (Due l.name (hist ++ new ++ S.came t u) → ∃ v, (S.stage u).Waits (S.stage v)
          ∧ exec (Watcher.turn l.name) t = ((exec (Watcher.update l) v).1.map some,
            (exec (Watcher.update l : Routine σ UpdateReport) v).2))
        ∧ (¬Due l.name (hist ++ new ++ S.came t u) →
          exec (Watcher.turn l.name) t = (.ok none, u)) := by
  refine ⟨h.sound.nodup, S.exec_tick s, fun l hl t hbegins => ?_⟩
  obtain ⟨new, hleads⟩ := hbegins.exists_leads h
  have hreached := h.leads hleads
  obtain ⟨a, u, hwaits, hu, hpoll, hturn⟩ := S.exec_turn l.name t
  have hgoes : Stage.Goes [] _ _ := hwaits.goes
  obtain ⟨ds, hds, hpending⟩ := hgoes.isPending hreached.isPending
  have hcame : S.came t u = ds.map .delivered := came_eq (by rw [hu]; exact hds)
  refine ⟨new, _, u, hleads, hpoll, fun hdue => ?_, fun hdue => ?_⟩ <;> rw [hcame, ← hpending] at hdue
  · rw [if_pos hdue] at hturn
    obtain ⟨g, v, hget, hwaits', hexec⟩ := hturn
    -- the library of the handler is the one of the project with this name
    have hpolled : S.Step t _ u := .polled l.name hpoll
    have hv := (hreached.leads hpolled.leads).leads (Step.waited hwaits').leads
    obtain ⟨hmem, hname⟩ := hv.sound.owned _ _ hget
    rw [(hleads.keeps.trans (hpolled.keeps.trans (Step.waited hwaits').keeps)).project] at hmem
    rw [List.inj_on_of_nodup_map hnames hmem hl hname] at hexec
    exact ⟨v, hwaits', hexec⟩
  · rwa [if_neg hdue] at hturn

end Scene

namespace EventDuringUpdate

def project : Project where
  root := .fileSystem
  libraries := [{ name := "A", file := "a.hlsl" }, { name := "B", file := "b.hlsl" }]

/-- An event comes to one of two libraries before the first tick, and another one while the tick
updates it. -/
def fresh : Theatre where
  world := { watcher := { project := project } }
  upcoming := List.replicate 24 [] ++ [[("A", .modified "a.hlsl")]] ++ List.replicate 5 []
    ++ [[("A", .moved "draft" "a.hlsl")]]

def started : Theatre := (exec (Watcher.start : Routine Theatre (List UpdateReport)) fresh).2

def ticked : Theatre := (exec (Watcher.tick : Routine Theatre (List UpdateReport)) started).2

/-- The turn of the first library in the second tick begins. -/
def first : Theatre := (exec (getThe Watcher : Routine Theatre Watcher) ticked).2

/-- The turn of the second library in the second tick begins. -/
def second : Theatre := (exec (Watcher.turn "A" : Routine Theatre (Option UpdateReport)) first).2

theorem second_tick : ticked.world.watcher.project = project
    ∧ ticked.world.watcher.handlers.keys = ["A", "B"]
    ∧ (exec (Watcher.turn "A" : Routine Theatre (Option UpdateReport)) first).1.toOption.any
      (·.isSome)
    ∧ (exec (Watcher.turn "B" : Routine Theatre (Option UpdateReport)) second).1.toOption.any
      (·.isNone) := by
  decide +kernel

/-- The library is due in the second tick, for the event that came while it was updated. -/
theorem updates_iff_due_of_event_during_update :
    ((Theatre.scene.stage ticked).watcher.project.libraries.map (·.name)).Nodup
    ∧ ∃ hist, Theatre.scene.Reached hist ticked
      ∧ Theatre.scene.TurnBegins ticked "A" first ∧ Theatre.scene.TurnBegins ticked "B" second
      ∧ (∃ new u, Theatre.scene.Leads ticked new first
        ∧ Due "A" (hist ++ new ++ Theatre.scene.came first u))
      ∧ ∃ new u, Theatre.scene.Leads ticked new second
        ∧ ¬Due "B" (hist ++ new ++ Theatre.scene.came second u) := by
  obtain ⟨hproject, hkeys, hupdates, hrests⟩ := second_tick
  have hnames : ((Theatre.scene.stage ticked).watcher.project.libraries.map (·.name)).Nodup := by
    change (ticked.world.watcher.project.libraries.map (·.name)).Nodup
    rw [hproject]
    decide
  have hfresh : Theatre.scene.Reached [] fresh := ⟨fresh, rfl, rfl, .here⟩
  obtain ⟨hist, hstarted⟩ := hfresh.start
  obtain ⟨hist', hticked⟩ := hstarted.tick
  have hfirst : Theatre.scene.TurnBegins ticked "A" first := ⟨[], ["B"], [], hkeys, rfl⟩
  obtain ⟨o, hturn⟩ := exists_exec_of_isSome (Option.isSome_of_any hupdates)
  have hsecond : Theatre.scene.TurnBegins ticked "B" second := by
    refine ⟨["A"], [], [o], hkeys, ?_⟩
    change exec (["A"].mapM (Watcher.turn (m := Routine Theatre))) first = _
    rw [List.mapM_cons, exec_bind, hturn]
    rfl
  obtain ⟨-, -, hturns⟩ := hticked.updates_iff_due hnames
  refine ⟨hnames, _, hticked, hfirst, hsecond, ?_, ?_⟩
  · obtain ⟨new, _, u, hleads, -, -, hrest⟩ := hturns { name := "A", file := "a.hlsl" }
      (by change _ ∈ ticked.world.watcher.project.libraries; rw [hproject]; simp [project]) first hfirst
    refine ⟨new, u, hleads, by_contra fun hdue => ?_⟩
    rw [hrest hdue] at hupdates
    cases hupdates
  · obtain ⟨new, _, u, hleads, -, hupdate, -⟩ := hturns { name := "B", file := "b.hlsl" }
      (by change _ ∈ ticked.world.watcher.project.libraries; rw [hproject]; simp [project]) second hsecond
    refine ⟨new, u, hleads, fun hdue => ?_⟩
    obtain ⟨v, -, hexec⟩ := hupdate hdue
    rw [hexec] at hrests
    cases hupdated : (exec (Watcher.update _ : Routine Theatre UpdateReport) v).1 <;>
      rw [hupdated] at hrests <;> cases hrests

end EventDuringUpdate

end ShaderGraph
