import ShaderGraph.Proofs.Along
import ShaderGraph.Proofs.OrderedMap
import ShaderGraph.Watch.Watcher

/-!
# Watchers at work

An observer calls handlers while the watcher is at work: before every operation events may have come,
each to the handler of one library, where it raises the flag if it is about one of the handler's
files. A scene is a state in which a watcher meets its surroundings so. Everything else that may
happen is a step of the watcher, and a history tells what came and what was done.
-/

namespace ShaderGraph

open Routine

/-- An event that came to the handler of a library. -/
structure Delivery where
  library : String
  event : FileEvent
  /-- the directory that relative paths are seen from -/
  directory : String
  /-- the files of the handler when the event came -/
  files : List String

namespace Delivery

/-- The file that has new content, in the form in which handlers know files. -/
def path (d : Delivery) : String := PathText.absolute d.directory d.event.path

/-- Whether the event was about a file of the handler. -/
def Hits (d : Delivery) : Prop := d.path ∈ d.files

end Delivery

/-! ## Handlers -/

namespace Watcher

variable {w : Watcher} {l : Library} {h : Handler} {name : String}

theorem get?_adjust (w : Watcher) (n : String) (f : Handler → Handler) (name : String) :
    (w.adjust n f).handlers.get? name
      = if name = n then (w.handlers.get? n).map f else w.handlers.get? name := by
  unfold adjust
  cases hn : w.handlers.get? n with
  | none =>
    split_ifs with hname
    · rw [hname, hn, Option.map_none]
    · rfl
  | some h => exact OrderedMap.get?_insert _ _ _ _

theorem adjust_project (w : Watcher) (n : String) (f : Handler → Handler) :
    (w.adjust n f).project = w.project ∧ (w.adjust n f).scheduled = w.scheduled := by
  unfold adjust
  cases w.handlers.get? n <;> exact ⟨rfl, rfl⟩

theorem keys_adjust (w : Watcher) (n : String) (f : Handler → Handler) :
    (w.adjust n f).handlers.keys = w.handlers.keys := by
  unfold adjust
  cases hn : w.handlers.get? n with
  | none => rfl
  | some h =>
    have hmem : n ∈ w.handlers.keys := OrderedMap.isSome_get?.1 (by rw [hn]; rfl)
    exact (OrderedMap.keys_insert _ _ _).trans (if_pos hmem)

/-- The handler of a library without its flag: of these parts only the watcher itself takes care. -/
def plan (w : Watcher) (name : String) : Option (Library × List String × List Nat) :=
  (w.handlers.get? name).map fun h => (h.library, h.files, h.watches)

theorem plan_adjust {n : String} {f : Handler → Handler}
    (hf : ∀ h, (f h).library = h.library ∧ (f h).files = h.files ∧ (f h).watches = h.watches) :
    (w.adjust n f).plan = w.plan := by
  funext name
  unfold plan
  rw [get?_adjust]
  split_ifs with hname
  · rw [hname, Option.map_map]
    congr 1
    funext h
    rw [Function.comp_apply, (hf h).1, (hf h).2.1, (hf h).2.2]
  · rfl

theorem plan_receive (w : Watcher) (name path : String) : (w.receive name path).2.plan = w.plan := by
  refine plan_adjust fun h => ?_
  unfold Handler.notice
  split_ifs <;> exact ⟨rfl, rfl, rfl⟩

theorem plan_poll (w : Watcher) (name : String) : (w.poll name).2.plan = w.plan :=
  plan_adjust fun _ => ⟨rfl, rfl, rfl⟩

end Watcher

/-! ## Stages -/

/-- What is seen of a watcher at work: what it knows, what has come to its handlers and what its
observer was asked to do. -/
structure Stage where
  watcher : Watcher
  deliveries : List Delivery
  calls : List ObserverCall

namespace Stage

/-- An event comes to a handler. -/
def receive (s : Stage) (d : Delivery) : Stage :=
  { s with watcher := (s.watcher.receive d.library d.path).2, deliveries := s.deliveries ++ [d] }

/-- From a stage to a later one events have come to handlers, and nothing else has happened. -/
inductive Waits (s : Stage) : Stage → Prop
  | still : Waits s s
  | come {t : Stage} {d : Delivery} {h : Handler} (hst : Waits s t)
    (hd : t.watcher.handlers.get? d.library = some h) (hfiles : d.files = h.files) :
    Waits s (t.receive d)

theorem Waits.trans {s t v : Stage} (h : Waits s t) (h' : Waits t v) : Waits s v := by
  induction h' with
  | still => exact h
  | come _ hd hfiles ih => exact ih.come hd hfiles

instance : IsPreorder Stage Waits where
  refl _ := .still
  trans _ _ _ := Waits.trans

/-- Two stages with the same plans, whose observers were asked the same. -/
structure Agrees (s t : Stage) : Prop where
  project : t.watcher.project = s.watcher.project
  scheduled : t.watcher.scheduled = s.watcher.scheduled
  keys : t.watcher.handlers.keys = s.watcher.handlers.keys
  plan : t.watcher.plan = s.watcher.plan
  calls : t.calls = s.calls

theorem Waits.agrees {s t : Stage} (h : Waits s t) : s.Agrees t := by
  induction h with
  | still => exact ⟨rfl, rfl, rfl, rfl, rfl⟩
  | @come t d _ _ _ _ ih =>
    obtain ⟨hproject, hscheduled⟩ := t.watcher.adjust_project d.library (·.notice d.path)
    exact ⟨hproject.trans ih.project, hscheduled.trans ih.scheduled,
      (t.watcher.keys_adjust _ _).trans ih.keys, (t.watcher.plan_receive _ _).trans ih.plan, ih.calls⟩

end Stage

/-! ## Scenes -/

/-- A state in which a watcher meets its surroundings. Events may come before each operation; the
operations do not do more to the watcher and its observer than they say. -/
structure Scene (σ : Type) [Disk (Routine σ)] [Journal (Routine σ)] [Clock (Routine σ)]
    [MonadStateOf Supply (Routine σ)] [MonadStateOf Watcher (Routine σ)] [Observer (Routine σ)] where
  stage : σ → Stage
  calm : CalmDisk fun s t : σ => (stage s).Waits (stage t)
  look : ∀ s, ∃ t, (stage s).Waits (stage t)
    ∧ exec (getThe Watcher : Routine σ Watcher) s = (.ok (stage t).watcher, t)
  change : ∀ {α : Type} (f : Watcher → α × Watcher) s, ∃ v t, (stage s).Waits v
    ∧ stage t = { v with watcher := (f v.watcher).2 }
    ∧ exec (modifyGetThe Watcher f : Routine σ α) s = (.ok (f v.watcher).1, t)
  call : ∀ c s, ∃ v t, (stage s).Waits v ∧ stage t = { v with calls := v.calls ++ [c] }
    ∧ exec (Observer.call c : Routine σ Unit) s = (.ok (), t)

/-! ## What an update does to handlers -/

namespace Watcher

variable (w : Watcher) (l : Library) (h : Handler) (name : String)

theorem pending_handler : (w.handler l).pending = w.isPending l.name := by
  unfold handler isPending
  cases w.handlers.get? l.name <;> rfl

theorem isPending_adjust (n : String) (f : Handler → Handler) :
    (w.adjust n f).isPending name
      = if name = n then (w.handlers.get? n).any fun h => (f h).pending else w.isPending name := by
  unfold isPending
  rw [get?_adjust]
  split_ifs with hname
  · cases w.handlers.get? n <;> rfl
  · rfl

theorem isPending_poll (n : String) :
    (w.poll n).2.isPending name = (w.isPending name && decide (name ≠ n)) := by
  change (w.adjust n Handler.poll).isPending name = _
  rw [isPending_adjust]
  split_ifs with hname
  · rw [hname, decide_eq_false (not_not.2 rfl), Bool.and_false]
    cases w.handlers.get? n <;> rfl
  · rw [decide_eq_true hname, Bool.and_true]

variable {w h}

theorem isPending_receive {n path : String} (hn : w.handlers.get? n = some h) :
    (w.receive n path).2.isPending name = true
      ↔ w.isPending name = true ∨ n = name ∧ path ∈ h.files := by
  change (w.adjust n (·.notice path)).isPending name = true ↔ _
  rw [isPending_adjust]
  split_ifs with hname
  · subst hname
    rw [isPending, hn]
    change (h.notice path).pending = true ↔ h.pending = true ∨ _
    unfold Handler.notice Handler.concerns
    by_cases hpath : path ∈ h.files <;> simp [hpath]
  · exact ⟨.inl, fun h => h.resolve_right fun h => hname h.1.symm⟩

end Watcher

namespace Stage

/-- Every handler is that of a library of the project with its name, and each library has one. -/
structure Sound (s : Stage) : Prop where
  nodup : s.watcher.handlers.keys.Nodup
  owned : ∀ name h, s.watcher.handlers.get? name = some h →
    h.library ∈ s.watcher.project.libraries ∧ h.library.name = name

/-- From a stage to a later one of updates of some libraries: flags were raised by the events that
came, and none was taken down. -/
structure Goes (ls : List Library) (s t : Stage) : Prop where
  project : t.watcher.project = s.watcher.project
  keys : s.watcher.handlers.keys <+: t.watcher.handlers.keys
  sound : ls ⊆ s.watcher.project.libraries → s.Sound → t.Sound
  came : ∃ ds, t.deliveries = s.deliveries ++ ds ∧ ∀ name, t.watcher.isPending name = true
    ↔ s.watcher.isPending name = true ∨ ∃ d ∈ ds, d.library = name ∧ d.Hits

variable {ls : List Library} {l : Library} {s t v : Stage}

theorem Goes.refl : Goes ls s s :=
  ⟨rfl, List.prefix_refl _, fun _ h => h, [], (List.append_nil _).symm, by simp⟩

theorem Goes.trans (h : Goes ls s t) (h' : Goes ls t v) : Goes ls s v where
  project := h'.project.trans h.project
  keys := h.keys.trans h'.keys
  sound hl hs := h'.sound (h.project ▸ hl) (h.sound hl hs)
  came := by
    obtain ⟨ds, hds, hpending⟩ := h.came
    obtain ⟨es, hes, hpending'⟩ := h'.came
    refine ⟨ds ++ es, by rw [hes, hds, List.append_assoc], fun name => ?_⟩
    rw [hpending', hpending, or_assoc]
    refine or_congr_right ⟨?_, ?_⟩
    · rintro (⟨d, hd, hd'⟩ | ⟨d, hd, hd'⟩)
      · exact ⟨d, List.mem_append_left _ hd, hd'⟩
      · exact ⟨d, List.mem_append_right _ hd, hd'⟩
    · rintro ⟨d, hd, hd'⟩
      exact (List.mem_append.1 hd).imp (fun hd => ⟨d, hd, hd'⟩) fun hd => ⟨d, hd, hd'⟩

instance : IsPreorder Stage (Goes ls) where
  refl _ := .refl
  trans _ _ _ := .trans

theorem Sound.of_plan (h : s.Sound) (hproject : t.watcher.project = s.watcher.project)
    (hkeys : t.watcher.handlers.keys = s.watcher.handlers.keys)
    (hplan : t.watcher.plan = s.watcher.plan) : t.Sound := by
  refine ⟨hkeys ▸ h.nodup, fun name g hg => ?_⟩
  have hgs : s.watcher.plan name = some (g.library, g.files, g.watches) := by
    rw [← hplan, Watcher.plan, hg]
    rfl
  obtain ⟨g', hg', hsame⟩ := Option.map_eq_some_iff.1 hgs
  rw [hproject, ← (Prod.mk.inj hsame).1]
  exact h.owned name g' hg'

theorem Waits.goes (h : Waits s t) : Goes ls s t := by
  induction h with
  | still => exact .refl
  | @come t d g hst hd hfiles ih =>
    have hagrees := Waits.agrees (.come .still hd hfiles)
    refine ih.trans ⟨hagrees.project, ?_, fun _ hs => ?_, [d], rfl, fun name => ?_⟩
    · exact hagrees.keys ▸ List.prefix_refl _
    · exact hs.of_plan hagrees.project hagrees.keys hagrees.plan
    · rw [receive, Watcher.isPending_receive name hd, ← hfiles]
      simp [Delivery.Hits]

/-- A handler that keeps its flag and its library may take the place of that of a library. -/
theorem goes_insert {w : Watcher} {h : Handler} (hproject : w.project = s.watcher.project)
    (hhandlers : w.handlers = s.watcher.handlers.insert l.name h)
    (hpending : h.pending = (s.watcher.handler l).pending)
    (hlibrary : h.library = (s.watcher.handler l).library) (hl : l ∈ ls) :
    Goes ls s { s with watcher := w } := by
  have hkeys : w.handlers.keys = if l.name ∈ s.watcher.handlers.keys then s.watcher.handlers.keys
      else s.watcher.handlers.keys ++ [l.name] := by
    rw [hhandlers, OrderedMap.keys_insert]
  have hget : ∀ name, w.handlers.get? name
      = if name = l.name then some h else s.watcher.handlers.get? name := fun name => by
    rw [hhandlers, OrderedMap.get?_insert]
  refine ⟨hproject, ?_, fun hls hs => ⟨?_, fun name g hg => ?_⟩, [], (List.append_nil _).symm,
    fun name => ?_⟩
  · rw [hkeys]
    split_ifs
    · exact List.prefix_refl _
    · exact List.prefix_append _ _
  · rw [hkeys]
    split_ifs with hmem
    · exact hs.nodup
    · refine List.nodup_append.2 ⟨hs.nodup, List.nodup_cons.2 ⟨nofun, .nil⟩, ?_⟩
      rintro a ha b hb rfl
      exact hmem (List.mem_singleton.1 hb ▸ ha)
  · rw [hget] at hg
    rw [hproject]
    split_ifs at hg with hname
    · obtain rfl := Option.some.inj hg
      rw [hlibrary, hname]
      unfold Watcher.handler
      cases hold : s.watcher.handlers.get? l.name with
      | none => exact ⟨hls hl, rfl⟩
      | some g => exact hs.owned _ _ hold
    · exact hs.owned _ _ hg
  · have hflag : w.isPending name = s.watcher.isPending name := by
      rw [Watcher.isPending, hget]
      split_ifs with hname
      · rw [hname, ← Watcher.pending_handler, ← hpending]
        rfl
      · rfl
    simp [hflag]

end Stage

namespace Scene

variable {σ : Type} [Disk (Routine σ)] [Journal (Routine σ)] [Clock (Routine σ)]
  [MonadStateOf Supply (Routine σ)] [MonadStateOf Watcher (Routine σ)] [Observer (Routine σ)]
  (S : Scene σ)

/-- What updates of some libraries may have done. -/
def Goes (ls : List Library) (s t : σ) : Prop := (S.stage s).Goes ls (S.stage t)

instance (ls : List Library) : IsPreorder σ (S.Goes ls) where
  refl _ := Stage.Goes.refl
  trans _ _ _ := Stage.Goes.trans

variable {S} {ls : List Library} {l : Library}

theorem calm_goes : CalmDisk (S.Goes ls) := S.calm.mono fun _ _ => Stage.Waits.goes

theorem along_look {R : σ → σ → Prop} (hR : ∀ s t, (S.stage s).Waits (S.stage t) → R s t) :
    Along R (getThe Watcher : Routine σ Watcher) := by
  intro s
  obtain ⟨t, hwaits, ht⟩ := S.look s
  rw [ht]
  exact hR s t hwaits

/-- An event that a program hands to the handler of a library does to the watcher what one does that
comes by itself. -/
theorem exec_handle {e : FileEvent} {name : String} {s u : σ} {current : DiskPath}
    (h : exec (Sources.current : Routine σ DiskPath) s = (.ok current, u)) (files : List String) :
    ∃ v w, (S.stage u).Waits v
      ∧ (S.stage w).watcher = (v.receive ⟨name, e, current.toText, files⟩).watcher
      ∧ (S.stage w).Waits (S.stage (exec (Watcher.handle e name : Routine σ Unit) s).2) := by
  obtain ⟨v, w, hwaits, hw, hexec⟩ :=
    S.change (·.receive name (PathText.absolute current.toText e.path)) u
  refine ⟨v, w, hwaits, by rw [hw]; rfl, ?_⟩
  unfold Watcher.handle
  rw [exec_bind, h]
  simp only
  rw [exec_bind, hexec]
  simp only
  split_ifs
  · exact S.calm.log _ _ w
  · exact .still

/-- Until the watches are established anew, an update does no more to the watcher than to wait. -/
theorem along_bring {R : σ → σ → Prop} [IsPreorder σ R]
    (hR : ∀ s t, (S.stage s).Waits (S.stage t) → R s t) (l : Library) :
    Along R (Watcher.bring l : Routine σ UpdateReport) :=
  (along_look hR).bind fun _ => ((S.calm.mono hR).calmStore _).along_update _ _

theorem along_change {α : Type} {f : Watcher → α × Watcher}
    (hf : ∀ v : Stage, v.Goes ls { v with watcher := (f v.watcher).2 }) :
    Along (S.Goes ls) (modifyGetThe Watcher f : Routine σ α) := by
  intro s
  obtain ⟨v, t, hwaits, ht, hexec⟩ := S.change f s
  rw [hexec]
  have hgoes := hwaits.goes.trans (hf v)
  rwa [← ht] at hgoes

theorem along_call (c : ObserverCall) : Along (S.Goes ls) (Observer.call c : Routine σ Unit) := by
  intro s
  obtain ⟨v, t, hwaits, ht, hexec⟩ := S.call c s
  rw [hexec]
  have hgoes : (S.stage s).Goes ls { v with calls := v.calls ++ [c] } :=
    hwaits.goes.trans ⟨rfl, List.prefix_refl _, fun _ hs => ⟨hs.nodup, hs.owned⟩, [],
      (List.append_nil _).symm, by simp⟩
  rwa [← ht] at hgoes

theorem along_bring_goes (l : Library) :
    Along (S.Goes ls) (Watcher.bring l : Routine σ UpdateReport) :=
  along_bring (fun _ _ => Stage.Waits.goes) l

theorem along_settle (hl : l ∈ ls) (r : UpdateReport) :
    Along (S.Goes ls) (Watcher.settle l r : Routine σ (List DiskPath)) := by
  unfold Watcher.settle
  refine (along_change fun v => ?_).bind fun given => (along_forM along_call given).bind fun _ =>
    (along_look fun _ _ => Stage.Waits.goes).bind fun _ => calm_goes.current.bind fun _ =>
    (along_orFault _ _).bind fun files => (along_change fun v => ?_).bind fun _ => along_pure _
  · exact Stage.goes_insert (h := { v.watcher.handler l with watches := [] }) rfl rfl rfl rfl hl
  · exact Stage.goes_insert (h := { v.watcher.handler l with files := sortedSet _ }) rfl rfl rfl rfl hl

theorem along_watch (hl : l ∈ ls) (files : List DiskPath) :
    Along (S.Goes ls) (Watcher.watch l files : Routine σ Unit) := by
  unfold Watcher.watch Watcher.directoriesOf
  simp only [bind_assoc, pure_bind]
  refine (along_filterM calm_goes.isDirectory _).bind fun parents => (along_change fun v => ?_).bind
    fun asked => along_forM along_call asked
  exact Stage.goes_insert (h := { v.watcher.handler l with watches := v.watcher.newWatches _ })
    rfl rfl rfl rfl hl

theorem along_refresh (hl : l ∈ ls) (r : UpdateReport) :
    Along (S.Goes ls) (Watcher.refresh l r : Routine σ Unit) :=
  (along_settle hl r).bind (along_watch hl)

end Scene

end ShaderGraph
