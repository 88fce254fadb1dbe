import ShaderGraph.Proofs.History
import ShaderGraph.Proofs.Registry
import ShaderGraph.Proofs.Theatre

/-!
# Watches of libraries

An update of a library gives its watches up and has other ones scheduled. So a library stays registered
for a directory only until another library that watches the same directory gives its watch up, as it
does whenever it is updated again (`Reached.registered_iff`).
-/

namespace ShaderGraph

open Routine

/-! ## Books -/

/-- What a watcher and its observer have agreed on: the watches there have been, those that libraries
have now, the files of their handlers, and the calls. -/
structure Books where
  scheduled : Nat
  watches : String → List Nat
  files : String → Option (List String)
  calls : List ObserverCall

namespace Books

/-- A library, which has a handler from then on, has these watches. -/
def hold (b : Books) (name : String) (watches : List Nat) : Books :=
  { b with
    watches := Function.update b.watches name watches
    files := Function.update b.files name (some ((b.files name).getD [])) }

/-- A library gives its watches up. -/
def giveUp (b : Books) (name : String) : Books :=
  { b.hold name [] with calls := b.calls ++ (b.watches name).map .unschedule }

/-- The files of a library are known. -/
def know (b : Books) (name : String) (files : List String) : Books :=
  { b with files := Function.update b.files name (some files) }

/-- The numbers of so many new watches. -/
def numbers (b : Books) (n : Nat) : List Nat := (List.range n).map (b.scheduled + 1 + ·)

/-- The calls for watches of some directories for a library. -/
def scheduling (b : Books) (name : String) (directories : List String) : List ObserverCall :=
  ((b.numbers directories.length).zip directories).map fun (n, d) => .schedule n name d

/-- Some directories are watched for a library. -/
def take (b : Books) (name : String) (directories : List String) : Books :=
  { b.hold name (b.numbers directories.length) with
    scheduled := b.scheduled + directories.length
    calls := b.calls ++ b.scheduling name directories }

/-- The observer is started. -/
def start (b : Books) : Books := { b with calls := b.calls ++ [.start] }

/-- Watches have numbers up to the last one, and each library has watches that were scheduled for it. -/
structure Sound (b : Books) : Prop where
  tidy : Tidy b.calls
  numbered : ∀ n library directory, .schedule n library directory ∈ b.calls → n ≤ b.scheduled
  held : ∀ name, ∀ n ∈ b.watches name, ∃ directory, .schedule n name directory ∈ b.calls

variable {b c d : Books} {name other directory : String} {n : Nat} {directories : List String}

theorem scheduling_concat (b : Books) (name : String) (directories : List String) (directory : String) :
    b.scheduling name (directories ++ [directory]) = b.scheduling name directories
      ++ [.schedule (b.scheduled + 1 + directories.length) name directory] := by
  unfold scheduling numbers
  rw [List.length_append, List.length_singleton, List.range_succ, List.map_append,
    List.zip_append (by simp), List.map_append]
  rfl

theorem mem_scheduling : .schedule n other directory ∈ b.scheduling name directories
    → other = name ∧ directory ∈ directories ∧ n ∈ b.numbers directories.length := by
  unfold scheduling
  rintro h
  obtain ⟨⟨m, d⟩, hmem, heq⟩ := List.mem_map.1 h
  obtain ⟨rfl, rfl, rfl⟩ := ObserverCall.schedule.inj heq
  exact ⟨rfl, (List.of_mem_zip hmem).2, (List.of_mem_zip hmem).1⟩

theorem exists_of_mem_numbers (name : String) (h : n ∈ b.numbers directories.length) :
    ∃ directory, .schedule n name directory ∈ b.scheduling name directories := by
  obtain ⟨i, hi, rfl⟩ := List.mem_map.1 h
  have hlt : i < directories.length := List.mem_range.1 hi
  refine ⟨directories[i], List.mem_map.2 ⟨(b.scheduled + 1 + i, directories[i]), ?_, rfl⟩⟩
  exact List.mem_iff_getElem.2 ⟨i, by simpa [numbers] using hlt, by simp [numbers]⟩

theorem exists_of_mem (h : directory ∈ directories) :
    ∃ n, .schedule n name directory ∈ b.scheduling name directories := by
  obtain ⟨i, hi, rfl⟩ := List.mem_iff_getElem.1 h
  refine ⟨b.scheduled + 1 + i, List.mem_map.2 ⟨(b.scheduled + 1 + i, directories[i]), ?_, rfl⟩⟩
  exact List.mem_iff_getElem.2 ⟨i, by simpa [numbers] using hi, by simp [numbers]⟩

namespace Sound

theorem giveUp (h : b.Sound) (name : String) : (b.giveUp name).Sound := by
  have htidy : ∀ ns : List Nat, (∀ n ∈ ns, ∃ l d, .schedule n l d ∈ b.calls) →
      Tidy (b.calls ++ ns.map .unschedule) := by
    intro ns hns
    induction ns using List.reverseRecOn with
    | nil => simpa using h.tidy
    | append_singleton ns n ih =>
      rw [List.map_append, ← List.append_assoc]
      obtain ⟨l, d, hscheduled⟩ := hns n (by simp)
      exact tidy_concat.2 ⟨ih fun n hn => hns n (List.mem_append_left _ hn), l, d,
        List.mem_append_left _ hscheduled⟩
  refine ⟨htidy _ fun n hn => ⟨name, h.held name n hn⟩, fun n l d hn => h.numbered n l d ?_,
    fun other n hn => ?_⟩
  · simpa [Books.giveUp] using hn
  · have hmem : n ∈ b.watches other := by
      by_cases hname : other = name
      · subst hname
        simp [Books.giveUp, hold] at hn
      · simpa [Books.giveUp, hold, hname] using hn
    obtain ⟨d, hd⟩ := h.held other n hmem
    exact ⟨d, List.mem_append_left _ hd⟩

theorem know (h : b.Sound) (name : String) (files : List String) : (b.know name files).Sound :=
  ⟨h.tidy, h.numbered, h.held⟩

theorem start (h : b.Sound) : b.start.Sound where
  tidy := tidy_concat.2 ⟨h.tidy, trivial⟩
  numbered n l d hn := h.numbered n l d (by simpa [Books.start] using hn)
  held name n hn := (h.held name n hn).imp fun d hd => List.mem_append_left _ hd

theorem take (h : b.Sound) (name : String) (directories : List String) :
    (b.take name directories).Sound := by
  have hblock : Tidy (b.calls ++ b.scheduling name directories)
      ∧ ∀ n l d, .schedule n l d ∈ b.calls ++ b.scheduling name directories →
        n ≤ b.scheduled + directories.length := by
    induction directories using List.reverseRecOn with
    | nil => exact ⟨by simpa [scheduling] using h.tidy, by simpa [scheduling] using h.numbered⟩
    | append_singleton directories directory ih =>
      obtain ⟨htidy, hnumbered⟩ := ih
      rw [scheduling_concat, ← List.append_assoc]
      refine ⟨tidy_concat.2 ⟨htidy, fun l d hmem => ?_⟩, fun n l d hmem => ?_⟩
      · have hle := hnumbered _ l d hmem
        omega
      · rw [List.length_append, List.length_singleton]
        rcases List.mem_append.1 hmem with hmem | hmem
        · have hle := hnumbered n l d hmem
          omega
        · cases List.mem_singleton.1 hmem
          omega
  refine ⟨hblock.1, hblock.2, fun other n hn => ?_⟩
  by_cases hname : other = name
  · subst hname
    obtain ⟨d, hd⟩ := exists_of_mem_numbers other (by simpa [Books.take, hold] using hn)
    exact ⟨d, List.mem_append_right _ hd⟩
  · obtain ⟨d, hd⟩ := h.held other n (by simpa [Books.take, hold, hname] using hn)
    exact ⟨d, List.mem_append_left _ hd⟩

end Sound

/-- From books to later ones a library is left alone: its files are the same, and only watches of
other libraries are new or are given up. -/
structure Later (name : String) (b c : Books) : Prop where
  sound : b.Sound → c.Sound
  files : c.files name = b.files name
  calls : b.Sound → ∃ later, c.calls = b.calls ++ later ∧ (∀ n d, .schedule n name d ∉ later)
    ∧ ∀ n d, .schedule n name d ∈ c.calls → .unschedule n ∉ later

namespace Later

theorem refl : Later name b b :=
  ⟨id, rfl, fun _ => ⟨[], (List.append_nil _).symm, by simp, by simp⟩⟩

theorem trans (h : Later name b c) (h' : Later name c d) : Later name b d where
  sound hb := h'.sound (h.sound hb)
  files := h'.files.trans h.files
  calls hb := by
    obtain ⟨later, hcalls, hnew, hkept⟩ := h.calls hb
    obtain ⟨later', hcalls', hnew', hkept'⟩ := h'.calls (h.sound hb)
    refine ⟨later ++ later', by rw [hcalls', hcalls, List.append_assoc], ?_, fun n d hn hmem => ?_⟩
    · simpa [not_or] using fun n d => ⟨hnew n d, hnew' n d⟩
    · rcases List.mem_append.1 hmem with hmem | hmem
      · rw [hcalls'] at hn
        exact (List.mem_append.1 hn).elim (fun hn => hkept n d hn hmem) (hnew' n d)
      · exact hkept' n d hn hmem

theorem giveUp (h : name ≠ other) : Later name b (b.giveUp other) where
  sound hb := hb.giveUp other
  files := Function.update_of_ne h _ _
  calls hb := by
    refine ⟨_, rfl, by simp, fun n d hn hmem => ?_⟩
    obtain ⟨m, hm, rfl⟩ : ∃ m ∈ b.watches other, m = n := by simpa using hmem
    obtain ⟨d', hd'⟩ := hb.held other m hm
    exact h (hb.tidy.unique hd' (by simpa [Books.giveUp] using hn)).1

theorem know (h : name ≠ other) (files : List String) : Later name b (b.know other files) where
  sound hb := hb.know other files
  files := Function.update_of_ne h _ _
  calls _ := ⟨[], (List.append_nil _).symm, by simp, by simp⟩

theorem start : Later name b b.start where
  sound hb := hb.start
  files := rfl
  calls _ := ⟨[.start], rfl, by simp, by simp⟩

theorem take (h : name ≠ other) (directories : List String) :
    Later name b (b.take other directories) where
  sound hb := hb.take other directories
  files := Function.update_of_ne h _ _
  calls _ := ⟨_, rfl, fun n d hn => h (mem_scheduling hn).1, by simp [scheduling]⟩

/-- A library that was registered for some directories, and was left alone since then, is registered
for one of them unless another library has given up a watch of it. -/
theorem registered (h : Later name (b.take name directories) c) (hb : b.Sound)
    (hdirectory : directory ∈ directories) :
    Registered c.calls name directory ↔ ∀ n other, .schedule n other directory ∈ c.calls →
      other ≠ name → .unschedule n ∉ c.calls.drop (b.take name directories).calls.length := by
  have hsound := hb.take name directories
  obtain ⟨later, hcalls, hnew, hkept⟩ := h.calls hsound
  have htidy := (h.sound hsound).tidy
  have htaken : Registered (b.take name directories).calls name directory := by
    refine (registered_append_of_schedule fun c hc => ?_).2 (.inr (exists_of_mem hdirectory))
    obtain ⟨⟨n, d⟩, -, rfl⟩ := List.mem_map.1 hc
    exact ⟨n, name, d, rfl⟩
  rw [hcalls] at htidy hkept ⊢
  rw [htidy.registered_append fun n => hnew n directory, List.drop_left]
  refine ⟨fun ⟨_, hnone⟩ n other hn _ => hnone n other hn, fun hnone => ⟨htaken, fun n other hn => ?_⟩⟩
  by_cases hother : other = name
  · exact hkept n directory (hother ▸ hn)
  · exact hnone n other hn hother

end Later

end Books

/-! ## Updates -/

/-- The books of a watcher and its observer. -/
def Stage.books (s : Stage) : Books where
  scheduled := s.watcher.scheduled
  watches name := ((s.watcher.plan name).map (·.2.2)).getD []
  files name := (s.watcher.plan name).map (·.2.1)
  calls := s.calls

theorem Stage.Agrees.books {s t : Stage} (h : s.Agrees t) : t.books = s.books := by
  unfold Stage.books
  rw [h.scheduled, h.plan, h.calls]

theorem Watcher.plan_withHandler (w : Watcher) (l : Library) (h : Handler) (name : String) :
    (w.withHandler l h).plan name
      = if name = l.name then some (h.library, h.files, h.watches) else w.plan name := by
  unfold Watcher.plan Watcher.withHandler
  rw [OrderedMap.get?_insert]
  split_ifs <;> rfl

theorem Watcher.handler_of_plan (w : Watcher) (l : Library) :
    (w.handler l).watches = ((w.plan l.name).map (·.2.2)).getD []
      ∧ (w.handler l).files = ((w.plan l.name).map (·.2.1)).getD [] := by
  unfold Watcher.handler Watcher.plan
  cases w.handlers.get? l.name <;> exact ⟨rfl, rfl⟩

namespace Stage

variable (s : Stage) (l : Library)

theorem books_withHandler (h : Handler) (n : Nat) (cs : List ObserverCall) :
    books { s with watcher := { s.watcher.withHandler l h with scheduled := n }, calls := cs } =
      { scheduled := n
        watches := Function.update s.books.watches l.name h.watches
        files := Function.update s.books.files l.name (some h.files)
        calls := cs } := by
  have hplan : ∀ name, Watcher.plan { s.watcher.withHandler l h with scheduled := n } name
      = if name = l.name then some (h.library, h.files, h.watches) else s.watcher.plan name :=
    s.watcher.plan_withHandler l h
  unfold books
  simp only [hplan, Books.mk.injEq, true_and, and_true]
  constructor <;> funext name <;> by_cases hname : name = l.name <;> simp [hname]

theorem books_released : books { s with
    watcher := s.watcher.released l
    calls := s.calls ++ s.watcher.releaseCalls l } = s.books.giveUp l.name := by
  obtain ⟨hwatches, hfiles⟩ := s.watcher.handler_of_plan l
  refine (s.books_withHandler l { s.watcher.handler l with watches := [] } s.watcher.scheduled
    (s.calls ++ s.watcher.releaseCalls l)).trans ?_
  unfold Books.giveUp Books.hold Watcher.releaseCalls
  rw [hwatches, hfiles]
  rfl

theorem books_withFiles (files : List String) : books { s with watcher := s.watcher.withFiles l files }
    = s.books.know l.name files := by
  obtain ⟨hwatches, -⟩ := s.watcher.handler_of_plan l
  refine (s.books_withHandler l { s.watcher.handler l with files := files } s.watcher.scheduled
    s.calls).trans ?_
  rw [hwatches]
  exact congrArg (fun ws => { s.books.know l.name files with watches := ws })
    (Function.update_eq_self l.name s.books.watches)

theorem books_watching (directories : List String) : books { s with
    watcher := s.watcher.watching l directories
    calls := s.calls ++ s.watcher.watchCalls l directories } = s.books.take l.name directories := by
  obtain ⟨-, hfiles⟩ := s.watcher.handler_of_plan l
  refine (s.books_withHandler l { s.watcher.handler l with
    watches := s.watcher.newWatches directories.length } (s.watcher.scheduled + directories.length)
    (s.calls ++ s.watcher.watchCalls l directories)).trans ?_
  unfold Books.take Books.hold
  rw [hfiles]
  rfl

theorem sound_books_of_fresh {s : Stage} (hhandlers : s.watcher.handlers = []) (hcalls : s.calls = []) :
    s.books.Sound := by
  have hnone : ∀ c, c ∉ s.books.calls := by
    change ∀ c, c ∉ s.calls
    simp [hcalls]
  refine ⟨?_, fun n l d hn => absurd hn (hnone _), fun name n hn => ?_⟩
  · change Tidy s.calls
    exact hcalls ▸ tidy_nil
  · have hget : s.watcher.handlers.get? name = none := by
      rw [hhandlers]
      rfl
    simp [books, Watcher.plan, hget] at hn

end Stage

namespace Scene

variable {σ : Type} [Disk (Routine σ)] [Journal (Routine σ)] [Clock (Routine σ)]
  [MonadStateOf Supply (Routine σ)] [MonadStateOf Watcher (Routine σ)] [Observer (Routine σ)]
  (S : Scene σ)

/-- The books in a state. -/
def books (s : σ) : Books := (S.stage s).books

variable {S} {s t v : σ} {hist new : List (Happening σ)} {l : Library} {r : UpdateReport}
  {files : List DiskPath} {name : String}

theorem along_bring_books : Along (Same S.books) (Watcher.bring l : Routine σ UpdateReport) :=
  along_bring (fun _ _ h => h.agrees.books) l

theorem calm_books : CalmDisk (Same S.books) := S.calm.mono fun _ _ h => h.agrees.books

theorem exec_calls (S : Scene σ) : ∀ (cs : List ObserverCall) (s : σ), ∃ t,
    exec (cs.forM Observer.call : Routine σ Unit) s = (.ok (), t)
      ∧ S.books t = { S.books s with calls := (S.books s).calls ++ cs }
  | [], s => ⟨s, rfl, by rw [List.append_nil]⟩
  | c :: cs, s => by
    obtain ⟨u, v, hwaits, hv, hcall⟩ := S.call c s
    obtain ⟨t, hexec, ht⟩ := S.exec_calls cs v
    refine ⟨t, ?_, ?_⟩
    · change exec (Observer.call c >>= fun _ => cs.forM Observer.call) s = _
      rw [exec_bind, hcall]
      exact hexec
    · have hbooks : S.books v = { S.books s with calls := (S.books s).calls ++ [c] } := by
        rw [books, hv, books, ← hwaits.agrees.books]
        rfl
      rw [ht, hbooks]
      simp

/-- While a library is settled its watches are given up, and then its files are known. -/
theorem books_settle {result : Except Fault (List DiskPath)}
    (h : exec (Watcher.settle l r : Routine σ (List DiskPath)) s = (result, t)) :
    (∃ e, result = .error e ∧ S.books t = (S.books s).giveUp l.name)
    ∨ ∃ (files : List DiskPath) (current : DiskPath), result = .ok files
      ∧ (S.stage s).watcher.project.watchedFiles current l (some r.includes) = .ok files
      ∧ S.books t = ((S.books s).giveUp l.name).know l.name
        (sortedSet (files.map fun f => PathText.absolute current.toText f.toText)) := by
  obtain ⟨a, u, hwaits, hu, hrelease⟩ := S.change (fun w => (w.releaseCalls l, w.released l)) s
  obtain ⟨v, hcalls, hv⟩ := S.exec_calls (a.watcher.releaseCalls l) u
  have hgiven : S.books v = (S.books s).giveUp l.name := by
    rw [hv, books, hu, books, ← hwaits.agrees.books]
    exact a.books_released l
  obtain ⟨w, hwaits', hlook⟩ := S.look v
  have hlooked : S.books w = (S.books s).giveUp l.name := hwaits'.agrees.books.trans hgiven
  have hproject : (S.stage w).watcher.project = (S.stage s).watcher.project := by
    have hgoes : S.Goes [l] u v := (along_forM (fun c => along_call c) _).of_exec hcalls
    rw [hwaits'.agrees.project, hgoes.project, hu]
    exact hwaits.agrees.project
  unfold Watcher.settle at h
  rw [exec_bind, hrelease] at h
  simp only at h
  rw [exec_bind, hcalls] at h
  simp only at h
  rw [exec_bind, hlook] at h
  simp only at h
  rw [exec_bind] at h
  have hseen := (calm_books (S := S)).current w
  rcases hcurrent : exec (Sources.current : Routine σ DiskPath) w with ⟨e | current, x⟩ <;>
    rw [hcurrent] at h hseen
  · cases h
    exact .inl ⟨e, rfl, hseen.trans hlooked⟩
  · simp only at h
    cases hfiles : (S.stage w).watcher.project.watchedFiles current l (some r.includes) with
    | error e =>
      rw [hfiles] at h
      cases h
      exact .inl ⟨_, rfl, hseen.trans hlooked⟩
    | ok files =>
      rw [hfiles] at h
      let known := sortedSet (files.map fun f => PathText.absolute current.toText f.toText)
      obtain ⟨y, z, hwaits'', hz, hchange⟩ := S.change (fun w => ((), w.withFiles l known)) x
      change exec (modifyGetThe Watcher (fun w => ((), w.withFiles l known)) >>= fun _ => pure files) x
        = (result, t) at h
      rw [exec_bind, hchange] at h
      cases h
      refine .inr ⟨files, current, rfl, hproject ▸ hfiles, ?_⟩
      rw [← hlooked, ← hseen, books, hz, books, ← hwaits''.agrees.books]
      exact y.books_withFiles l known

theorem along_directoriesOf_books (files : List DiskPath) :
    Along (Same S.books) (Watcher.directoriesOf files : Routine σ (List String)) :=
  (along_filterM calm_books.isDirectory _).bind fun _ => along_pure _

/-- Directories that are found are watched. -/
theorem books_watch {result : Except Fault Unit}
    (h : exec (Watcher.watch l files : Routine σ Unit) s = (result, t)) :
    (∃ e, result = .error e ∧ S.books t = S.books s)
    ∨ ∃ directories u, result = .ok ()
      ∧ exec (Watcher.directoriesOf files : Routine σ (List String)) s = (.ok directories, u)
      ∧ S.books t = (S.books s).take l.name directories := by
  have hseen := along_directoriesOf_books (S := S) files s
  unfold Watcher.watch at h
  rw [exec_bind] at h
  rcases hdirectories : exec (Watcher.directoriesOf files : Routine σ (List String)) s
    with ⟨e | directories, u⟩ <;> rw [hdirectories] at h hseen
  · cases h
    exact .inl ⟨e, rfl, hseen⟩
  · obtain ⟨a, v, hwaits, hv, hchange⟩ :=
      S.change (fun w => (w.watchCalls l directories, w.watching l directories)) u
    obtain ⟨w, hcalls, hw⟩ := S.exec_calls (a.watcher.watchCalls l directories) v
    simp only at h
    rw [exec_bind, hchange] at h
    simp only at h
    rw [hcalls] at h
    cases h
    refine .inr ⟨directories, u, rfl, rfl, ?_⟩
    rw [hw, books, hv, ← hseen, books, ← hwaits.agrees.books]
    exact a.books_watching l directories

theorem books_updated {directories : List String} {u w : σ}
    (hbring : exec (Watcher.bring l : Routine σ UpdateReport) s = (.ok r, u))
    (hsettle : exec (Watcher.settle l r : Routine σ (List DiskPath)) u = (.ok files, v))
    (hdirectories : exec (Watcher.directoriesOf files : Routine σ (List String)) v
      = (.ok directories, w))
    (hwatch : exec (Watcher.watch l files : Routine σ Unit) v = (.ok (), t)) :
    ∃ current : DiskPath, S.books t = (((S.books s).giveUp l.name).know l.name
      (sortedSet (files.map fun f => PathText.absolute current.toText f.toText))).take l.name
        directories := by
  rw [← along_bring_books.of_exec hbring]
  obtain ⟨_, he, _⟩ | ⟨files', current, he, -, hv⟩ := books_settle hsettle <;> cases he
  obtain ⟨_, he, _⟩ | ⟨directories', w', _, hfound, ht⟩ := books_watch hwatch
  · cases he
  · cases hdirectories.symm.trans hfound
    exact ⟨current, hv ▸ ht⟩

/-- What a step does to the books. -/
theorem Step.books (h : S.Step s new t) :
    S.books t = S.books s ∨ S.books t = (S.books s).start
    ∨ ∃ name, (.broke name ∈ new ∧ (S.books t = (S.books s).giveUp name
        ∨ ∃ known, S.books t = ((S.books s).giveUp name).know name known))
      ∨ ∃ (files : List DiskPath) (current : DiskPath) (directories : List String),
        new = S.came s t ++ [.refreshed name files directories t]
        ∧ S.books t = (((S.books s).giveUp name).know name
          (sortedSet (files.map fun f => PathText.absolute current.toText f.toText))).take name
            directories := by
  cases h with
  | waited h => exact .inl h.agrees.books
  | polled name h =>
    obtain ⟨u, hwaits, -, ht⟩ := exists_of_change h
    refine .inl (Eq.trans ?_ hwaits.agrees.books)
    obtain ⟨-, hscheduled⟩ := u.watcher.adjust_project name Handler.poll
    rw [Scene.books, ht]
    exact Stage.Agrees.books ⟨(u.watcher.adjust_project name _).1, hscheduled,
      u.watcher.keys_adjust _ _, u.watcher.plan_poll name, rfl⟩
  | started h =>
    obtain ⟨u, v, hwaits, hv, hcall⟩ := S.call .start s
    obtain rfl := (Prod.mk.inj (h.symm.trans hcall)).2
    refine .inr (.inl ?_)
    rw [Scene.books, hv, Scene.books, ← hwaits.agrees.books]
    rfl
  | stopped _ h => exact .inl (along_bring_books.of_exec h)
  | @broken _ u l r e _ hbring h =>
    rw [← along_bring_books.of_exec hbring]
    refine .inr (.inr ⟨l.name, .inl ⟨by simp, ?_⟩⟩)
    obtain h | ⟨files, v, hsettle, hwatch⟩ := error_of_exec_bind h
    · obtain ⟨-, -, ht⟩ | ⟨_, _, he, _⟩ := books_settle h
      · exact .inl ht
      · cases he
    · obtain ⟨_, he, _⟩ | ⟨files', current, he, -, hv⟩ := books_settle hsettle
      · cases he
      · obtain ⟨-, -, ht⟩ | ⟨_, _, he, _⟩ := books_watch hwatch
        · exact .inr ⟨_, ht.trans hv⟩
        · cases he
  | updated _ hbring hsettle hdirectories hwatch =>
    obtain ⟨current, ht⟩ := books_updated hbring hsettle hdirectories hwatch
    exact .inr (.inr ⟨_, .inr ⟨_, current, _, rfl, ht⟩⟩)

/-- A library was updated last, and its watches have not been given up since. -/
def Refreshed (name : String) (files : List DiskPath) (directories : List String) (t : σ)
    (hist : List (Happening σ)) : Prop :=
  Since (· = .refreshed name files directories t)
    (fun x => x = .broke name ∨ ∃ files directories t, x = .refreshed name files directories t) hist

/-- A library was updated last although another one was updated after it. -/
theorem refreshed_of_other {directories directories' : List String} {files' : List DiskPath}
    {other : String} (hother : name ≠ other) :
    Refreshed name files directories t (hist ++ (S.came s t ++ [.refreshed name files directories t])
      ++ (S.came t v ++ [.refreshed other files' directories' v])) := by
  refine since_append.2 (.inr ⟨?_, fun x hx => ?_⟩)
  · exact since_append.2 (.inl (since_append.2 (.inl (since_singleton.2 rfl))))
  · rintro (rfl | ⟨_, _, _, rfl⟩) <;>
      rcases List.mem_append.1 hx with hx | hx
    · obtain ⟨_, heq⟩ := eq_delivered_of_mem_came hx
      cases heq
    · cases List.mem_singleton.1 hx
    · obtain ⟨_, heq⟩ := eq_delivered_of_mem_came hx
      cases heq
    · exact hother (Happening.refreshed.inj (List.mem_singleton.1 hx)).1

/-- What is known of a library that was updated last and led to a state: it was given watches there
and was left alone since then. -/
def Settled (S : Scene σ) (name : String) (files : List DiskPath) (directories : List String) (t s : σ) :
    Prop :=
  ∃ (b : Books) (current : DiskPath), b.Sound
    ∧ b.files name = some (sortedSet (files.map fun f => PathText.absolute current.toText f.toText))
    ∧ S.books t = b.take name directories ∧ (S.books t).Later name (S.books s)

theorem Step.sound_books (h : S.Step s new t) (hs : (S.books s).Sound) : (S.books t).Sound := by
  obtain ht | ht | ⟨name, ⟨-, ht | ⟨known, ht⟩⟩ | ⟨files, current, directories, -, ht⟩⟩ := h.books <;>
    rw [ht]
  · exact hs
  · exact hs.start
  · exact hs.giveUp name
  · exact (hs.giveUp name).know name known
  · exact ((hs.giveUp name).know name _).take name directories

theorem Leads.sound_books (h : S.Leads s hist t) (hs : (S.books s).Sound) : (S.books t).Sound := by
  induction h with
  | here => exact hs
  | step _ hstep ih => exact hstep.sound_books ih

/-- A library is left alone by a step that does not update it. -/
theorem Step.later (h : S.Step s new t) (hbroke : .broke name ∉ new)
    (hrefreshed : ∀ files directories t', .refreshed name files directories t' ∉ new) :
    (S.books s).Later name (S.books t) := by
  obtain ht | ht | ⟨other, ⟨hnew, ht | ⟨known, ht⟩⟩ | ⟨files, current, directories, rfl, ht⟩⟩ := h.books <;>
    rw [ht]
  · exact .refl
  · exact .start
  · have hname : name ≠ other := fun h => hbroke (h ▸ hnew)
    exact .giveUp hname
  · have hname : name ≠ other := fun h => hbroke (h ▸ hnew)
    exact (Books.Later.giveUp hname).trans (.know hname known)
  · have hname : name ≠ other := by
      rintro rfl
      exact hrefreshed _ _ _ (List.mem_append_right _ (List.mem_singleton_self _))
    exact ((Books.Later.giveUp hname).trans (.know hname _)).trans (.take hname directories)

theorem Step.settled {directories : List String} {u : σ} (h : S.Step s new t) (hs : (S.books s).Sound)
    (hmem : .refreshed name files directories u ∈ new) : S.Settled name files directories u t := by
  have hcame : .refreshed name files directories u ∉ S.came s t := fun h => by
    obtain ⟨_, heq⟩ := eq_delivered_of_mem_came h
    cases heq
  cases h with
  | waited | started | stopped => exact absurd hmem hcame
  | polled | broken => simp [hcame] at hmem
  | @updated _ _ _ _ l _ files' directories' _ hbring hsettle hdirectories hwatch =>
    obtain ⟨rfl, rfl, rfl, rfl⟩ : name = l.name ∧ files = files' ∧ directories = directories' ∧ u = t := by
      simpa [hcame] using hmem
    obtain ⟨current, ht⟩ := books_updated hbring hsettle hdirectories hwatch
    exact ⟨_, current, (hs.giveUp _).know _ _, by simp [Books.know], ht, .refl⟩

theorem Leads.settled {directories : List String} {u : σ} (h : S.Leads s hist t) (hs : (S.books s).Sound)
    (hlast : Refreshed name files directories u hist) : S.Settled name files directories u t := by
  induction h with
  | here =>
    obtain ⟨x, hx, -⟩ := hlast.exists_mem
    cases hx
  | @step hist new v w hleads hstep ih =>
    rcases since_append.1 hlast with hlast | ⟨hlast, hnone⟩
    · obtain ⟨x, hmem, rfl⟩ := hlast.exists_mem
      exact hstep.settled (hleads.sound_books hs) hmem
    · obtain ⟨b, current, hb, hfiles, hv, hlater⟩ := ih hlast
      refine ⟨b, current, hb, hfiles, hv, hlater.trans (hstep.later (fun h => ?_) fun _ _ _ h => ?_)⟩
      · exact hnone _ h (.inl rfl)
      · exact hnone _ h (.inr ⟨_, _, _, rfl⟩)

/-- A library is registered for a directory that was watched for it when it was updated last, exactly
if no other library has given up a watch of the directory since then. -/
theorem Reached.registered_iff {directories : List String} (h : S.Reached hist s)
    (hlast : Refreshed name files directories t hist) :
    (∃ current : DiskPath, ((S.stage s).watcher.handlers.get? name).map (·.files)
      = some (sortedSet (files.map fun f => PathText.absolute current.toText f.toText)))
    ∧ ∀ directory ∈ directories, Registered (S.stage s).calls name directory
      ↔ ∀ n other, .schedule n other directory ∈ (S.stage s).calls → other ≠ name →
        .unschedule n ∉ (S.stage s).calls.drop (S.stage t).calls.length := by
  obtain ⟨first, hhandlers, hcalls, hleads⟩ := h
  obtain ⟨b, current, hb, hfiles, ht, hlater⟩ :=
    hleads.settled (Stage.sound_books_of_fresh hhandlers hcalls) hlast
  refine ⟨⟨current, ?_⟩, fun directory hdirectory => ?_⟩
  · have hknown : (S.books s).files name = b.files name := by
      rw [hlater.files, ht]
      simp [Books.take, Books.hold, hfiles]
    rw [← hfiles, ← hknown]
    simp [books, Stage.books, Watcher.plan, Function.comp_def]
  · rw [ht] at hlater
    change Registered (S.books s).calls name directory ↔ ∀ n other,
      .schedule n other directory ∈ (S.books s).calls → other ≠ name →
        .unschedule n ∉ (S.books s).calls.drop (S.books t).calls.length
    rw [ht]
    exact hlater.registered hb hdirectory

end Scene

namespace SharedWatch

def firstLibrary : Library := { name := "A", file := "a.hlsl" }

def secondLibrary : Library := { name := "B", file := "b.hlsl" }

def project : Project := { root := .fileSystem, libraries := [firstLibrary, secondLibrary] }

def theatre : Theatre := { world := { watcher := { project := project } } }

/-- The first library has been updated. -/
def first : Theatre := (exec (Watcher.update firstLibrary : Routine Theatre UpdateReport) theatre).2

/-- The second library was brought up to date after that. -/
def brought : Except Fault UpdateReport × Theatre := exec (Watcher.bring secondLibrary) first

def report : UpdateReport := brought.1.toOption.getD { library := "B" }

def settled : Except Fault (List DiskPath) × Theatre :=
  exec (Watcher.settle secondLibrary report) brought.2

def files : List DiskPath := [⟨.root, ["b.hlsl"]⟩]

/-- The second library has been updated. -/
def second : Theatre := (exec (Watcher.watch secondLibrary files : Routine Theatre Unit) settled.2).2

/-- The first library has been updated again. -/
def third : Theatre := (exec (Watcher.update firstLibrary : Routine Theatre UpdateReport) second).2

theorem updates_of_theatre :
    (exec (Watcher.update firstLibrary : Routine Theatre UpdateReport) theatre).1.toOption.isSome
    ∧ brought.1.toOption.isSome ∧ settled.1 = .ok files
    ∧ (exec (Watcher.directoriesOf files : Routine Theatre (List String)) settled.2).1 = .ok ["/"]
    ∧ (exec (Watcher.watch secondLibrary files : Routine Theatre Unit) settled.2).1 = .ok ()
    ∧ (exec (Watcher.update firstLibrary : Routine Theatre UpdateReport) second).1.toOption.isSome
    ∧ ¬Registered third.world.calls "B" "/" := by
  decide +kernel

/-- The second library is registered no more once the first one has been updated again. -/
theorem registered_iff_of_updated_again :
    ∃ hist, Theatre.scene.Reached hist third ∧ Scene.Refreshed "B" files ["/"] second hist
      ∧ ¬Registered (Theatre.scene.stage third).calls "B" "/"
      ∧ ∃ n other, .schedule n other "/" ∈ (Theatre.scene.stage third).calls ∧ other ≠ "B"
        ∧ .unschedule n ∈ (Theatre.scene.stage third).calls.drop
          (Theatre.scene.stage second).calls.length := by
  obtain ⟨hfirst, hbrought, hsettled, hdirectories, hwatch, hthird, hregistered⟩ := updates_of_theatre
  obtain ⟨_, hfirst⟩ : ∃ r, exec (Watcher.update firstLibrary : Routine Theatre UpdateReport) theatre
    = (.ok r, first) := exists_exec_of_isSome hfirst
  obtain ⟨_, hthird⟩ : ∃ r, exec (Watcher.update firstLibrary : Routine Theatre UpdateReport) second
    = (.ok r, third) := exists_exec_of_isSome hthird
  obtain ⟨r, hbring⟩ : ∃ r, brought = (.ok r, brought.2) := exists_exec_of_isSome hbrought
  have hreport : report = r := by
    unfold report
    rw [hbring]
    rfl
  have hfresh : Theatre.scene.Reached [] theatre := ⟨theatre, rfl, rfl, .here⟩
  have hlibraries : (Theatre.scene.stage theatre).watcher.project.libraries
    = [firstLibrary, secondLibrary] := rfl
  obtain ⟨_, _, hstep⟩ := Scene.exists_step_of_update (S := Theatre.scene)
    (hlibraries ▸ List.mem_cons_self) hfirst
  have hproject := hstep.keeps.project
  have hstep' : Theatre.scene.Step first _ second := .updated (by rw [hproject, hlibraries]; simp)
    (hreport ▸ hbring) (exec_of_fst hsettled) (exec_of_fst hdirectories) (exec_of_fst hwatch)
  obtain ⟨_, _, hstep''⟩ := Scene.exists_step_of_update (S := Theatre.scene)
    (by rw [hstep'.keeps.project, hproject, hlibraries]; exact List.mem_cons_self) hthird
  have hreached := ((hfresh.leads hstep.leads).leads hstep'.leads).leads hstep''.leads
  obtain ⟨-, hiff⟩ := hreached.registered_iff
    (Scene.refreshed_of_other (show "B" ≠ firstLibrary.name by decide))
  have hgone := (not_congr (hiff "/" (List.mem_singleton_self _))).1 hregistered
  push Not at hgone
  exact ⟨_, hreached, Scene.refreshed_of_other (by decide), hregistered, hgone⟩

/-- Two libraries whose sources are in one directory. -/
def fresh : World where
  disk := { entries := [(["a.hlsl"], .file "".toUTF8), (["b.hlsl"], .file "".toUTF8)] }
  watcher := { project := project }

/-- A watcher is started, an event comes to its handlers, and there is a tick. -/
def startAndTick (e : FileEvent) : InWorld Unit := do
  let _ ← Watcher.start
  Watcher.deliver e
  let _ ← Watcher.tick

def ticked : World := (exec (startAndTick (.modified "a.hlsl")) fresh).2

theorem registrations_of_ticked : (exec (startAndTick (.modified "a.hlsl")) fresh).1 = .ok ()
    ∧ (ticked.watcher.handlers.get? "B").map (·.files) = some ["/b.hlsl"]
    ∧ ticked.disk.holds (DiskPath.ofString "/b.hlsl").parent Entry.isDirectory = .ok true
    ∧ ¬Registered ticked.calls "B" (DiskPath.ofString "/b.hlsl").parent.toText := by
  decide +kernel

/-- A library is not always registered for the directories of its files that are there: another
library in the directory takes the registrations of all with its watch. -/
theorem not_forall_registered : ¬∀ (w t : World) (e : FileEvent), w.watcher.handlers = [] →
    w.calls = [] → (w.watcher.project.libraries.map (·.name)).Nodup →
    exec (startAndTick e) w = (.ok (), t) → ∀ name h file, t.watcher.handlers.get? name = some h →
      file ∈ h.files → t.disk.holds (DiskPath.ofString file).parent Entry.isDirectory = .ok true →
      Registered t.calls name (DiskPath.ofString file).parent.toText := by
  intro hall
  have hticked := registrations_of_ticked
  unfold ticked at hticked
  rcases hexec : exec (startAndTick (.modified "a.hlsl")) fresh with ⟨result, t⟩
  rw [hexec] at hticked
  obtain ⟨rfl, hfiles, hdirectory, hregistered⟩ := hticked
  obtain ⟨h, hget, hfile⟩ := Option.map_eq_some_iff.1 hfiles
  have hmem : "/b.hlsl" ∈ h.files := hfile ▸ List.mem_singleton_self _
  exact hregistered (hall fresh t (.modified "a.hlsl") rfl rfl (by decide) hexec "B" h _ hget hmem hdirectory)

end SharedWatch

end ShaderGraph
