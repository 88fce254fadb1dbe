import ShaderGraph.Proofs.Layout

/-!
# Sources that go on

A function is found once and for all when its last brace closes: the functions of a source that is
cut off somewhere come first among those of the whole source (`scan_prefix`). After an empty line
nothing of what stands before is pending, so the rest of a source scans as it would alone, only with
the lines counted on (`scan_append`): the scan of the rest is followed character by character beside
one that starts with lines and functions behind it.
-/

namespace ShaderGraph

open Text

/-! ## Texts in two parts -/

theorem joinCrLf_cons {c : Char} {cs : List Char} (h : c = '\r' → cs.head? ≠ some '\n') :
    joinCrLf (c :: cs) = c :: joinCrLf cs := by
  rw [joinCrLf]
  rintro _ hc rfl
  exact h hc rfl

/-- Two parts are joined apart, unless the cut is inside of a line end. -/
theorem joinCrLf_append {as bs : List Char}
    (h : as.getLast? = some '\r' → bs.head? ≠ some '\n') :
    joinCrLf (as ++ bs) = joinCrLf as ++ joinCrLf bs := by
  induction as using joinCrLf.induct with
  | case1 => rfl
  | case2 as ih =>
    rw [List.cons_append, List.cons_append, joinCrLf, joinCrLf, List.cons_append, ih]
    intro hlast
    exact h (by simp [List.getLast?_cons, hlast])
  | case3 c as hc ih =>
    have hhead : c = '\r' → (as ++ bs).head? ≠ some '\n' := by
      rintro rfl
      cases as with
      | nil => exact h rfl
      | cons a as => exact fun ha => hc as rfl (by simpa using ha)
    rw [List.cons_append, joinCrLf_cons hhead, joinCrLf_cons fun hr => ?_, List.cons_append, ih]
    · intro hlast
      exact h (by simp [List.getLast?_cons, hlast])
    · intro ha
      cases as with
      | nil => cases ha
      | cons a as => exact hhead hr ha

/-- A scope that lasts to the end of the line. -/
def Scope.InLine : Scope → Prop
  | directive _ | comment _ => True
  | outside _ | returnType _ | name _ | arguments _ _ _ | bodyStart _ | body _ _ => False

/-- A scope in which a function has begun and not ended. -/
def Scope.InFunction : Scope → Prop
  | outside _ | directive _ | comment _ => False
  | returnType _ | name _ | arguments _ _ _ | bodyStart _ | body _ _ => True

theorem sound_start : ScanState.Sound {} := ⟨trivial, by simp⟩

theorem hasRead_of_feedAll {cs : List Char} {s : ScanState} (h : ScanState.feedAll {} cs = .ok s) :
    s.HasRead cs :=
  ScanState.HasRead.feedAll sound_start ⟨rfl, [], [], rfl, .gap .empty, rfl⟩ h

namespace ScanState

variable {s t : ScanState} {c : Char}

theorem exists_of_feedAll_append :
    ∀ {cs ds : List Char} {s u : ScanState}, s.feedAll (cs ++ ds) = .ok u →
      ∃ t, s.feedAll cs = .ok t ∧ t.feedAll ds = .ok u
  | [], _, s, _, h => ⟨s, rfl, h⟩
  | c :: cs, ds, s, u, h => by
    rw [List.cons_append, feedAll] at h
    rw [feedAll]
    split at h
    · cases h
    · exact exists_of_feedAll_append h

theorem feedAll_append_of_ok :
    ∀ {cs ds : List Char} {s t : ScanState}, s.feedAll cs = .ok t →
      s.feedAll (cs ++ ds) = t.feedAll ds
  | [], _, s, t, h => by
    cases h
    rfl
  | c :: cs, ds, s, t, h => by
    rw [feedAll] at h
    rw [List.cons_append, feedAll]
    split at h
    · cases h
    · exact feedAll_append_of_ok h

theorem feedAll_singleton : s.feedAll [c] = s.feed c := by
  rw [feedAll]
  split <;> simp_all [feedAll]

/-! ## What is found stays -/

theorem found_suffix_of_feed (hs : s.Sound) (h : s.feed c = .ok t) : s.found <:+ t.found := by
  cases step_of_feed hs.scope h with
  | turn => exact List.suffix_refl _
  | close => exact List.suffix_cons _ _

theorem found_suffix_of_feedAll {t : ScanState} :
    ∀ {cs : List Char} {s : ScanState}, s.Sound → s.feedAll cs = .ok t → s.found <:+ t.found
  | [], s, _, h => by
    cases h
    exact List.suffix_refl _
  | c :: cs, s, hs, h => by
    unfold feedAll at h
    split at h
    · cases h
    · rename_i u hu
      exact (found_suffix_of_feed hs hu).trans (found_suffix_of_feedAll (hs.feed hu) h)

/-- A line break ends a comment, a directive or a blank line, and otherwise nothing. -/
theorem feed_lineBreak (hs : s.Sound) (hc : isLineBreak c = true) (h : s.feed c = .ok t) :
    t.found = s.found ∧ ((∃ p, s.scope = .outside p) ∧ t.scope = .outside none
      ∨ s.scope.InLine ∧ (∃ p, t.scope = .outside p) ∨ s.scope.InFunction ∧ t.scope.InFunction) := by
  have hb := isBlank_of_isLineBreak hc
  have hother : ∀ o, isBlank o = false → c ≠ o := by
    rintro o ho rfl
    rw [hb] at ho
    cases ho
  cases step_of_feed hs.scope h with
  | turn hturn =>
    refine ⟨rfl, ?_⟩
    cases hturn with
    | forget => exact .inl ⟨⟨_, rfl⟩, rfl⟩
    | endDirective | endComment => exact .inr (.inl ⟨trivial, _, rfl⟩)
    | endType | aroundName | openArguments | inArgument | nextArgument | closeArguments | beforeBody
    | openBody | inBody => exact .inr (.inr ⟨trivial, trivial⟩)
    | keep hl | inDirective hl | inComment hl => simp [hc] at hl
    | openFunction hb' | inType hb' | inName hb' => simp [hb] at hb'
    | openDirective hhash => exact absurd hhash (hother '#' (by decide))
    | openComment hslash => exact absurd hslash (hother '/' (by decide))
  | close hbrace => exact absurd hbrace (hother '}' (by decide))

/-- After an empty line a source that may end is between functions, with nothing pending. -/
theorem scope_eq_of_emptyLine {b : Char} {u : ScanState} {fs : List ShaderFunction} (hs : s.Sound)
    (hb : isLineBreak b = true) (hc : isLineBreak c = true) (ht : s.feed b = .ok t)
    (hu : t.feed c = .ok u) (hfs : u.finish = .ok fs) : u.scope = .outside none := by
  obtain ⟨-, hfirst⟩ := feed_lineBreak hs hb ht
  obtain ⟨-, hsecond⟩ := feed_lineBreak (hs.feed ht) hc hu
  rcases hsecond with ⟨-, h⟩ | ⟨hline, -⟩ | ⟨-, h⟩
  · exact h
  · rcases hfirst with ⟨-, h⟩ | ⟨-, p, h⟩ | ⟨-, h⟩
    · rw [h] at hline
      exact hline.elim
    · rw [h] at hline
      exact hline.elim
    · unfold Scope.InFunction at h
      unfold Scope.InLine at hline
      split at h <;> simp_all
  · unfold Scope.InFunction at h
    unfold finish at hfs
    split at hfs <;> simp_all

theorem finish_eq_ok {fs : List ShaderFunction} (h : s.finish = .ok fs) : fs = s.found.reverse := by
  unfold finish at h
  split at h <;> cases h <;> rfl

end ScanState

open ScanState

theorem exists_of_scan_eq_ok {text : String} {fs : List ShaderFunction}
    (h : ShaderFunction.scan text = .ok fs) :
    ∃ s, feedAll {} (joinCrLf text.toList) = .ok s ∧ s.finish = .ok fs := by
  unfold ShaderFunction.scan at h
  split at h
  · cases h
  · exact ⟨_, ‹_›, h⟩

/-- Where both a source and a part of it from its start scan, the functions of the part come first
among those of the source, the same in every field. -/
theorem scan_prefix {part text : String} (hpart : part.toList <+: text.toList)
    {fs gs : List ShaderFunction} (hfs : ShaderFunction.scan part = .ok fs)
    (hgs : ShaderFunction.scan text = .ok gs) : fs <+: gs := by
  obtain ⟨s, hs, hsf⟩ := exists_of_scan_eq_ok hfs
  obtain ⟨t, ht, htf⟩ := exists_of_scan_eq_ok hgs
  obtain ⟨rest, hrest⟩ := hpart
  rw [finish_eq_ok hsf, finish_eq_ok htf, List.reverse_prefix]
  rw [← hrest] at ht
  by_cases hcut : part.toList.getLast? = some '\r' ∧ rest.head? = some '\n'
  · -- the cut is inside of a line end, of which either half ends the line
    obtain ⟨q, hq⟩ := List.getLast?_eq_some_iff.1 hcut.1
    obtain ⟨rest', rfl⟩ := List.head?_eq_some_iff.1 hcut.2
    rw [hq, joinCrLf_append (by simp)] at hs
    rw [hq, List.append_assoc, joinCrLf_append (by simp)] at ht
    obtain ⟨u, hu, hsu⟩ := exists_of_feedAll_append hs
    obtain ⟨u', hu', htu⟩ := exists_of_feedAll_append ht
    obtain rfl : u = u' := Except.ok.inj (hu.symm.trans hu')
    have hsound := sound_start.feedAll hu
    obtain ⟨hfound, -⟩ := feed_lineBreak (c := '\r') hsound (by decide) (feedAll_singleton.symm.trans hsu)
    rw [hfound]
    exact found_suffix_of_feedAll hsound htu
  · rw [joinCrLf_append (not_and.1 hcut)] at ht
    obtain ⟨u, hu, hut⟩ := exists_of_feedAll_append ht
    obtain rfl : s = u := Except.ok.inj (hs.symm.trans hu)
    exact found_suffix_of_feedAll (sound_start.feedAll hs) hut

theorem scan_prefix_of_halved_lineEnd :
    let part := "void F()\x7b\x7d\r"
    let text := part ++ "\n// a\nint G()\x7b\x7d"
    let f : ShaderFunction := { startLine := 0, returnType := "void", name := "F" }
    let g : ShaderFunction := { startLine := 2, comment := "// a\n", returnType := "int", name := "G" }
    part.toList <+: text.toList ∧ ShaderFunction.scan part = .ok [f]
      ∧ ShaderFunction.scan text = .ok [f, g] ∧ [f] <+: [f, g] := by
  intro part text f g
  have hpart : part.toList <+: text.toList := by simp [text]
  have hevaluated : ShaderFunction.scan part = .ok [f] ∧ ShaderFunction.scan text = .ok [f, g] := by
    decide +kernel
  exact ⟨hpart, hevaluated.1, hevaluated.2, scan_prefix hpart hevaluated.1 hevaluated.2⟩

/-! ## A source after another one -/

/-- A function further down in its source. -/
def ShaderFunction.movedDown (n : Nat) (f : ShaderFunction) : ShaderFunction :=
  { f with startLine := f.startLine + n }

/-- A scope after so many lines. The line of a brace has been noted in a body only. -/
def Scope.movedDown (n : Nat) : Scope → Scope
  | .body d q => .body { d with startLine := d.startLine + n } q
  | sc => sc

/-- An error of a source as it shows after lines and functions: the same one so many lines below,
except that a stray brace before all functions names the last function above it. -/
structure ScanError.Follows (e' e : ScanError) (n : Nat) (last : Option ShaderFunction) : Prop where
  line : e'.line = e.line + n
  fault : e'.fault = e.fault
    ∨ ∃ f, last = some f ∧ e.fault = .strayBrace "" ∧ e'.fault = .strayBrace f.name

/-- An outcome as it is after lines and functions, results being moved by `move`. -/
def Beside {α : Type} (n : Nat) (last : Option ShaderFunction) (move : α → α)
    (x y : Except ScanError α) : Prop :=
  match x with
  | .ok a => y = .ok (move a)
  | .error e => ∃ e', y = .error e' ∧ e'.Follows e n last

theorem Beside.cases {α : Type} {n : Nat} {last : Option ShaderFunction} {move : α → α}
    {x y : Except ScanError α} (h : Beside n last move x y) :
    (∃ a, x = .ok a ∧ y = .ok (move a))
      ∨ ∃ e e', x = .error e ∧ y = .error e' ∧ e'.Follows e n last := by
  cases x with
  | ok a => exact .inl ⟨a, rfl, h⟩
  | error e =>
    obtain ⟨e', hy, hfollows⟩ := h
    exact .inr ⟨e, e', rfl, hy, hfollows⟩

namespace ScanState

/-- A scan with lines and functions behind it. -/
def after (n : Nat) (F : List ShaderFunction) (s : ScanState) : ScanState :=
  ⟨s.scope.movedDown n, s.line + n, s.found.map (·.movedDown n) ++ F⟩

end ScanState

/-- What a look leads to with lines and functions behind it. -/
def Look.after (n : Nat) (F : List ShaderFunction) : Look → Look
  | .taken s => .taken (s.after n F)
  | .putBack s => .putBack (s.after n F)

namespace ScanState

variable (n : Nat) (F : List ShaderFunction)

theorem lookOutside_after (s : ScanState) (p : Option Draft) (c : Char) (hs : s.scope = .outside p) :
    Beside n F.head? (Look.after n F) (s.lookOutside p c) ((s.after n F).lookOutside p c) := by
  obtain ⟨sc, k, found⟩ := s
  obtain rfl : sc = .outside p := hs
  unfold lookOutside
  split_ifs with hl hb hc
  · rfl
  · rfl
  · refine ⟨_, rfl, by simp [after]; omega, ?_⟩
    cases p with
    | some d => exact .inl rfl
    | none =>
      cases found with
      | cons f found => exact .inl rfl
      | nil =>
        cases F with
        | nil => exact .inl rfl
        | cons f F => exact .inr ⟨f, rfl, rfl, rfl⟩
  · have hopened : (Scope.opened c (p.getD {})).movedDown n = .opened c (p.getD {}) := by
      unfold Scope.opened
      split_ifs <;> rfl
    simp only [Beside, Look.after, after, hopened]

theorem movedDown_afterArgument (d : Draft) (q : Nat) (b : Int) (c : Char) :
    (afterArgument d q b c).movedDown n = afterArgument d q b c := by
  unfold afterArgument
  generalize (if c = '(' then q + 1 else if c = ')' then q - 1 else q) = q'
  generalize (if c = '[' then b + 1 else if c = ']' then b - 1 else b) = b'
  simp only
  split_ifs <;> rfl

theorem takeBody_after (s : ScanState) (d : Draft) (q : Nat) (c : Char) :
    (s.after n F).takeBody { d with startLine := d.startLine + n } q c
      = (s.takeBody d q c).after n F := by
  unfold takeBody
  generalize (if c = '{' then q + 1 else if c = '}' then q - 1 else q) = q'
  simp only
  split_ifs <;> rfl

theorem lookIn_after (s : ScanState) (c : Char) :
    Beside n F.head? (Look.after n F) (s.lookIn c) ((s.after n F).lookIn c) := by
  obtain ⟨sc, k, found⟩ := s
  cases sc with
  | outside p => exact lookOutside_after n F ⟨.outside p, k, found⟩ p c rfl
  | directive d | comment d | returnType d | name d =>
    simp only [lookIn, after, Scope.movedDown]
    split_ifs <;> rfl
  | arguments d q b =>
    simp only [lookIn, Beside, Look.after, after, movedDown_afterArgument]
    rfl
  | bodyStart d =>
    simp only [lookIn, after, Scope.movedDown]
    split_ifs
    · rfl
    · simp [Beside, Look.after, after, Scope.movedDown]
    · exact ⟨_, rfl, by simp; omega, .inl rfl⟩
  | body d q =>
    exact congrArg (fun t => Except.ok (Look.taken t)) (takeBody_after n F ⟨.body d q, k, found⟩ d q c)

theorem look_after (s : ScanState) (c : Char) :
    Beside n F.head? (Look.after n F) (s.look c) ((s.after n F).look c) := by
  have hcount : (s.after n F).countLine c = (s.countLine c).after n F := by
    unfold countLine
    split_ifs
    · simp only [after, Nat.add_right_comm]
    · rfl
  unfold look
  rw [hcount]
  exact lookIn_after n F _ c

theorem feed_after (s : ScanState) (c : Char) :
    Beside n F.head? (after n F) (s.feed c) ((s.after n F).feed c) := by
  unfold feed
  rcases (look_after n F s c).cases with ⟨k, hs, hs'⟩ | ⟨e, e', hs, hs', hfollows⟩
  · rw [hs, hs']
    cases k with
    | taken t => rfl
    | putBack t =>
      simp only [Look.after]
      rcases (look_after n F t c).cases with ⟨k, ht, ht'⟩ | ⟨e, e', ht, ht', hfollows⟩
      · rw [ht, ht']
        cases k <;> rfl
      · rw [ht, ht']
        exact ⟨e', rfl, hfollows⟩
  · rw [hs, hs']
    exact ⟨e', rfl, hfollows⟩

theorem feedAll_after :
    ∀ (cs : List Char) (s : ScanState),
      Beside n F.head? (after n F) (s.feedAll cs) ((s.after n F).feedAll cs)
  | [], _ => rfl
  | c :: cs, s => by
    rw [feedAll, feedAll]
    rcases (feed_after n F s c).cases with ⟨t, hs, hs'⟩ | ⟨e, e', hs, hs', hfollows⟩
    · rw [hs, hs']
      exact feedAll_after cs t
    · rw [hs, hs']
      exact ⟨e', rfl, hfollows⟩

theorem finish_after (s : ScanState) :
    Beside n F.head? (fun fs => F.reverse ++ fs.map (·.movedDown n)) s.finish
      (s.after n F).finish := by
  obtain ⟨sc, k, found⟩ := s
  cases sc with
  | outside p | comment d => simp [finish, Beside, after, Scope.movedDown]
  | directive d | returnType d | name d | arguments d q b | bodyStart d | body d q =>
    exact ⟨_, rfl, by simp [after]; omega, .inl rfl⟩

end ScanState

/-- What is left of a source that ends with an empty line are its functions and its lines. -/
theorem eq_after_of_emptyLine {above : String} {fs : List ShaderFunction}
    (h : ShaderFunction.scan above = .ok fs) (hempty : ['\n', '\n'] <:+ joinCrLf above.toList) :
    feedAll {} (joinCrLf above.toList)
      = .ok (after (lineBreaks (joinCrLf above.toList)) fs.reverse {}) := by
  obtain ⟨s, hs, hsf⟩ := exists_of_scan_eq_ok h
  have hline : s.line = lineBreaks (joinCrLf above.toList) := (hasRead_of_feedAll hs).line
  rw [← hline, finish_eq_ok hsf, List.reverse_reverse, hs]
  obtain ⟨cs, hcs⟩ := hempty
  rw [← hcs, List.append_cons] at hs
  obtain ⟨t, ht, hts⟩ := exists_of_feedAll_append hs
  obtain ⟨u, hu, hut⟩ := exists_of_feedAll_append ht
  rw [feedAll_singleton] at hts hut
  have hscope := scope_eq_of_emptyLine (sound_start.feedAll hu) (by decide) (by decide) hut hts hsf
  obtain ⟨sc, n, F⟩ := s
  obtain rfl : sc = .outside none := hscope
  simp [after, Scope.movedDown]

theorem joinCrLf_append_of_emptyLine {above : String}
    (hempty : ['\n', '\n'] <:+ joinCrLf above.toList) (below : String) :
    joinCrLf (above ++ below).toList = joinCrLf above.toList ++ joinCrLf below.toList := by
  rw [String.toList_append]
  refine joinCrLf_append fun hlast => ?_
  obtain ⟨as, has⟩ := List.getLast?_eq_some_iff.1 hlast
  rw [has, joinCrLf_append (by simp)] at hempty
  have hend := hempty.getLast (by simp)
  simp [joinCrLf] at hend

/-- After an empty line a source goes on as one of its own: where the rest scans, its functions come
after those above, so many lines further down, and where it does not, its error shows so many lines
further down. -/
theorem scan_append {above : String} {fs : List ShaderFunction}
    (h : ShaderFunction.scan above = .ok fs)
    (hempty : ['\n', '\n'] <:+ joinCrLf above.toList) (below : String) :
    let n := lineBreaks (joinCrLf above.toList)
    (∀ gs, ShaderFunction.scan below = .ok gs →
        ShaderFunction.scan (above ++ below) = .ok (fs ++ gs.map (·.movedDown n)))
      ∧ ∀ e, ShaderFunction.scan below = .error e →
        ∃ e', ShaderFunction.scan (above ++ below) = .error e' ∧ e'.Follows e n fs.getLast? := by
  intro n
  have habove := eq_after_of_emptyLine h hempty
  have hbeside : Beside n fs.getLast? (fun gs => fs ++ gs.map (·.movedDown n))
      (ShaderFunction.scan below) (ShaderFunction.scan (above ++ below)) := by
    unfold ShaderFunction.scan
    rw [joinCrLf_append_of_emptyLine hempty, feedAll_append_of_ok habove, ← List.head?_reverse]
    rcases (feedAll_after n fs.reverse (joinCrLf below.toList) {}).cases with
      ⟨t, ht, ht'⟩ | ⟨e, e', he, he', hfollows⟩
    · rw [ht, ht']
      simpa only [List.reverse_reverse] using finish_after n fs.reverse t
    · rw [he, he']
      exact ⟨e', rfl, hfollows⟩
  refine ⟨fun gs hgs => ?_, fun e he => ?_⟩
  · rwa [hgs] at hbeside
  · rwa [he] at hbeside

theorem scan_append_of_pending_comment :
    let above := "void F()\x7b\x7d\r\n// a\n\r\n"
    let f : ShaderFunction := { startLine := 0, returnType := "void", name := "F" }
    let g : ShaderFunction := { startLine := 1, returnType := "int", name := "G" }
    let e : ScanError := ⟨.strayBrace "", 2⟩
    ShaderFunction.scan above = .ok [f]
      ∧ ShaderFunction.scan (above ++ "\nint G()\x7b\x7d") = .ok [f, g.movedDown 3]
      ∧ ∃ e', ShaderFunction.scan (above ++ "\n\x7d") = .error e' ∧ e'.Follows e 3 f := by
  intro above f g e
  have hevaluated : ShaderFunction.scan above = .ok [f] ∧ ['\n', '\n'] <:+ joinCrLf above.toList
      ∧ lineBreaks (joinCrLf above.toList) = 3 ∧ ShaderFunction.scan "\nint G()\x7b\x7d" = .ok [g]
      ∧ ShaderFunction.scan "\n\x7d" = .error e := by
    decide +kernel
  obtain ⟨habove, hempty, hlines, hbelow, hbroken⟩ := hevaluated
  have hall := (scan_append habove hempty _).1 _ hbelow
  have herror := (scan_append habove hempty _).2 _ hbroken
  rw [hlines] at hall herror
  exact ⟨habove, hall, herror⟩

end ShaderGraph
