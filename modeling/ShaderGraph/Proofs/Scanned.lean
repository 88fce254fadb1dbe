import ShaderGraph.Proofs.Reading

/-!
# What a scan finds

Every function that a scan finds can be told apart from its text: its parts do not run into each
other and its comment is made of comment lines. What is known of the draft while it is read is an
invariant of the scan, one clause for each scope, and the clause of the body gives what is known of
a function when its last brace closes. `ScanState.step_of_feed` says once what a character can make
of a scan that is so far sound; what a scan keeps follows from it by cases.
-/

namespace ShaderGraph

open Text

/-- A function as a scan finds it. -/
structure ShaderFunction.Scanned (f : ShaderFunction) : Prop where
  legible : f.Legible
  comment : IsComment f.comment.toList
  startLine : 0 ≤ f.startLine

namespace Draft

/-- A draft whose parts before the arguments are read, or are being read. -/
structure Framed (d : Draft) : Prop where
  comment : IsComment d.comment.toList
  opening : d.returnType.toList.head? ∉ [none, some '#', some '/', some '}']
  returnType : ∀ c ∈ d.returnType.toList, isBlank c = false
  name : ∀ c ∈ d.name.toList, isBlank c = false ∧ c ≠ '('

/-- A draft whose arguments are being read, inside so many parentheses and square brackets. -/
structure Listed (d : Draft) (parens : Nat) (brackets : Int) : Prop where
  earlier : ∀ a ∈ d.earlier, IsArgument a.toList ∧ net '[' ']' a.toList = 0
  inside : Inside '(' ')' 0 d.current.toList
  parens : net '(' ')' d.current.toList + 1 = parens
  brackets : net '[' ']' d.current.toList = brackets
  commas : ∀ p, p ++ [','] <+: d.current.toList → 0 < net '(' ')' p ∨ net '[' ']' p ≠ 0

variable {d : Draft} {q : Nat} {b : Int}

/-- The first character of the return type, which is not blank, opens the frame. -/
theorem framed_of_opening (h : IsComment d.comment.toList) (hd : d = { comment := d.comment })
    {c : Char} (hb : isBlank c = false) (hhash : c ≠ '#') (hslash : c ≠ '/') (hbrace : c ≠ '}') :
    Framed { d with returnType := d.returnType.push c } := by
  rw [hd]
  have htype : ("".push c).toList = [c] := by simp
  refine ⟨h, ?_, ?_, by simp⟩
  · rw [htype]
    simp [hhash, hslash, hbrace]
  · rw [htype]
    simpa using hb

theorem Framed.pushType (h : d.Framed) {c : Char} (hb : isBlank c = false) :
    Framed { d with returnType := d.returnType.push c } := by
  have hopening := h.opening
  refine ⟨h.comment, ?_, ?_, h.name⟩
  · rw [String.toList_push, List.head?_append]
    cases hhead : d.returnType.toList.head? with
    | none => simp [hhead] at hopening
    | some o => rwa [hhead] at hopening
  · rw [String.toList_push]
    exact List.forall_mem_append.2 ⟨h.returnType, by simpa using hb⟩

theorem Framed.pushName (h : d.Framed) {c : Char} (hb : isBlank c = false) (hc : c ≠ '(') :
    Framed { d with name := d.name.push c } := by
  refine ⟨h.comment, h.opening, h.returnType, ?_⟩
  rw [String.toList_push]
  exact List.forall_mem_append.2 ⟨h.name, by simpa using ⟨hb, hc⟩⟩

theorem listed_of_empty (he : d.earlier = []) (hc : d.current = "") : d.Listed 1 0 := by
  have hnil : d.current.toList = [] := by rw [hc]; rfl
  refine ⟨?_, ?_, ?_, ?_, ?_⟩
  · simp [he]
  · rw [hnil]
    exact inside_nil.2 le_rfl
  · rw [hnil]
    rfl
  · rw [hnil]
    rfl
  · intro p hp
    rw [hnil, List.prefix_nil] at hp
    exact absurd hp (by simp)

/-- A character that neither ends the list nor parts two arguments belongs to the last one. -/
theorem Listed.extendArgument (h : d.Listed q b) {c : Char}
    (hq : 0 ≤ net '(' ')' (d.current.toList ++ [c]))
    (hc : ¬ (c = ',' ∧ q = 1 ∧ b = 0)) {q' : Nat} {b' : Int}
    (hq' : q + net '(' ')' [c] = q') (hb' : b + net '[' ']' [c] = b') :
    (d.extendArgument c).Listed q' b' := by
  have hcurrent : (d.extendArgument c).current.toList = d.current.toList ++ [c] := by
    rw [Draft.extendArgument, String.toList_push]
  refine ⟨h.earlier, ?_, ?_, ?_, ?_⟩
  · rw [hcurrent]
    exact inside_concat.2 ⟨h.inside, by omega⟩
  · rw [hcurrent, net_append, ← hq', ← h.parens]
    omega
  · rw [hcurrent, net_append, h.brackets, hb']
  · intro p hp
    rw [hcurrent] at hp
    rcases List.prefix_concat_iff.1 hp with heq | hp
    · obtain ⟨rfl, hcomma⟩ := List.append_inj' heq rfl
      have hpar := h.parens
      have hbr := h.brackets
      have hnonneg := h.inside.nonneg_end
      have hcomma : c = ',' := (List.cons.inj hcomma).1.symm
      by_contra hnone
      exact hc ⟨hcomma, by omega, by omega⟩
    · exact h.commas p hp

theorem Listed.isArgument (h : d.Listed 1 b) : IsArgument d.current.toList :=
  ⟨⟨h.inside, by have := h.parens; omega⟩, h.commas⟩

theorem Listed.endArgument (h : d.Listed 1 0) : d.endArgument.Listed 1 0 := by
  have hempty := listed_of_empty (d := { d.endArgument with earlier := [] }) rfl rfl
  refine ⟨?_, hempty.inside, hempty.parens, hempty.brackets, hempty.commas⟩
  intro a ha
  rcases List.mem_cons.1 ha with rfl | ha
  · exact ⟨h.isArgument, h.brackets⟩
  · exact h.earlier a ha

theorem Listed.isArgumentList (h : d.Listed 1 b) :
    IsArgumentList (d.arguments.map String.toList) := by
  unfold Draft.arguments
  split_ifs with hblank
  · exact ⟨by simp, by simp, by simp⟩
  · rw [List.reverse_cons, List.map_append, List.map_singleton]
    refine ⟨?_, ?_, ?_⟩
    · intro a ha
      simp only [List.mem_append, List.mem_map, List.mem_reverse, List.mem_singleton] at ha
      rcases ha with ⟨a, ha, rfl⟩ | rfl
      · exact (h.earlier a ha).1
      · exact h.isArgument
    · intro a ha
      rw [List.dropLast_concat] at ha
      simp only [List.mem_map, List.mem_reverse] at ha
      obtain ⟨a, ha, rfl⟩ := ha
      exact (h.earlier a ha).2
    · intro hone
      have hempty : d.earlier = [] := by simpa using hone
      rw [hempty] at hblank ⊢
      simpa [isBlankText] using hblank

end Draft

namespace Scope

/-- What is known of the draft in each scope. -/
def Sound : Scope → Prop
  | outside none => True
  | outside (some d) | directive d => IsComment d.comment.toList ∧ d = { comment := d.comment }
  | comment d => (∃ t l, IsComment t ∧ (∀ c ∈ l, isLineBreak c = false)
      ∧ d.comment.toList = t ++ '/' :: l) ∧ d = { comment := d.comment }
  | returnType d | name d => d.Framed ∧ d.earlier = [] ∧ d.current = "" ∧ d.body = ""
  | arguments d parens brackets => d.Framed ∧ d.Listed parens brackets ∧ d.body = ""
  | bodyStart d => d.Framed ∧ IsArgumentList (d.arguments.map String.toList) ∧ d.body = ""
  | body d braces => d.Framed ∧ IsArgumentList (d.arguments.map String.toList)
      ∧ Inside '{' '}' 0 d.body.toList ∧ net '{' '}' d.body.toList + 1 = braces

theorem Sound.parens_pos {d : Draft} {q : Nat} {b : Int} (h : Sound (.arguments d q b)) : 0 < q := by
  have hparens := h.2.1.parens
  have hnonneg := h.2.1.inside.nonneg_end
  omega

theorem Sound.braces_pos {d : Draft} {q : Nat} (h : Sound (.body d q)) : 0 < q := by
  have hbraces := h.2.2.2
  have hnonneg := h.2.2.1.nonneg_end
  omega

/-- A function whose last brace closes is as a scan finds it. -/
theorem Sound.finish {d : Draft} (h : Sound (.body d 1)) : d.finish.Scanned := by
  obtain ⟨hframe, hargs, hin, hbraces⟩ := h
  refine ⟨⟨hframe.opening, hframe.returnType, hframe.name, hargs, hin, ?_⟩, hframe.comment, ?_⟩
  · change net '{' '}' d.body.toList = 0
    omega
  · exact Int.natCast_nonneg d.startLine

/-- What a character makes of a scope while no function ends. A brace that opens a body notes the
line on which it stands. -/
inductive Turns (line : Nat) (c : Char) : Scope → Scope → Prop
  | forget {p : Option Draft} (hl : isLineBreak c = true) : Turns line c (outside p) (outside none)
  | keep {p : Option Draft} (hl : isLineBreak c = false) (hb : isBlank c = true) :
      Turns line c (outside p) (outside p)
  | openDirective {p : Option Draft} (hc : c = '#') :
      Turns line c (outside p) (directive (p.getD {}))
  | openComment {p : Option Draft} (hc : c = '/') :
      Turns line c (outside p)
        (comment { p.getD {} with comment := (p.getD {}).comment.push c })
  | openFunction {p : Option Draft} (hb : isBlank c = false) (hhash : c ≠ '#') (hslash : c ≠ '/')
      (hbrace : c ≠ '}') :
      Turns line c (outside p)
        (returnType { p.getD {} with returnType := (p.getD {}).returnType.push c })
  | inDirective {d : Draft} (hl : isLineBreak c = false) : Turns line c (directive d) (directive d)
  | endDirective {d : Draft} (hl : isLineBreak c = true) :
      Turns line c (directive d) (outside (some d))
  | inComment {d : Draft} (hl : isLineBreak c = false) :
      Turns line c (comment d) (comment { d with comment := d.comment.push c })
  | endComment {d : Draft} (hl : isLineBreak c = true) :
      Turns line c (comment d) (outside (some { d with comment := d.comment.push '\n' }))
  | inType {d : Draft} (hb : isBlank c = false) :
      Turns line c (returnType d) (returnType { d with returnType := d.returnType.push c })
  | endType {d : Draft} (hb : isBlank c = true) : Turns line c (returnType d) (name d)
  | inName {d : Draft} (hb : isBlank c = false) (hc : c ≠ '(') :
      Turns line c (name d) (name { d with name := d.name.push c })
  | aroundName {d : Draft} (hb : isBlank c = true) (hc : c ≠ '(') : Turns line c (name d) (name d)
  | openArguments {d : Draft} (hc : c = '(') : Turns line c (name d) (arguments d 1 0)
  | inArgument {d : Draft} {q q' : Nat} {b b' : Int} (hpos : 0 < q')
      (hq : (q' : Int) = q + net '(' ')' [c]) (hb : b' = b + net '[' ']' [c])
      (hc : ¬ (c = ',' ∧ q = 1 ∧ b = 0)) :
      Turns line c (arguments d q b) (arguments (d.extendArgument c) q' b')
  | nextArgument {d : Draft} (hc : c = ',') :
      Turns line c (arguments d 1 0) (arguments d.endArgument 1 0)
  | closeArguments {d : Draft} {b : Int} (hc : c = ')') :
      Turns line c (arguments d 1 b) (bodyStart d)
  | beforeBody {d : Draft} (hb : isBlank c = true) : Turns line c (bodyStart d) (bodyStart d)
  | openBody {d : Draft} (hc : c = '{') :
      Turns line c (bodyStart d) (body { d with startLine := line } 1)
  | inBody {d : Draft} {q q' : Nat} (hpos : 0 < q') (hq : (q' : Int) = q + net '{' '}' [c]) :
      Turns line c (body d q) (body { d with body := d.body.push c } q')

variable {sc sc' : Scope} {line : Nat} {c : Char}

theorem Sound.turns_afterArgument {d : Draft} {q : Nat} {b : Int} (h : Sound (.arguments d q b))
    (line : Nat) (c : Char) :
    Turns line c (.arguments d q b) (ScanState.afterArgument d q b c) := by
  have hpos := h.parens_pos
  have hq := natCast_count (o := '(') (c := ')') (by decide) hpos c
  unfold ScanState.afterArgument
  rw [count_eq_add_net (by decide)]
  generalize (if c = '(' then q + 1 else if c = ')' then q - 1 else q) = q' at hq ⊢
  simp only
  have hcommas : c = ',' → q' = q ∧ b + net '[' ']' [c] = b := by
    rintro rfl
    rw [net_other (by decide) (by decide), add_zero] at hq ⊢
    exact ⟨by exact_mod_cast hq, rfl⟩
  split_ifs with hzero hcomma
  · obtain ⟨hc, rfl⟩ := closes_of_add_net_eq_zero (by decide) hpos (hq.symm.trans (congrArg _ hzero))
    exact .closeArguments hc
  · obtain ⟨hc, rfl, hb⟩ := hcomma
    obtain ⟨rfl, hb'⟩ := hcommas hc
    obtain rfl : b = 0 := hb'.symm.trans hb
    rw [hb]
    exact .nextArgument hc
  · refine .inArgument (Nat.pos_of_ne_zero hzero) hq rfl ?_
    rintro ⟨hc, rfl, rfl⟩
    exact hcomma ⟨hc, hcommas hc⟩

/-- The draft that a comment or a directive has opened has a comment and nothing else. -/
theorem Sound.pending {p : Option Draft} (h : Sound (.outside p)) :
    IsComment (p.getD {}).comment.toList ∧ p.getD {} = { comment := (p.getD {}).comment } := by
  cases p with
  | none => exact ⟨isComment_nil, rfl⟩
  | some d => exact h

/-- A turn keeps what is known of the draft. -/
theorem Sound.turn (h : sc.Sound) (ht : sc.Turns line c sc') : sc'.Sound := by
  cases ht with
  | forget => trivial
  | keep => exact h
  | openDirective => exact h.pending
  | openComment hc =>
    obtain ⟨ht, hd⟩ := h.pending
    refine ⟨⟨_, [], ht, by simp, ?_⟩, by rw [hd]⟩
    rw [hc]
    exact String.toList_push _
  | openFunction hb hhash hslash hbrace =>
    obtain ⟨ht, hd⟩ := h.pending
    exact ⟨Draft.framed_of_opening ht hd hb hhash hslash hbrace, by rw [hd], by rw [hd], by rw [hd]⟩
  | inDirective => exact h
  | endDirective => exact h
  | inComment hl =>
    obtain ⟨⟨t, l, ht, hl', htext⟩, hd⟩ := h
    refine ⟨⟨t, l ++ [c], ht, ?_, ?_⟩, by rw [hd]⟩
    · exact List.forall_mem_append.2 ⟨hl', by simpa using hl⟩
    · rw [String.toList_push, htext, List.append_assoc, List.cons_append]
  | endComment =>
    obtain ⟨⟨t, l, ht, hl, htext⟩, hd⟩ := h
    refine ⟨?_, by rw [hd]⟩
    rw [String.toList_push, htext, List.append_assoc]
    exact ht.append_line hl
  | inType hb => exact ⟨h.1.pushType hb, h.2⟩
  | endType => exact h
  | inName hb hc => exact ⟨h.1.pushName hb hc, h.2⟩
  | aroundName => exact h
  | openArguments => exact ⟨h.1, Draft.listed_of_empty h.2.1 h.2.2.1, h.2.2.2⟩
  | inArgument hpos hq hb hc =>
    obtain ⟨hframe, hlist, hbody⟩ := h
    have hparens := hlist.parens
    refine ⟨⟨hframe.comment, hframe.opening, hframe.returnType, hframe.name⟩, ?_, hbody⟩
    refine hlist.extendArgument ?_ hc hq.symm hb.symm
    rw [net_append]
    omega
  | nextArgument =>
    obtain ⟨hframe, hlist, hbody⟩ := h
    exact ⟨⟨hframe.comment, hframe.opening, hframe.returnType, hframe.name⟩, hlist.endArgument, hbody⟩
  | closeArguments => exact ⟨h.1, h.2.1.isArgumentList, h.2.2⟩
  | beforeBody => exact h
  | openBody =>
    obtain ⟨hframe, hargs, hbody⟩ := h
    refine ⟨⟨hframe.comment, hframe.opening, hframe.returnType, hframe.name⟩, hargs, ?_, ?_⟩
    · rw [hbody]
      exact inside_nil.2 le_rfl
    · rw [hbody]
      rfl
  | inBody hpos hq =>
    obtain ⟨hframe, hargs, hin, hbraces⟩ := h
    refine ⟨⟨hframe.comment, hframe.opening, hframe.returnType, hframe.name⟩, hargs, ?_, ?_⟩
    · rw [String.toList_push]
      refine inside_concat.2 ⟨hin, ?_⟩
      rw [net_append]
      omega
    · rw [String.toList_push, net_append]
      omega

end Scope

/-- What is known of a scan: the draft is sound, and so is every function that is found. -/
structure ScanState.Sound (s : ScanState) : Prop where
  scope : s.scope.Sound
  found : ∀ f ∈ s.found, f.Scanned

namespace ScanState

variable {n : Nat} {F : List ShaderFunction} {s t : ScanState} {c : Char}

/-- In a scope that is not between functions, a character that is read is taken at once. -/
theorem lookIn_of_feed {sc : Scope} (hsc : ∀ p, sc ≠ .outside p) {c : Char} {t : ScanState}
    (h : feed ⟨sc, n, F⟩ c = .ok t) :
    lookIn ⟨sc, n + lineBreaks [c], F⟩ c = .ok (.taken t) := by
  unfold feed look at h
  rw [countLine_eq] at h
  have hput : ∀ u, lookIn ⟨sc, n + lineBreaks [c], F⟩ c ≠ .ok (.putBack u) := by
    intro u hu
    cases sc <;> simp only [lookIn] at hu
    case outside p => exact hsc p rfl
    all_goals first | cases hu | (split_ifs at hu <;> cases hu)
  cases hlook : lookIn ⟨sc, n + lineBreaks [c], F⟩ c with
  | error e => rw [hlook] at h; cases h
  | ok k =>
    cases k with
    | taken u => rw [hlook] at h; cases h; rfl
    | putBack u => exact absurd hlook (hput u)

/-- What a character makes of a scan: the scope takes a turn, or the last brace of a body makes a
function of its draft. -/
inductive Step (c : Char) : ScanState → ScanState → Prop
  | turn {sc sc' : Scope} {n : Nat} {F : List ShaderFunction}
      (h : sc.Turns (n + lineBreaks [c]) c sc') :
      Step c ⟨sc, n, F⟩ ⟨sc', n + lineBreaks [c], F⟩
  | close {d : Draft} {n : Nat} {F : List ShaderFunction} (hc : c = '}') :
      Step c ⟨.body d 1, n, F⟩ ⟨.outside none, n + lineBreaks [c], d.finish :: F⟩

theorem step_takeBody {d : Draft} {q : Nat} (h : Scope.Sound (.body d q)) (n : Nat)
    (F : List ShaderFunction) (c : Char) :
    Step c ⟨.body d q, n, F⟩ (takeBody ⟨.body d q, n + lineBreaks [c], F⟩ d q c) := by
  have hpos := h.braces_pos
  have hq := natCast_count (o := '{') (c := '}') (by decide) hpos c
  unfold takeBody
  generalize (if c = '{' then q + 1 else if c = '}' then q - 1 else q) = q' at hq ⊢
  simp only
  split_ifs with hzero
  · obtain ⟨hc, rfl⟩ := closes_of_add_net_eq_zero (by decide) hpos (hq.symm.trans (congrArg _ hzero))
    exact .close hc
  · exact .turn (.inBody (Nat.pos_of_ne_zero hzero) hq)

/-- Between functions a blank forgets the draft or keeps it, and another character opens a scope
with it. -/
theorem step_of_feed_outside {p : Option Draft} (h : feed ⟨.outside p, n, F⟩ c = .ok t) :
    Step c ⟨.outside p, n, F⟩ t := by
  cases hb : isBlank c with
  | true =>
    cases hl : isLineBreak c with
    | true =>
      simp only [feed, look, countLine_eq, lookIn, lookOutside, hl, ↓reduceIte] at h
      cases h
      exact .turn (.forget hl)
    | false =>
      simp only [feed, look, countLine_eq, lookIn, lookOutside, hl, hb, Bool.false_eq_true,
        ↓reduceIte] at h
      cases h
      exact .turn (.keep hl hb)
  | false =>
    by_cases hc : c = '}'
    · subst hc
      cases h
    · rw [feed_opened hb hc] at h
      have hl := isLineBreak_of_not_blank hb
      unfold Scope.opened at h
      split_ifs at h with hhash hslash
      all_goals
        have htaken := lookIn_of_feed (by simp) h
        simp only [lookIn, hl, hb, Bool.false_eq_true, ↓reduceIte] at htaken
        cases htaken
      · exact .turn (.openDirective hhash)
      · exact .turn (.openComment hslash)
      · exact .turn (.openFunction hb hhash hslash hc)

/-- A character that is read makes one of these steps. -/
theorem step_of_feed (hs : s.scope.Sound) (h : s.feed c = .ok t) : Step c s t := by
  obtain ⟨sc, n, F⟩ := s
  cases sc with
  | outside p => exact step_of_feed_outside h
  | directive d =>
    have htaken := lookIn_of_feed (by simp) h
    simp only [lookIn] at htaken
    split_ifs at htaken with hl <;> cases htaken
    · exact .turn (.endDirective hl)
    · exact .turn (.inDirective (by simpa using hl))
  | comment d =>
    have htaken := lookIn_of_feed (by simp) h
    simp only [lookIn] at htaken
    split_ifs at htaken with hl <;> cases htaken
    · exact .turn (.endComment hl)
    · exact .turn (.inComment (by simpa using hl))
  | returnType d =>
    have htaken := lookIn_of_feed (by simp) h
    simp only [lookIn] at htaken
    split_ifs at htaken with hb <;> cases htaken
    · exact .turn (.endType hb)
    · exact .turn (.inType (by simpa using hb))
  | name d =>
    have htaken := lookIn_of_feed (by simp) h
    simp only [lookIn] at htaken
    split_ifs at htaken with hc hb <;> cases htaken
    · exact .turn (.openArguments hc)
    · exact .turn (.aroundName hb hc)
    · exact .turn (.inName (by simpa using hb) hc)
  | arguments d q b =>
    cases lookIn_of_feed (by simp) h
    exact .turn (hs.turns_afterArgument _ c)
  | bodyStart d =>
    have htaken := lookIn_of_feed (by simp) h
    simp only [lookIn] at htaken
    split_ifs at htaken with hb hc <;> cases htaken
    · exact .turn (.beforeBody hb)
    · exact .turn (.openBody hc)
  | body d q =>
    cases lookIn_of_feed (by simp) h
    exact step_takeBody hs n F c

/-- One character keeps what is known of a scan. -/
theorem Sound.feed (hs : s.Sound) (h : s.feed c = .ok t) : t.Sound := by
  obtain ⟨hsc, hF⟩ := hs
  cases step_of_feed hsc h with
  | turn hturn => exact ⟨hsc.turn hturn, hF⟩
  | close => exact ⟨trivial, List.forall_mem_cons.2 ⟨hsc.finish, hF⟩⟩

theorem Sound.feedAll :
    ∀ {cs : List Char} {s : ScanState}, s.Sound → s.feedAll cs = .ok t → t.Sound
  | [], s, hs, h => by
    cases h
    exact hs
  | c :: cs, s, hs, h => by
    unfold ScanState.feedAll at h
    split at h
    · cases h
    · rename_i u hu
      exact Sound.feedAll (hs.feed hu) h

end ScanState

/-- Every function that is found in a source can be told apart from its text. -/
theorem scanned_of_mem_scan {text : String} {fs : List ShaderFunction}
    (h : ShaderFunction.scan text = .ok fs) {f : ShaderFunction} (hf : f ∈ fs) : f.Scanned := by
  unfold ShaderFunction.scan at h
  split at h
  · cases h
  · rename_i s hs
    have hstart : ScanState.Sound {} := ⟨trivial, by simp⟩
    have hsound := hstart.feedAll hs
    unfold ScanState.finish at h
    split at h <;> cases h <;> exact hsound.found f (List.mem_reverse.1 hf)

end ShaderGraph
