import ShaderGraph.Proofs.Extended

/-!
# The scan as a loop

A scan can keep its functions in one list, the one that is being read among them, and all that it
counts in variables of a loop. A character between functions is put back by taking the index back,
and what is read goes to the latest function of the list, if there is one. This loop ends, never asks
an empty list for its latest function and does what a scan does (`ScanLoop.invariant_and_ends`): each
of its steps is a look of the scan at the same character.
-/

namespace ShaderGraph

open Text

/-- What is being read. -/
inductive Reading where
  | outside
  | directive
  | comment
  | returnType
  | name
  | arguments
  | bodyStart
  | body
deriving DecidableEq, Repr

/-- What is read from a character between functions on. -/
def Reading.opened (c : Char) : Reading :=
  if c = '#' then .directive else if c = '/' then .comment else .returnType

/-- The variables of the loop. -/
structure ScanLoop where
  /-- The functions that have been begun, the latest first. -/
  drafts : List Draft := []
  reading : Reading := .outside
  /-- The place of the next character. -/
  index : Nat := 0
  line : Nat := 0
  braces : Int := 0
  parens : Int := 0
  brackets : Int := 0
deriving DecidableEq, Repr

namespace ScanLoop

/-- Why the loop breaks off. -/
inductive Halt where
  | refused (e : ScanError)
  /-- the latest function of an empty list is asked for -/
  | noDraft
deriving DecidableEq, Repr

/-! ## The loop -/

/-- The latest function. -/
def latest (v : ScanLoop) : Except Halt Draft :=
  match v.drafts with
  | [] => .error .noDraft
  | d :: _ => .ok d

/-- The variables with the latest function changed. -/
def write (v : ScanLoop) (f : Draft → Draft) : Except Halt ScanLoop :=
  match v.drafts with
  | [] => .error .noDraft
  | d :: ds => .ok { v with drafts := f d :: ds }

/-- Whether the latest function has no return type yet. -/
def hasPending (v : ScanLoop) : Bool := v.drafts.head?.any fun d => d.returnType == ""

/-- The name of the latest function, if there is one. -/
def lastName (v : ScanLoop) : String :=
  match v.drafts with
  | [] => ""
  | d :: _ => d.name

/-- The functions without the pending one. -/
def dropPending (v : ScanLoop) : List Draft := if v.hasPending then v.drafts.tail else v.drafts

/-- The functions with a pending one, which is a new one if there was none. -/
def withPending (v : ScanLoop) : List Draft := if v.hasPending then v.drafts else {} :: v.drafts

def stepOutside (v : ScanLoop) (c : Char) : Except Halt ScanLoop :=
  if isLineBreak c then .ok { v with drafts := v.dropPending }
  else if isBlank c then .ok v
  else if c = '}' then .error (.refused ⟨.strayBrace v.lastName, v.line + 1⟩)
  else .ok { v with drafts := v.withPending, index := v.index - 1, reading := .opened c }

def stepArguments (v : ScanLoop) (c : Char) : Except Halt ScanLoop :=
  let parens := if c = '(' then v.parens + 1 else if c = ')' then v.parens - 1 else v.parens
  let brackets := if c = '[' then v.brackets + 1 else if c = ']' then v.brackets - 1 else v.brackets
  let w := { v with parens := parens, brackets := brackets }
  if parens = 0 then .ok { w with reading := .bodyStart }
  else if c = ',' ∧ parens = 1 ∧ brackets = 0 then w.write Draft.endArgument
  else w.write (·.extendArgument c)

def stepBody (v : ScanLoop) (c : Char) : Except Halt ScanLoop :=
  let braces := if c = '{' then v.braces + 1 else if c = '}' then v.braces - 1 else v.braces
  let w := { v with braces := braces }
  if 0 < braces then w.write fun d => { d with body := d.body.push c }
  -- the function that ends is named in a log
  else w.latest.map fun _ => { w with reading := .outside }

/-- What the loop does with a character that has been counted. -/
def stepIn (v : ScanLoop) (c : Char) : Except Halt ScanLoop :=
  match v.reading with
  | .outside => v.stepOutside c
  | .directive => .ok (if isLineBreak c then { v with reading := .outside } else v)
  | .comment =>
    if isLineBreak c then
      { v with reading := .outside }.write fun d => { d with comment := d.comment.push '\n' }
    else v.write fun d => { d with comment := d.comment.push c }
  | .returnType =>
    if isBlank c then .ok { v with reading := .name }
    else v.write fun d => { d with returnType := d.returnType.push c }
  | .name =>
    if c = '(' then .ok { v with reading := .arguments, parens := 1, brackets := 0 }
    else if isBlank c then .ok v
    else v.write fun d => { d with name := d.name.push c }
  | .arguments => v.stepArguments c
  | .bodyStart =>
    if isBlank c then .ok v
    else if c = '{' then
      { v with reading := .body, braces := 1 }.write fun d => { d with startLine := v.line }
    else v.latest.bind fun d => .error (.refused ⟨.missingBrace d.name, v.line + 1⟩)
  | .body => v.stepBody c

/-- The variables behind a character. -/
def advance (v : ScanLoop) (c : Char) : ScanLoop :=
  { v with index := v.index + 1, line := if isLineBreak c then v.line + 1 else v.line }

/-- One step of the loop. -/
def step (v : ScanLoop) (c : Char) : Except Halt ScanLoop := (v.advance c).stepIn c

/-- The functions after the loop: those that have a return type. -/
def finish (v : ScanLoop) : Except Halt (List ShaderFunction) :=
  match v.reading with
  | .outside | .comment =>
    .ok ((v.drafts.reverse.filter fun d => d.returnType != "").map Draft.finish)
  | .directive | .returnType | .name | .arguments | .bodyStart | .body =>
    .error (.refused ⟨.endOfText v.lastName, v.line + 1⟩)

/-- The loop over a text has these variables after so many steps. -/
inductive Reaches (cs : List Char) : Nat → ScanLoop → Prop
  | start : Reaches cs 0 {}
  | step {k : Nat} {v w : ScanLoop} {c : Char} (h : Reaches cs k v) (hc : cs[v.index]? = some c)
      (hw : v.step c = .ok w) : Reaches cs (k + 1) w

/-- The loop over a text ends with so many steps: no character is left, or the last step fails. -/
inductive Ends (cs : List Char) : Nat → Except Halt (List ShaderFunction) → Prop
  | finished {k : Nat} {v : ScanLoop} (h : Reaches cs k v) (hend : cs[v.index]? = none) :
      Ends cs k v.finish
  | failed {k : Nat} {v : ScanLoop} {c : Char} {e : Halt} (h : Reaches cs k v)
      (hc : cs[v.index]? = some c) (he : v.step c = .error e) : Ends cs (k + 1) (.error e)

/-- What holds of the variables after every step. -/
structure Invariant (cs : List Char) (v : ScanLoop) : Prop where
  typed : ∀ d ∈ v.drafts.tail, d.returnType ≠ ""
  /-- Between functions each one that has a return type stands in the text that has been read, with
  the brace that closes its body. -/
  closed : v.reading = .outside → ∀ d ∈ v.drafts, d.returnType ≠ "" →
    ∃ (x : FunctionText) (before : List Char), x.Spells before d.finish
      ∧ before ++ x.text <+: cs.take v.index
  begun : v.reading ≠ .outside → v.drafts ≠ []
  latest_untyped : v.reading ∈ [.directive, .comment] → ∀ d ∈ v.drafts.head?, d.returnType = ""
  latest_typed : v.reading ∈ [.name, .arguments, .bodyStart, .body] →
    ∀ d ∈ v.drafts.head?, d.returnType ≠ ""
  line : v.line = lineBreaks (cs.take v.index)
  parens : v.reading = .arguments → 0 < v.parens
  braces : v.reading = .body → 0 < v.braces

end ScanLoop

/-! ## Steps and looks -/

namespace Scope

/-- What is being read in a scope. -/
def reading : Scope → Reading
  | outside _ => .outside
  | directive _ => .directive
  | comment _ => .comment
  | returnType _ => .returnType
  | name _ => .name
  | arguments _ _ _ => .arguments
  | bodyStart _ => .bodyStart
  | body _ _ => .body

/-- The variables count what the scope does. -/
def IsCounted (parens brackets braces : Int) : Scope → Prop
  | arguments _ q b => parens = q ∧ brackets = b
  | body _ q => braces = q
  | outside _ | directive _ | comment _ | returnType _ | name _ | bodyStart _ => True

/-- What is known in each scope of the return type and of what is open, also right after a character
has been put back. -/
def Steady : Scope → Prop
  | outside p => ∀ d ∈ p, d.returnType = ""
  | directive d | comment d => d.returnType = ""
  | returnType _ => True
  | name d | bodyStart d => d.returnType ≠ ""
  | arguments d q _ | body d q => d.returnType ≠ "" ∧ 0 < q

theorem exists_of_reading_outside {sc : Scope} (h : sc.reading = .outside) :
    ∃ p, sc = .outside p := by
  cases sc with
  | outside p => exact ⟨p, rfl⟩
  | directive d | comment d | returnType d | name d | arguments d q b | bodyStart d | body d q =>
    cases h

theorem draft?_opened (c : Char) (d : Draft) : (opened c d).draft? = some d := by
  unfold opened
  split_ifs <;> rfl

theorem reading_opened (c : Char) (d : Draft) : (opened c d).reading = .opened c := by
  unfold opened Reading.opened
  split_ifs <;> rfl

theorem isCounted_opened (c : Char) (d : Draft) (parens brackets braces : Int) :
    (opened c d).IsCounted parens brackets braces := by
  unfold opened
  split_ifs <;> trivial

theorem steady_opened (c : Char) {d : Draft} (h : d.returnType = "") : (opened c d).Steady := by
  unfold opened
  split_ifs
  · exact h
  · exact h
  · trivial

theorem Sound.steady {sc : Scope} (h : sc.Sound) : sc.Steady := by
  have htype : ∀ {d : Draft}, d.Framed → d.returnType ≠ "" := by
    intro d hd hempty
    have hopening := hd.opening
    rw [hempty] at hopening
    simp at hopening
  cases sc with
  | outside p =>
    intro d hd
    obtain rfl := Option.mem_def.1 hd
    rw [h.2]
  | directive d => exact congrArg Draft.returnType h.2
  | comment d => exact congrArg Draft.returnType h.2
  | returnType d => trivial
  | name d => exact htype h.1
  | bodyStart d => exact htype h.1
  | arguments d q b => exact ⟨htype h.1, h.parens_pos⟩
  | body d q => exact ⟨htype h.1, h.braces_pos⟩

end Scope

namespace ScanState

variable {s t : ScanState} {i : Nat} {c : Char} {cs : List Char}

/-- A character is only put back between functions, and then it is taken. -/
theorem exists_of_putBack (h : s.look c = .ok (.putBack t)) :
    ∃ p u, s.scope = .outside p ∧ t = { s with scope := .opened c (p.getD {}) }
      ∧ t.look c = .ok (.taken u) ∧ s.feed c = .ok u := by
  obtain ⟨sc, n, F⟩ := s
  have hlook := h
  rw [look, countLine_eq] at hlook
  cases sc with
  | outside p =>
    simp only [lookIn, lookOutside] at hlook
    split_ifs at hlook with hl hb hc <;> cases hlook
    have hn : n + lineBreaks [c] = n := by simp [lineBreaks_singleton, hl]
    have htaken : ∃ u, look ⟨.opened c (p.getD {}), n + lineBreaks [c], F⟩ c = .ok (.taken u) := by
      rw [look, countLine_eq]
      unfold Scope.opened
      split_ifs <;> simp [lookIn, hl, hb]
    obtain ⟨u, hu⟩ := htaken
    refine ⟨p, u, rfl, by rw [hn], hu, ?_⟩
    rw [feed, h]
    simp only [hu]
  | directive d | comment d | returnType d | name d | bodyStart d =>
    simp only [lookIn] at hlook
    split_ifs at hlook <;> cases hlook
  | arguments d q b | body d q => cases hlook

theorem steady_of_putBack (hs : s.scope.Steady) (h : s.look c = .ok (.putBack t)) :
    t.scope.Steady := by
  obtain ⟨p, -, hp, rfl, -⟩ := exists_of_putBack h
  rw [hp] at hs
  refine Scope.steady_opened c ?_
  cases p with
  | none => rfl
  | some d => exact hs d rfl

theorem feedAll_take_succ (hread : feedAll {} (cs.take i) = .ok s) (hc : cs[i]? = some c)
    (hfeed : s.feed c = .ok t) : feedAll {} (cs.take (i + 1)) = .ok t := by
  rw [List.take_add_one, hc]
  exact feedAll_append hread (feedAll_singleton.trans hfeed)

theorem feed_of_taken (h : s.look c = .ok (.taken t)) : s.feed c = .ok t := by
  rw [feed, h]

theorem feed_of_error {e : ScanError} (h : s.look c = .error e) : s.feed c = .error e := by
  rw [feed, h]

theorem feedAll_eq_error {e : ScanError} (hread : feedAll {} (cs.take i) = .ok s)
    (hc : cs[i]? = some c) (he : s.feed c = .error e) : feedAll {} cs = .error e := by
  obtain ⟨hi, rfl⟩ := List.getElem?_eq_some_iff.1 hc
  rw [← List.take_append_drop i cs, feedAll_append_of_ok hread, List.drop_eq_getElem_cons hi, feedAll,
    he]

end ScanState

namespace ScanLoop

open ScanState

variable {v w : ScanLoop} {s t : ScanState} {i k : Nat} {c : Char} {cs : List Char}

/-- The variables hold what a scan holds, before the character at `i`. -/
structure Shows (v : ScanLoop) (i : Nat) (s : ScanState) : Prop where
  drafts : ∃ done, v.drafts = s.scope.draft?.toList ++ done ∧ done.map Draft.finish = s.found
    ∧ ∀ d ∈ done, d.returnType ≠ ""
  reading : v.reading = s.scope.reading
  index : v.index = i
  line : v.line = s.line
  counts : s.scope.IsCounted v.parens v.brackets v.braces

/-- A step does at `i` what a look does. -/
def Follows (i : Nat) (r : Except Halt ScanLoop) : Except ScanError Look → Prop
  | .ok (.taken t) => ∃ w, r = .ok w ∧ w.Shows (i + 1) t
  | .ok (.putBack t) => ∃ w, r = .ok w ∧ w.Shows i t
  | .error e => r = .error (.refused e)

theorem Shows.advance (h : v.Shows i s) (c : Char) : (v.advance c).Shows (i + 1) (s.countLine c) := by
  obtain ⟨hdrafts, hreading, hindex, hline, hcounts⟩ := h
  unfold countLine
  split_ifs with hb
  all_goals
    refine ⟨hdrafts, hreading, ?_, ?_, hcounts⟩
    · simp [ScanLoop.advance, hindex]
    · simp [ScanLoop.advance, hb, hline]

/-- The pending draft is the one without a return type. -/
theorem hasPending_eq {p : Option Draft} {done : List Draft} (hv : v.drafts = p.toList ++ done)
    (hp : ∀ d ∈ p, d.returnType = "") (hdone : ∀ d ∈ done, d.returnType ≠ "") :
    v.hasPending = p.isSome := by
  rw [hasPending, hv]
  cases p with
  | some d => simpa using hp d rfl
  | none =>
    cases done with
    | nil => rfl
    | cons d done => simpa using hdone d List.mem_cons_self

theorem Shows.lastName {p : Option Draft} (h : v.Shows i s) (hp : s.scope = .outside p) :
    v.lastName = s.lastName p := by
  obtain ⟨done, hdrafts, hfound, -⟩ := h.drafts
  rw [hp] at hdrafts
  unfold ScanLoop.lastName ScanState.lastName
  rw [hdrafts, ← hfound]
  cases p with
  | some d => rfl
  | none => cases done <;> rfl

theorem Shows.lastName_of_draft {d : Draft} (h : v.Shows i s) (hd : s.scope.draft? = some d) :
    v.lastName = d.name := by
  obtain ⟨done, hdrafts, -⟩ := h.drafts
  rw [ScanLoop.lastName, hdrafts, hd]
  rfl

theorem follows_stepOutside {p : Option Draft} {n : Nat} {F : List ShaderFunction}
    (h : v.Shows (i + 1) ⟨.outside p, n, F⟩) (hp : ∀ d ∈ p, d.returnType = "") (c : Char) :
    Follows i (v.stepOutside c) (lookOutside ⟨.outside p, n, F⟩ p c) := by
  have hlast := h.lastName rfl
  obtain ⟨⟨done, hdrafts, hfound, htyped⟩, hreading, hindex, hline, -⟩ := h
  have hpending := hasPending_eq hdrafts hp htyped
  have hdrop : v.dropPending = done := by
    rw [dropPending, hpending, hdrafts]
    cases p <;> rfl
  have hwith : v.withPending = p.getD {} :: done := by
    rw [withPending, hpending, hdrafts]
    cases p <;> rfl
  unfold stepOutside lookOutside
  split_ifs with hl hb hc
  · exact ⟨_, rfl, ⟨done, hdrop, hfound, htyped⟩, hreading, hindex, hline, trivial⟩
  · exact ⟨v, rfl, ⟨done, hdrafts, hfound, htyped⟩, hreading, hindex, hline, trivial⟩
  · rw [Follows, hlast, hline]
  · refine ⟨_, rfl, ⟨done, ?_, hfound, htyped⟩, (Scope.reading_opened c _).symm, ?_, hline,
      Scope.isCounted_opened c _ _ _ _⟩
    · rw [Scope.draft?_opened]
      exact hwith
    · simp [hindex]

theorem follows_stepArguments {d : Draft} {q : Nat} {b : Int} {n : Nat} {F : List ShaderFunction}
    (h : v.Shows (i + 1) ⟨.arguments d q b, n, F⟩) (hq : 0 < q) (c : Char) :
    Follows i (v.stepArguments c) (.ok (.taken ⟨afterArgument d q b c, n, F⟩)) := by
  obtain ⟨⟨done, hdrafts, hfound, htyped⟩, hreading, hindex, hline, hparens, hbrackets⟩ := h
  have hcount : (if c = '(' then v.parens + 1 else if c = ')' then v.parens - 1 else v.parens)
      = ((if c = '(' then q + 1 else if c = ')' then q - 1 else q : Nat) : Int) := by
    rw [hparens]
    split_ifs <;> omega
  unfold stepArguments afterArgument
  rw [hcount, hbrackets]
  generalize (if c = '(' then q + 1 else if c = ')' then q - 1 else q) = q'
  generalize (if c = '[' then b + 1 else if c = ']' then b - 1 else b) = b'
  have hzero : ((q' : Int) = 0) ↔ q' = 0 := by omega
  have hone : ((q' : Int) = 1) ↔ q' = 1 := by omega
  simp only [hzero, hone, write, hdrafts]
  split_ifs with hclosed hcomma
  · exact ⟨_, rfl, ⟨done, rfl, hfound, htyped⟩, rfl, hindex, hline, trivial⟩
  · exact ⟨_, rfl, ⟨done, rfl, hfound, htyped⟩, hreading, hindex, hline, rfl, rfl⟩
  · exact ⟨_, rfl, ⟨done, rfl, hfound, htyped⟩, hreading, hindex, hline, rfl, rfl⟩

theorem follows_stepBody {d : Draft} {q : Nat} {n : Nat} {F : List ShaderFunction}
    (h : v.Shows (i + 1) ⟨.body d q, n, F⟩) (hs : Scope.Steady (.body d q)) (c : Char) :
    Follows i (v.stepBody c) (.ok (.taken (takeBody ⟨.body d q, n, F⟩ d q c))) := by
  obtain ⟨⟨done, hdrafts, hfound, htyped⟩, hreading, hindex, hline, hbraces⟩ := h
  obtain ⟨htype, hq⟩ := hs
  have hcount : (if c = '{' then v.braces + 1 else if c = '}' then v.braces - 1 else v.braces)
      = ((if c = '{' then q + 1 else if c = '}' then q - 1 else q : Nat) : Int) := by
    rw [show v.braces = q from hbraces]
    split_ifs <;> omega
  unfold stepBody takeBody
  rw [hcount]
  generalize (if c = '{' then q + 1 else if c = '}' then q - 1 else q) = q'
  have hpos : 0 < (q' : Int) ↔ ¬ q' = 0 := by omega
  simp only [hpos, write, latest, hdrafts]
  split_ifs with hclosed
  · refine ⟨_, rfl, ⟨d :: done, rfl, ?_, List.forall_mem_cons.2 ⟨htype, htyped⟩⟩, rfl, hindex, hline,
      trivial⟩
    rw [List.map_cons, hfound]
  · exact ⟨_, rfl, ⟨done, rfl, hfound, htyped⟩, hreading, hindex, hline, rfl⟩

theorem follows_stepIn (h : v.Shows (i + 1) s) (hs : s.scope.Steady) (c : Char) :
    Follows i (v.stepIn c) (s.lookIn c) := by
  obtain ⟨sc, n, F⟩ := s
  have hr := h.reading
  cases sc with
  | outside p =>
    rw [stepIn, show v.reading = .outside from hr]
    exact follows_stepOutside h hs c
  | arguments d q b =>
    rw [stepIn, show v.reading = .arguments from hr]
    exact follows_stepArguments h hs.2 c
  | body d q =>
    rw [stepIn, show v.reading = .body from hr]
    exact follows_stepBody h hs c
  | directive d =>
    obtain ⟨⟨done, hdrafts, hfound, htyped⟩, hreading, hindex, hline, -⟩ := h
    rw [stepIn, show v.reading = .directive from hr, lookIn]
    simp only
    split_ifs with hb
    · exact ⟨_, rfl, ⟨done, hdrafts, hfound, htyped⟩, rfl, hindex, hline, trivial⟩
    · exact ⟨v, rfl, ⟨done, hdrafts, hfound, htyped⟩, hreading, hindex, hline, trivial⟩
  | comment d =>
    obtain ⟨⟨done, hdrafts, hfound, htyped⟩, hreading, hindex, hline, -⟩ := h
    rw [stepIn, show v.reading = .comment from hr, lookIn]
    simp only [write, hdrafts]
    split_ifs with hb
    · exact ⟨_, rfl, ⟨done, rfl, hfound, htyped⟩, rfl, hindex, hline, trivial⟩
    · exact ⟨_, rfl, ⟨done, rfl, hfound, htyped⟩, hreading, hindex, hline, trivial⟩
  | returnType d =>
    obtain ⟨⟨done, hdrafts, hfound, htyped⟩, hreading, hindex, hline, -⟩ := h
    rw [stepIn, show v.reading = .returnType from hr, lookIn]
    simp only [write, hdrafts]
    split_ifs with hb
    · exact ⟨_, rfl, ⟨done, rfl, hfound, htyped⟩, rfl, hindex, hline, trivial⟩
    · exact ⟨_, rfl, ⟨done, rfl, hfound, htyped⟩, hreading, hindex, hline, trivial⟩
  | name d =>
    obtain ⟨⟨done, hdrafts, hfound, htyped⟩, hreading, hindex, hline, -⟩ := h
    rw [stepIn, show v.reading = .name from hr, lookIn]
    simp only [write, hdrafts]
    split_ifs with hc hb
    · exact ⟨_, rfl, ⟨done, rfl, hfound, htyped⟩, rfl, hindex, hline, rfl, rfl⟩
    · exact ⟨v, rfl, ⟨done, hdrafts, hfound, htyped⟩, hreading, hindex, hline, trivial⟩
    · exact ⟨_, rfl, ⟨done, rfl, hfound, htyped⟩, hreading, hindex, hline, trivial⟩
  | bodyStart d =>
    obtain ⟨⟨done, hdrafts, hfound, htyped⟩, hreading, hindex, hline, -⟩ := h
    rw [stepIn, show v.reading = .bodyStart from hr, lookIn]
    simp only [write, latest, hdrafts, hline]
    split_ifs with hb hc
    · exact ⟨v, rfl, ⟨done, hdrafts, hfound, htyped⟩, hreading, hindex, hline, trivial⟩
    · exact ⟨_, rfl, ⟨done, rfl, hfound, htyped⟩, rfl, hindex, rfl, rfl⟩
    · rfl

/-- Each step is a look at the same character. -/
theorem Shows.follows (h : v.Shows i s) (hs : s.scope.Steady) (c : Char) :
    Follows i (v.step c) (s.look c) := by
  refine follows_stepIn (h.advance c) ?_ c
  unfold countLine
  split_ifs <;> exact hs

/-- A step that is made is a look that takes the character or puts it back. -/
theorem Shows.step_cases (h : v.Shows i s) (hs : s.scope.Steady) (hw : v.step c = .ok w) :
    ∃ t, s.look c = .ok (.taken t) ∧ w.Shows (i + 1) t
      ∨ s.look c = .ok (.putBack t) ∧ w.Shows i t := by
  have hfollows := h.follows hs c
  rw [hw] at hfollows
  cases hlook : s.look c with
  | error e =>
    rw [hlook] at hfollows
    cases hfollows
  | ok l =>
    rw [hlook] at hfollows
    cases l with
    | taken t | putBack t =>
      obtain ⟨w', hw', hshows⟩ := hfollows
      obtain rfl := Except.ok.inj hw'
      exact ⟨t, by simp [hshows]⟩

/-- A step that fails is a look that does, at the same error. -/
theorem Shows.exists_of_error (h : v.Shows i s) (hs : s.scope.Steady) {e : Halt}
    (he : v.step c = .error e) : ∃ e', e = .refused e' ∧ s.look c = .error e' := by
  have hfollows := h.follows hs c
  rw [he] at hfollows
  cases hlook : s.look c with
  | error e' =>
    rw [hlook] at hfollows
    exact ⟨e', Except.error.inj hfollows, rfl⟩
  | ok l =>
    rw [hlook] at hfollows
    cases l with
    | taken t | putBack t =>
      obtain ⟨w, hw, -⟩ := hfollows
      cases hw

/-- Where the loop stands over a text after `k` steps, holding what the scan holds there. -/
inductive Stands (cs : List Char) (k : Nat) (v : ScanLoop) : Prop
  /-- All characters so far have been taken. -/
  | between {s : ScanState} (hread : feedAll {} (cs.take v.index) = .ok s) (hv : v.Shows v.index s)
      (hindex : v.index ≤ cs.length) (hk : k ≤ 2 * v.index)
  /-- The next character has been put back. -/
  | before {s t : ScanState} {c : Char} (hread : feedAll {} (cs.take v.index) = .ok s)
      (hc : cs[v.index]? = some c) (hput : s.look c = .ok (.putBack t)) (hv : v.Shows v.index t)
      (hk : k ≤ 2 * v.index + 1)

theorem stands_start (cs : List Char) : Stands cs 0 {} :=
  .between rfl ⟨⟨[], rfl, rfl, by simp⟩, rfl, rfl, rfl, trivial⟩ (Nat.zero_le _) (Nat.zero_le _)

/-- One more step. -/
theorem Stands.step (h : Stands cs k v) (hc : cs[v.index]? = some c) (hw : v.step c = .ok w) :
    Stands cs (k + 1) w := by
  have hlength := (List.getElem?_eq_some_iff.1 hc).1
  cases h with
  | @between s hread hv hindex hk =>
    obtain ⟨t, ⟨hlook, hshows⟩ | ⟨hlook, hshows⟩⟩ :=
      hv.step_cases (sound_start.feedAll hread).scope.steady hw
    · have hnext := hshows.index
      rw [← hnext] at hshows
      refine .between ?_ hshows (by omega) (by omega)
      rw [hnext]
      exact feedAll_take_succ hread hc (feed_of_taken hlook)
    · have hsame := hshows.index
      rw [← hsame] at hread hc hshows
      exact .before hread hc hlook hshows (by omega)
  | @before s t c' hread hc' hput hv hk =>
    -- what has been put back is taken, and the two steps are one of the scan
    obtain rfl : c' = c := Option.some.inj (hc'.symm.trans hc)
    obtain ⟨p, u, hp, ht, htaken, hfeed⟩ := exists_of_putBack hput
    have hsteady := steady_of_putBack (sound_start.feedAll hread).scope.steady hput
    obtain ⟨u', ⟨hlook, hshows⟩ | ⟨hlook, hshows⟩⟩ := hv.step_cases hsteady hw
    · obtain rfl : u = u' := by simpa [htaken] using hlook
      have hnext := hshows.index
      rw [← hnext] at hshows
      refine .between ?_ hshows (by omega) (by omega)
      rw [hnext]
      exact feedAll_take_succ hread hc hfeed
    · cases htaken.symm.trans hlook

theorem Reaches.stands (h : Reaches cs k v) : Stands cs k v := by
  induction h with
  | start => exact stands_start cs
  | step _ hc hw ih => exact ih.step hc hw

/-- What the variables hold, wherever the loop stands. -/
theorem Stands.exists_shown (h : Stands cs k v) :
    ∃ s, v.Shows v.index s ∧ s.scope.Steady ∧ s.line = lineBreaks (cs.take v.index)
      ∧ (v.reading = .outside → Layout s.found.reverse (cs.take v.index)) := by
  cases h with
  | @between s hread hv hindex hk =>
    have hsound := sound_start.feedAll hread
    obtain ⟨hline, before, r, htext, hlayout, hfrom⟩ := hasRead_of_feedAll hread
    refine ⟨s, hv, hsound.scope.steady, hline, fun hout => ?_⟩
    obtain ⟨p, hscope⟩ := Scope.exists_of_reading_outside (hv.reading.symm.trans hout)
    rw [hscope] at hfrom
    obtain rfl : r = [] := hfrom
    rwa [htext, List.append_nil]
  | @before s t c hread hc hput hv hk =>
    obtain ⟨p, u, hp, rfl, -⟩ := exists_of_putBack hput
    refine ⟨_, hv, steady_of_putBack (sound_start.feedAll hread).scope.steady hput,
      (hasRead_of_feedAll hread).line, fun hout => ?_⟩
    have hreading := (hv.reading.symm.trans hout : (Scope.opened c (p.getD {})).reading = _)
    rw [Scope.reading_opened, Reading.opened] at hreading
    split_ifs at hreading

theorem Shows.head?_drafts {d : Draft} (h : v.Shows i s) (hd : s.scope.draft? = some d) :
    v.drafts.head? = some d := by
  obtain ⟨done, hdrafts, -⟩ := h.drafts
  rw [hdrafts, hd]
  rfl

theorem Shows.typed (h : v.Shows i s) : ∀ d ∈ v.drafts.tail, d.returnType ≠ "" := by
  obtain ⟨done, hdrafts, -, htyped⟩ := h.drafts
  rw [hdrafts]
  intro d hd
  cases hdraft : s.scope.draft? with
  | none =>
    rw [hdraft] at hd
    exact htyped d (List.mem_of_mem_tail hd)
  | some e =>
    rw [hdraft] at hd
    exact htyped d hd

/-- Between functions those with a return type are the ones that have been found. -/
theorem Shows.finish_mem_found (h : v.Shows i s) (hs : s.scope.Steady) (hout : v.reading = .outside)
    {d : Draft} (hd : d ∈ v.drafts) (htype : d.returnType ≠ "") : d.finish ∈ s.found := by
  obtain ⟨done, hdrafts, hfound, -⟩ := h.drafts
  obtain ⟨p, hscope⟩ := Scope.exists_of_reading_outside (h.reading.symm.trans hout)
  rw [hdrafts] at hd
  rw [← hfound]
  refine List.mem_map_of_mem ((List.mem_append.1 hd).resolve_left fun hpending => ?_)
  rw [hscope] at hpending hs
  exact htype (hs d (Option.mem_toList.1 hpending))

theorem Stands.invariant (h : Stands cs k v) : v.Invariant cs := by
  obtain ⟨⟨sc, n, F⟩, hv, hs, hline, hlayout⟩ := h.exists_shown
  have hread : v.reading = sc.reading := hv.reading
  have hcounts : sc.IsCounted v.parens v.brackets v.braces := hv.counts
  have hhead : ∀ d, sc.draft? = some d → v.drafts.head? = some d := fun d => hv.head?_drafts
  refine ⟨hv.typed, fun hout d hd htype => ?_, fun hin hempty => ?_, fun hin d hd => ?_,
    fun hin d hd => ?_, hv.line.trans hline, fun hin => ?_, fun hin => ?_⟩
  · have hfound := hv.finish_mem_found hs hout hd htype
    exact (hlayout hout).exists_spells_at (List.mem_reverse.2 hfound)
  · cases sc with
    | outside p => exact hin hread
    | directive d | comment d | returnType d | name d | arguments d q b | bodyStart d | body d q =>
      have hd := hhead d rfl
      rw [hempty] at hd
      cases hd
  · cases sc with
    | directive e | comment e =>
      obtain rfl := Option.some.inj ((hhead e rfl).symm.trans hd)
      exact hs
    | outside p | returnType e | name e | arguments e q b | bodyStart e | body e q =>
      simp [hread, Scope.reading] at hin
  · cases sc with
    | name e | bodyStart e =>
      obtain rfl := Option.some.inj ((hhead e rfl).symm.trans hd)
      exact hs
    | arguments e q b | body e q =>
      obtain rfl := Option.some.inj ((hhead e rfl).symm.trans hd)
      exact hs.1
    | outside p | directive e | comment e | returnType e => simp [hread, Scope.reading] at hin
  · cases sc with
    | arguments e q b =>
      have hq : 0 < q := hs.2
      rw [hcounts.1]
      omega
    | outside p | directive e | comment e | returnType e | name e | bodyStart e | body e q =>
      cases hread.symm.trans hin
  · cases sc with
    | body e q =>
      have hq : 0 < q := hs.2
      rw [show v.braces = q from hcounts]
      omega
    | outside p | directive e | comment e | returnType e | name e | arguments e q b | bodyStart e =>
      cases hread.symm.trans hin

/-- While a character is left, fewer than twice as many steps have been made as there are characters;
the next step does not fail for want of a function, and if it puts the character back, the one after
it takes it. -/
theorem Stands.goes_on (h : Stands cs k v) (hc : cs[v.index]? = some c) :
    k < 2 * cs.length ∧ v.step c ≠ .error .noDraft
      ∧ ∀ w, v.step c = .ok w → w.index = v.index →
        ∃ x, w.step c = .ok x ∧ x.index = v.index + 1 := by
  have hlength := (List.getElem?_eq_some_iff.1 hc).1
  obtain ⟨s, hv, hs, -⟩ := h.exists_shown
  refine ⟨?_, fun he => ?_, fun w hw hsame => ?_⟩
  · cases h <;> omega
  · obtain ⟨e, he', -⟩ := hv.exists_of_error hs he
    cases he'
  · obtain ⟨t, ⟨-, hshows⟩ | ⟨hlook, hshows⟩⟩ := hv.step_cases hs hw
    · have hnext := hshows.index
      omega
    · obtain ⟨p, u, -, -, htaken, -⟩ := exists_of_putBack hlook
      have hfollows := hshows.follows (steady_of_putBack hs hlook) c
      rw [htaken] at hfollows
      obtain ⟨x, hx, hshows'⟩ := hfollows
      exact ⟨x, hx, hshows'.index⟩

theorem filter_typed (pending : List Draft) {done : List Draft}
    (hp : ∀ d ∈ pending, d.returnType = "") (hdone : ∀ d ∈ done, d.returnType ≠ "") :
    ((pending ++ done).reverse.filter fun d => d.returnType != "") = done.reverse := by
  have hnone : (pending.filter fun d => d.returnType != "") = [] :=
    List.filter_eq_nil_iff.2 fun d hd => by simp [hp d hd]
  have hall : (done.filter fun d => d.returnType != "") = done :=
    List.filter_eq_self.2 fun d hd => by simpa using hdone d hd
  rw [List.filter_reverse, List.filter_append, hnone, hall, List.nil_append]

/-- After the loop the functions are those that the scan has found. -/
theorem Shows.finish_eq (h : v.Shows i s) (hs : s.scope.Steady) :
    v.finish = s.finish.mapError .refused := by
  have hlast : ∀ d, s.scope.draft? = some d → v.lastName = d.name := fun d =>
    h.lastName_of_draft
  obtain ⟨⟨done, hdrafts, hfound, htyped⟩, hreading, -, hline, -⟩ := h
  obtain ⟨sc, n, F⟩ := s
  cases sc with
  | outside p =>
    have hkept := filter_typed p.toList (fun d hd => hs d (Option.mem_toList.1 hd)) htyped
    rw [ScanLoop.finish, show v.reading = .outside from hreading, hdrafts]
    simp only [Scope.draft?, hkept, List.map_reverse, hfound]
    rfl
  | comment d =>
    have hkept := filter_typed [d]
      (fun e he => by obtain rfl := List.mem_singleton.1 he; exact hs) htyped
    rw [ScanLoop.finish, show v.reading = .comment from hreading, hdrafts]
    simp only [Scope.draft?, Option.toList_some, hkept, List.map_reverse, hfound]
    rfl
  | directive d | returnType d | name d | arguments d q b | bodyStart d | body d q =>
    rw [ScanLoop.finish, hreading, hlast d rfl, hline]
    rfl

/-- From wherever it stands the loop goes on to its end, and there it has the functions of the scan
or its error. -/
theorem Stands.exists_ends {text : String} {k : Nat} {v : ScanLoop}
    (h : Stands (joinCrLf text.toList) k v) (hreach : Reaches (joinCrLf text.toList) k v) :
    ∃ m ≤ 2 * (joinCrLf text.toList).length,
      Ends (joinCrLf text.toList) m ((ShaderFunction.scan text).mapError .refused) := by
  cases hc : (joinCrLf text.toList)[v.index]? with
  | none =>
    have hlength := List.getElem?_eq_none_iff.1 hc
    cases h with
    | @between s hread hv hindex hk =>
      have hscan : ShaderFunction.scan text = s.finish := by
        rw [List.take_of_length_le hlength] at hread
        rw [ShaderFunction.scan, hread]
      rw [hscan, ← hv.finish_eq (sound_start.feedAll hread).scope.steady]
      exact ⟨k, by omega, .finished hreach hc⟩
    | before hread hc' => cases hc.symm.trans hc'
  | some c =>
    have hbound := (h.goes_on hc).1
    cases hw : v.step c with
    | ok w => exact (h.step hc hw).exists_ends (hreach.step hc hw)
    | error e =>
      have hscan : ∃ e', e = .refused e' ∧ ShaderFunction.scan text = .error e' := by
        cases h with
        | @between s hread hv hindex hk =>
          obtain ⟨e', rfl, hlook⟩ :=
            hv.exists_of_error (sound_start.feedAll hread).scope.steady hw
          refine ⟨e', rfl, ?_⟩
          rw [ShaderFunction.scan, feedAll_eq_error hread hc (feed_of_error hlook)]
        | @before s t c' hread hc' hput hv hk =>
          obtain rfl : c' = c := Option.some.inj (hc'.symm.trans hc)
          obtain ⟨p, u, -, -, htaken, -⟩ := exists_of_putBack hput
          obtain ⟨e', -, hlook⟩ :=
            hv.exists_of_error (steady_of_putBack (sound_start.feedAll hread).scope.steady hput) hw
          cases htaken.symm.trans hlook
      obtain ⟨e', rfl, hscan⟩ := hscan
      rw [hscan]
      exact ⟨k + 1, hbound, .failed hreach hc hw⟩
termination_by 2 * (joinCrLf text.toList).length - k
decreasing_by omega

/-- The loop over a text holds after every step what the scan holds, and keeps its invariant; it asks
no empty list for its latest function and puts no character back twice. So it ends within twice as
many steps as there are characters, with the functions that the scan finds, or its error. -/
theorem invariant_and_ends (text : String) :
    let cs := joinCrLf text.toList
    (∀ k v, Reaches cs k v → Stands cs k v ∧ v.Invariant cs
        ∧ ∀ c, cs[v.index]? = some c → k < 2 * cs.length ∧ v.step c ≠ .error .noDraft
          ∧ ∀ w, v.step c = .ok w → w.index = v.index →
            ∃ x, w.step c = .ok x ∧ x.index = v.index + 1)
      ∧ ∃ k ≤ 2 * cs.length, Ends cs k ((ShaderFunction.scan text).mapError .refused) := by
  intro cs
  refine ⟨fun k v h => ?_, (stands_start cs).exists_ends .start⟩
  exact ⟨h.stands, h.stands.invariant, fun c hc => h.stands.goes_on hc⟩

theorem invariant_and_ends_of_body :
    let cs := joinCrLf "v F()\r\n\x7b\x7d".toList
    let v : ScanLoop :=
      { drafts := [{ returnType := "v", name := "F", startLine := 1 }], reading := .body, index := 7,
        line := 1, braces := 1 }
    let w : ScanLoop := { drafts := [{}], reading := .returnType }
    Reaches cs 8 v ∧ v.Invariant cs ∧ cs[7]? = some '\x7d' ∧ 8 < 2 * cs.length
      ∧ v.step '\x7d' ≠ .error .noDraft
      ∧ step {} 'v' = .ok w ∧ (∃ x, w.step 'v' = .ok x ∧ x.index = 1)
      ∧ ∃ k ≤ 2 * cs.length,
        Ends cs k (.ok [{ startLine := 1, returnType := "v", name := "F" }]) := by
  intro cs v w
  have hscan : ShaderFunction.scan "v F()\r\n\x7b\x7d"
      = .ok [{ startLine := 1, returnType := "v", name := "F" }] := rfl
  have hname : Reaches cs 4
      { drafts := [{ returnType := "v", name := "F" }], reading := .name, index := 3 } :=
    .step (.step (.step (.step .start rfl rfl) rfl rfl) rfl rfl) rfl rfl
  have hbody : Reaches cs 8 v :=
    .step (.step (.step (.step hname rfl rfl) rfl rfl) rfl rfl) rfl rfl
  obtain ⟨hrun, hends⟩ := invariant_and_ends "v F()\r\n\x7b\x7d"
  obtain ⟨-, hinvariant, hgoes⟩ := hrun 8 v hbody
  obtain ⟨hbound, hstep, -⟩ := hgoes '\x7d' rfl
  obtain ⟨-, -, hstart⟩ := hrun 0 {} .start
  rw [hscan] at hends
  exact ⟨hbody, hinvariant, rfl, hbound, hstep, rfl, (hstart 'v' rfl).2.2 w rfl rfl, hends⟩

end ScanLoop

end ShaderGraph
