import Mathlib.Data.List.Basic
import Mathlib.Tactic.SplitIfs
import ShaderGraph.Yaml.Writer

/-!
# Reading pages in flow style

A page in flow style can be read character by character: brackets and scalars are found again,
however the scalars are quoted and wherever lines are broken. Of the runs of a scalar that is plain
or between single quotes all is read again if no break stands beside a space, for spaces that start
a line are indentation.
-/

namespace ShaderGraph.Yaml

/-- What stands on a page in flow style, without layout and commas. -/
inductive Sign where
  | opening
  | closing
  | scalar (cs : List Char)

/-- Where in a page a reader is, with the characters of the scalar so far. -/
inductive Spot where
  /-- outside of scalars -/
  | gap
  /-- in a scalar that is plain or between single quotes -/
  | lines (quoted : Bool) (cs : List Char)
  /-- after a line break in such a scalar, and so many more -/
  | broken (quoted : Bool) (cs : List Char) (more : Nat)
  /-- after a single quote between single quotes -/
  | quote (cs : List Char)
  /-- between double quotes -/
  | double (cs : List Char)
  /-- after a line break between double quotes -/
  | doubleBroken (cs : List Char)
  /-- after a backslash -/
  | escape (cs : List Char)
  /-- at a hexadecimal digit of a character, before so many more -/
  | digits (cs : List Char) (more value : Nat)

/-- What has been read of a page. -/
structure FlowReader where
  signs : List Sign := []
  spot : Spot := .gap

namespace FlowReader

/-- A character outside of scalars. -/
def startAt (signs : List Sign) (c : Char) : FlowReader :=
  if c ∈ [' ', '\n', ',', ':'] then ⟨signs, .gap⟩
  else if c ∈ ['[', '\x7b'] then ⟨signs ++ [.opening], .gap⟩
  else if c ∈ [']', '\x7d'] then ⟨signs ++ [.closing], .gap⟩
  else if c = '\'' then ⟨signs, .lines true []⟩
  else if c = '"' then ⟨signs, .double []⟩
  else ⟨signs, .lines false [c]⟩

/-- The characters that a break of so many lines and one more stands for. -/
def unfold (more : Nat) : List Char := if more = 0 then [' '] else List.replicate more '\n'

/-- A character of a scalar that is plain or between single quotes. -/
def inLines (signs : List Sign) (quoted : Bool) (cs : List Char) (c : Char) : FlowReader :=
  if c = '\n' then ⟨signs, .broken quoted cs 0⟩
  else if quoted then
    if c = '\'' then ⟨signs, .quote cs⟩ else ⟨signs, .lines true (cs ++ [c])⟩
  else if c ∈ [',', ':', ']', '\x7d'] then startAt (signs ++ [.scalar cs]) c
  else ⟨signs, .lines false (cs ++ [c])⟩

/-- A character between double quotes. -/
def inDouble (signs : List Sign) (cs : List Char) (c : Char) : FlowReader :=
  if c = '"' then ⟨signs ++ [.scalar cs], .gap⟩
  else if c = '\\' then ⟨signs, .escape cs⟩
  else ⟨signs, .double (cs ++ [c])⟩

/-- The character after a backslash. -/
def escaped (cs : List Char) (c : Char) : Spot :=
  if c = '\n' then .doubleBroken cs
  else if c = 'x' then .digits cs 1 0
  else if c = 'u' then .digits cs 3 0
  else if c = 'U' then .digits cs 7 0
  else
    match letterEscapes.find? fun e => e.2 = c with
    | some e => .double (cs ++ [e.1])
    | none => .double (cs ++ [c])

/-- The value of a hexadecimal digit in upper case. -/
def digitValue (c : Char) : Nat := if c ≤ '9' then c.toNat - 48 else c.toNat - 55

/-- What has been read with one more character. -/
def next (r : FlowReader) (c : Char) : FlowReader :=
  match r.spot with
  | .gap => startAt r.signs c
  | .lines quoted cs => inLines r.signs quoted cs c
  | .broken quoted cs more =>
    if c = '\n' then ⟨r.signs, .broken quoted cs (more + 1)⟩
    else if c = ' ' then r
    else inLines r.signs quoted (cs ++ unfold more) c
  | .quote cs =>
    if c = '\'' then ⟨r.signs, .lines true (cs ++ [c])⟩ else startAt (r.signs ++ [.scalar cs]) c
  | .double cs => inDouble r.signs cs c
  | .doubleBroken cs => if c = ' ' then r else inDouble r.signs cs c
  | .escape cs => ⟨r.signs, escaped cs c⟩
  | .digits cs more value =>
    match more with
    | 0 => ⟨r.signs, .double (cs ++ [Char.ofNat (16 * value + digitValue c)])⟩
    | n + 1 => ⟨r.signs, .digits cs n (16 * value + digitValue c)⟩

/-- What has been read with some more characters. -/
def read (r : FlowReader) (cs : List Char) : FlowReader := cs.foldl next r

@[simp]
theorem read_nil (r : FlowReader) : r.read [] = r := rfl

@[simp]
theorem read_cons (r : FlowReader) (c : Char) (cs : List Char) :
    r.read (c :: cs) = (r.next c).read cs := rfl

theorem read_append (r : FlowReader) (cs ds : List Char) :
    r.read (cs ++ ds) = (r.read cs).read ds := List.foldl_append

end FlowReader

/-- What is read of a page. -/
def Page.read (p : Page) : FlowReader := FlowReader.read {} p.text.toList

namespace Page

@[simp]
theorem read_put (p : Page) (s : String) : (p.put s).read = p.read.read s.toList := by
  rw [read, put, String.toList_append, FlowReader.read_append]
  rfl

@[simp]
theorem read_putChars (p : Page) (cs : List Char) : (p.putChars cs).read = p.read.read cs := by
  rw [putChars, read_put, String.toList_ofList]

@[simp]
theorem read_breakLine (p : Page) : p.breakLine.read = p.read.next '\n' := by
  rw [read, breakLine, String.toList_push, FlowReader.read_append]
  rfl

@[simp]
theorem read_inScalar (p : Page) : p.inScalar.read = p.read := rfl

theorem read_mark (p : Page) (s : String) (needsSpace apart entry : Bool) :
    (p.mark s needsSpace apart entry).read
      = if p.apart || !needsSpace then p.read.read s.toList
        else (p.read.next ' ').read s.toList := by
  unfold mark
  split_ifs with h
  · exact read_put p s
  · change (p.put (" " ++ s)).read = _
    rw [read_put, String.toList_append]
    rfl

end Page

namespace FlowReader

theorem read_replicate_of_next_eq {r : FlowReader} {c : Char} (h : r.next c = r) :
    ∀ n, r.read (List.replicate n c) = r
  | 0 => rfl
  | n + 1 => by rw [List.replicate_succ, read_cons, h, read_replicate_of_next_eq h n]

end FlowReader

namespace Page

/-- Indentation is a line break, if it is needed, and then spaces. -/
theorem read_indentTo (p : Page) (n : Nat) : ∃ k, (p.indentTo n).read
    = (if (!p.fresh || n < p.column || (p.column == n && !p.apart)) = true then p.read.next '\n'
      else p.read).read (List.replicate k ' ') := by
  have hspaces : ∀ q : Page, ∃ k, (if q.column < n then
      { q.putChars (List.replicate (n - q.column) ' ') with apart := true } else q).read
        = q.read.read (List.replicate k ' ') := by
    intro q
    split_ifs
    · exact ⟨n - q.column, read_putChars q _⟩
    · exact ⟨0, rfl⟩
  obtain ⟨k, hk⟩ := hspaces (if (!p.fresh || n < p.column || (p.column == n && !p.apart)) = true
    then p.breakLine else p)
  refine ⟨k, hk.trans ?_⟩
  split_ifs
  · rw [read_breakLine]
  · rfl

theorem read_indentTo_of_lt {p : Page} {n : Nat} (h : n < p.column)
    (hspace : (p.read.next '\n').next ' ' = p.read.next '\n') :
    (p.indentTo n).read = p.read.next '\n' := by
  obtain ⟨k, hk⟩ := p.read_indentTo n
  rw [hk, if_pos (by simp [h]), FlowReader.read_replicate_of_next_eq hspace]

/-- Between brackets and scalars indentation tells nothing. -/
theorem read_indentTo_of_gap {p : Page} (h : p.read.spot = .gap) (n : Nat) :
    (p.indentTo n).read = p.read := by
  have hnext : ∀ {c : Char}, c ∈ [' ', '\n'] → p.read.next c = p.read := by
    intro c hc
    have hgap : c ∈ [' ', '\n', ',', ':'] := List.mem_append_left [',', ':'] hc
    rw [FlowReader.next, h]
    simp only [FlowReader.startAt, if_pos hgap]
    rw [← h]
  obtain ⟨k, hk⟩ := p.read_indentTo n
  rw [hk, hnext (c := '\n') (by decide), ite_self,
    FlowReader.read_replicate_of_next_eq (hnext (by decide))]

theorem read_breakIfFull_of_gap {p : Page} (h : p.read.spot = .gap) (n : Nat) :
    (breakIfFull n p).read = p.read := by
  unfold breakIfFull
  split_ifs
  · exact read_indentTo_of_gap h n
  · rfl

theorem column_indentTo_of_lt {p : Page} {n : Nat} (h : n < p.column) :
    (p.indentTo n).column = n := by
  unfold indentTo
  simp only [show (!p.fresh || decide (n < p.column) || (p.column == n && !p.apart)) = true by
    simp [h], ↓reduceIte, breakLine]
  split_ifs with hn
  · simp [putChars, put]
  · exact (Nat.eq_zero_of_not_pos hn).symm

/-- Some line breaks start a line on which no further break is needed. -/
theorem read_breaks (n : Nat) (p : Page) :
    ∃ q : Page, (List.range (n + 1)).foldl (fun p _ => p.breakLine) p = q
      ∧ q.read = p.read.read (List.replicate (n + 1) '\n')
      ∧ q.column = 0 ∧ q.apart = true ∧ q.fresh = true := by
  induction n with
  | zero => exact ⟨_, rfl, read_breakLine p, rfl, rfl, rfl⟩
  | succ n ih =>
    obtain ⟨q, hq, hread, -⟩ := ih
    refine ⟨q.breakLine, ?_, ?_, rfl, rfl, rfl⟩
    · rw [List.range_succ, List.foldl_append, hq]
      rfl
    · rw [read_breakLine, hread, List.replicate_succ' (n := n + 1), FlowReader.read_append]
      rfl

end Page

/-! ## Scalars that are plain or between single quotes -/

/-- A spot in a scalar that is plain or between single quotes, with its characters so far. -/
inductive Spot.InLines (quoted : Bool) : Spot → List Char → Prop
  | lines {cs : List Char} : InLines quoted (.lines quoted cs) cs
  | broken {cs : List Char} {more : Nat} :
      InLines quoted (.broken quoted cs more) (cs ++ FlowReader.unfold more)

namespace FlowReader

variable {r : FlowReader} {quoted : Bool} {cs w : List Char} {c : Char}

theorem next_of_inLines (h : r.spot.InLines quoted cs) (hbreak : c ≠ '\n') (hspace : c ≠ ' ') :
    r.next c = inLines r.signs quoted cs c := by
  obtain ⟨signs, spot⟩ := r
  cases h with
  | lines => rfl
  | broken => simp only [next, if_neg hbreak, if_neg hspace]

theorem next_broken (signs : List Sign) (quoted : Bool) (cs : List Char) (more : Nat) :
    (FlowReader.mk signs (.broken quoted cs more)).next ' ' = ⟨signs, .broken quoted cs more⟩ := by
  simp [next]

theorem read_spaces (signs : List Sign) (quoted : Bool) : ∀ (n : Nat) (cs : List Char),
    (FlowReader.mk signs (.lines quoted cs)).read (List.replicate n ' ')
      = ⟨signs, .lines quoted (cs ++ List.replicate n ' ')⟩
  | 0, cs => by simp
  | n + 1, cs => by
    have hnext : (FlowReader.mk signs (.lines quoted cs)).next ' '
        = ⟨signs, .lines quoted (cs ++ [' '])⟩ := by
      cases quoted <;> rfl
    rw [List.replicate_succ, read_cons, hnext, read_spaces signs quoted n, List.append_assoc]
    rfl

theorem read_newlines (signs : List Sign) (quoted : Bool) (cs : List Char) : ∀ n m : Nat,
    (FlowReader.mk signs (.broken quoted cs m)).read (List.replicate n '\n')
      = ⟨signs, .broken quoted cs (m + n)⟩
  | 0, _ => rfl
  | n + 1, m => by
    have hnext : (FlowReader.mk signs (.broken quoted cs m)).next '\n'
        = ⟨signs, .broken quoted cs (m + 1)⟩ := rfl
    rw [List.replicate_succ, read_cons, hnext, read_newlines signs quoted cs n, Nat.add_assoc,
      Nat.add_comm 1]

/-- A character that is written as it is in plain scalars. -/
def IsPlain (c : Char) : Prop := c ≠ ' ' ∧ c ≠ '\n' ∧ c ∉ [',', ':', ']', '\x7d']

theorem read_plainWord : ∀ {w : List Char} {r : FlowReader} {cs : List Char},
    r.spot.InLines false cs → w ≠ [] → (∀ c ∈ w, IsPlain c) →
    r.read w = ⟨r.signs, .lines false (cs ++ w)⟩
  | c :: w, r, cs, h, _, hw => by
    obtain ⟨hspace, hbreak, hend⟩ := hw c List.mem_cons_self
    have hnext : r.next c = ⟨r.signs, .lines false (cs ++ [c])⟩ := by
      rw [next_of_inLines h hbreak hspace, inLines, if_neg hbreak, if_neg (by decide), if_neg hend]
    rw [read_cons, hnext]
    cases w with
    | nil => rfl
    | cons d w =>
      rw [read_plainWord .lines (List.cons_ne_nil d w)
        fun e he => hw e (List.mem_cons_of_mem _ he), List.append_assoc]
      rfl

theorem read_quotedWord : ∀ {w : List Char} {r : FlowReader} {cs : List Char},
    r.spot.InLines true cs → w ≠ [] → (∀ c ∈ w, c ≠ ' ' ∧ c ≠ '\n') →
    r.read (doubleQuotes w) = ⟨r.signs, .lines true (cs ++ w)⟩
  | c :: w, r, cs, h, _, hw => by
    obtain ⟨hspace, hbreak⟩ := hw c List.mem_cons_self
    have hnext : r.read (if c = '\'' then ['\'', '\''] else [c])
        = ⟨r.signs, .lines true (cs ++ [c])⟩ := by
      have hfirst := next_of_inLines h hbreak hspace
      rw [inLines, if_neg hbreak, if_pos rfl] at hfirst
      split_ifs at hfirst ⊢ with hc
      · subst hc
        rw [read_cons, hfirst]
        rfl
      · rw [read_cons, hfirst]
        rfl
    rw [doubleQuotes, List.flatMap_cons, read_append, hnext]
    cases w with
    | nil => rfl
    | cons d w =>
      rw [← doubleQuotes, read_quotedWord .lines (List.cons_ne_nil d w)
        fun e he => hw e (List.mem_cons_of_mem _ he), List.append_assoc]
      rfl

end FlowReader

/-- The characters of a run. -/
def Run.chars : Run → List Char
  | .word cs => cs
  | .spaces n => List.replicate n ' '
  | .breaks n => List.replicate n '\n'

/-- Runs of which the first is a word, if there is one. -/
inductive StartsWithWord : List Run → Prop
  | nil : StartsWithWord []
  | word {w : List Char} {rest : List Run} : StartsWithWord (.word w :: rest)

/-- Runs of which no two of spaces and breaks stand side by side, with words of certain characters.
-/
inductive Separate (ok : Char → Prop) : List Run → Prop
  | nil : Separate ok []
  | word {w : List Char} {rest : List Run} (hne : w ≠ []) (hw : ∀ c ∈ w, ok c)
      (h : Separate ok rest) : Separate ok (.word w :: rest)
  | spaces {n : Nat} {rest : List Run} (hs : StartsWithWord rest) (h : Separate ok rest) :
      Separate ok (.spaces n :: rest)
  | breaks {n : Nat} {rest : List Run} (hn : 0 < n) (hs : StartsWithWord rest)
      (h : Separate ok rest) : Separate ok (.breaks n :: rest)

/-- A page that ends in a scalar, with its characters so far. -/
structure Page.Within (p : Page) (signs : List Sign) (quoted : Bool) (cs : List Char) : Prop where
  signs : p.read.signs = signs
  spot : p.read.spot.InLines quoted cs

theorem Page.Within.of_read {p : Page} {signs : List Sign} {spot : Spot} {quoted : Bool}
    {cs : List Char} (h : p.read = ⟨signs, spot⟩) (hspot : spot.InLines quoted cs) :
    p.Within signs quoted cs := by
  constructor <;> rw [h]
  exact hspot

/-- What is read of runs, given what is read of a word. A line is broken only before a word. -/
theorem within_writeRuns {indent : Nat} (hindent : indent ≤ Page.bestWidth) {quoted split : Bool}
    {f : List Char → List Char} {ok : Char → Prop}
    (hf : ∀ {r : FlowReader} {cs w : List Char}, r.spot.InLines quoted cs → w ≠ [] →
      (∀ c ∈ w, ok c) → r.read (f w) = ⟨r.signs, .lines quoted (cs ++ w)⟩) {signs : List Sign} :
    ∀ {runs : List Run} {first : Bool} {p : Page} {cs : List Char}, Separate ok runs →
      p.Within signs quoted cs → (p.read.spot = .lines quoted cs ∨ StartsWithWord runs) →
      (writeRuns indent split f first p runs).Within signs quoted
        (cs ++ runs.flatMap Run.chars) := by
  intro runs
  induction runs with
  | nil =>
    intro first p cs _ hp _
    rw [List.flatMap_nil, List.append_nil]
    exact hp
  | cons run rest ih =>
    intro first p cs hruns hp hstart
    rw [List.flatMap_cons, ← List.append_assoc]
    have hlines : ¬ StartsWithWord (run :: rest) → p.read = ⟨signs, .lines quoted cs⟩ := by
      intro hno
      rw [← hp.signs, ← hstart.resolve_right hno]
    cases hruns with
    | @word w _ hne hw h =>
      have hword : (p.putChars (f w)).read = ⟨signs, .lines quoted (cs ++ w)⟩ := by
        rw [Page.read_putChars, hf hp.spot hne hw, hp.signs]
      exact ih h (.of_read hword .lines) (.inl (by rw [hword]; rfl))
    | @spaces n _ hs h =>
      rw [writeRuns]
      split_ifs with hbreak
      · obtain ⟨rfl, hfull, -⟩ := hbreak
        have hlt : indent < p.column := Nat.lt_of_le_of_lt hindent (of_decide_eq_true hfull)
        have hnext : p.read.next '\n' = ⟨signs, .broken quoted cs 0⟩ := by
          rw [hlines nofun]
          rfl
        have hread : (p.indentTo indent).inScalar.read = ⟨signs, .broken quoted cs 0⟩ := by
          rw [Page.read_inScalar, Page.read_indentTo_of_lt hlt, hnext]
          rw [hnext, FlowReader.next_broken]
        exact ih h (.of_read hread .broken) (.inr hs)
      · have hread : (p.putChars (List.replicate n ' ')).read
            = ⟨signs, .lines quoted (cs ++ List.replicate n ' ')⟩ := by
          rw [Page.read_putChars, hlines nofun, FlowReader.read_spaces]
        exact ih h (.of_read hread .lines) (.inl (by rw [hread]; rfl))
    | @breaks n _ hn hs h =>
      obtain ⟨q, hq, hqread, hcolumn, hapart, hfresh⟩ := p.read_breaks n
      have hbroken : q.read = ⟨signs, .broken quoted cs n⟩ := by
        rw [hqread, hlines nofun, List.replicate_succ, FlowReader.read_cons]
        change (FlowReader.mk _ (.broken quoted cs 0)).read _ = _
        rw [FlowReader.read_newlines, Nat.zero_add]
      have hread : (q.indentTo indent).inScalar.read = ⟨signs, .broken quoted cs n⟩ := by
        obtain ⟨k, hk⟩ := q.read_indentTo indent
        rw [Page.read_inScalar, hk, if_neg (by simp [hcolumn, hapart, hfresh]), hbroken,
          FlowReader.read_replicate_of_next_eq (FlowReader.next_broken _ _ _ _)]
      have hunfold : FlowReader.unfold n = List.replicate n '\n' := if_neg (by omega)
      rw [writeRuns, hq]
      refine ih h (.of_read hread ?_) (.inr hs)
      rw [Run.chars, ← hunfold]
      exact .broken

/-! ## The runs of a text -/

theorem runsOf_cons (c : Char) (cs : List Char) : runsOf (c :: cs) = consRun c (runsOf cs) := rfl

theorem flatMap_chars_consRun (c : Char) (runs : List Run) :
    (consRun c runs).flatMap Run.chars = c :: runs.flatMap Run.chars := by
  unfold consRun
  split_ifs with hspace hbreak
  · subst hspace
    split
    · simp [Run.chars, List.replicate_succ]
    · simp [Run.chars]
  · subst hbreak
    split
    · simp [Run.chars, List.replicate_succ]
    · simp [Run.chars]
  · split <;> simp [Run.chars]

theorem flatMap_chars_runsOf (cs : List Char) : (runsOf cs).flatMap Run.chars = cs := by
  induction cs with
  | nil => rfl
  | cons c cs ih => rw [runsOf_cons, flatMap_chars_consRun, ih]

/-- The kind of the first run is that of the first character. -/
inductive StartsAs (c : Char) : List Run → Prop
  | word {w : List Char} {rest : List Run} (hspace : c ≠ ' ') (hbreak : c ≠ '\n') :
      StartsAs c (.word (c :: w) :: rest)
  | spaces {n : Nat} {rest : List Run} (h : c = ' ') : StartsAs c (.spaces n :: rest)
  | breaks {n : Nat} {rest : List Run} (h : c = '\n') : StartsAs c (.breaks n :: rest)

theorem startsAs_consRun (c : Char) (runs : List Run) : StartsAs c (consRun c runs) := by
  unfold consRun
  split_ifs with hspace hbreak
  · split <;> exact .spaces hspace
  · split <;> exact .breaks hbreak
  · split <;> exact .word hspace hbreak

variable {ok : Char → Prop}

/-- Where no break stands beside a space, the runs are separate. -/
theorem separate_runsOf : ∀ {cs : List Char},
    Analysis.hasPair Analysis.isSpace Analysis.isBreak cs = false →
    Analysis.hasPair Analysis.isBreak Analysis.isSpace cs = false →
    (∀ c ∈ cs, c ≠ ' ' → c ≠ '\n' → ok c) → Separate ok (runsOf cs)
  | [], _, _, _ => .nil
  | [c], _, _, hok => by
    have hc := hok c List.mem_cons_self
    change Separate ok (consRun c [])
    unfold consRun
    split_ifs with hspace hbreak
    · exact .spaces .nil .nil
    · exact .breaks (by decide) .nil .nil
    · exact .word (List.cons_ne_nil _ _) (by simpa using hc hspace hbreak) .nil
  | c :: d :: cs, hsb, hbs, hok => by
    rw [Analysis.hasPair, Bool.or_eq_false_iff] at hsb hbs
    have ih := separate_runsOf hsb.2 hbs.2 fun e he => hok e (List.mem_cons_of_mem _ he)
    have hd : StartsAs d (runsOf (d :: cs)) := startsAs_consRun d _
    have hc := hok c List.mem_cons_self
    rw [runsOf_cons]
    generalize runsOf (d :: cs) = runs at ih hd
    unfold consRun
    split_ifs with hspace hbreak
    · subst hspace
      cases hd with
      | word _ _ => exact .spaces .word ih
      | spaces _ =>
        cases ih with
        | spaces hs h => exact .spaces hs h
      | breaks hd =>
        subst hd
        exact absurd hsb.1 (by decide)
    · subst hbreak
      cases hd with
      | word _ _ => exact .breaks (by decide) .word ih
      | spaces hd =>
        subst hd
        exact absurd hbs.1 (by decide)
      | breaks _ =>
        cases ih with
        | breaks hn hs h => exact .breaks (Nat.succ_pos _) hs h
    · cases hd with
      | word _ _ =>
        cases ih with
        | word _ hw h =>
          refine .word (List.cons_ne_nil _ _) (fun e he => ?_) h
          rcases List.mem_cons.1 he with rfl | he
          · exact hc hspace hbreak
          · exact hw e he
      | spaces _ | breaks _ =>
        exact .word (List.cons_ne_nil _ _) (by simpa using hc hspace hbreak) ih

end ShaderGraph.Yaml
