import ShaderGraph.Proofs.Scanned

/-!
# What a source is made of

A source that scans is the texts of its functions, one after the other, and what stands between
them. Nothing of a function is lost and nothing is made up: its text has its return type, its name,
its arguments and its body as they are found, and between functions there are only blanks, comment
lines and directives. While a source is read, what has been read since the last function spells the
draft.
-/

namespace ShaderGraph

open Text

/-- What stands between functions: blanks, and lines from a slash or a hash sign to their end. -/
inductive Gap : List Char → Prop
  | empty : Gap []
  | blank {g : List Char} {c : Char} (h : Gap g) (hc : isBlank c = true) : Gap (g ++ [c])
  | line {g l : List Char} {c b : Char} (h : Gap g) (hc : c = '/' ∨ c = '#')
      (hl : ∀ x ∈ l, isLineBreak x = false) (hb : isLineBreak b = true) : Gap (g ++ c :: l ++ [b])

/-- A function as it stands in a source. -/
structure FunctionText where
  returnType : List Char
  /-- the blank that ends the return type -/
  afterType : Char
  /-- the name, with blanks anywhere -/
  name : List Char
  /-- what stands between the parentheses -/
  arguments : List Char
  afterArguments : List Char
  body : List Char

namespace FunctionText

/-- The text up to the opening brace. -/
def heading (x : FunctionText) : List Char :=
  x.returnType ++ x.afterType :: x.name ++ '(' :: x.arguments ++ ')' :: x.afterArguments

/-- The whole text. -/
def text (x : FunctionText) : List Char := x.heading ++ '{' :: x.body ++ ['}']

/-- A text is that of a function, after what stands `before` it in its source. -/
structure Spells (x : FunctionText) (before : List Char) (f : ShaderFunction) : Prop where
  returnType : x.returnType = f.returnType.toList
  afterType : isBlank x.afterType = true
  noParenthesis : '(' ∉ x.name
  name : x.name.filter (fun c => !isBlank c) = f.name.toList
  parens : Balanced '(' ')' x.arguments
  arguments : [','].intercalate (f.arguments.map String.toList) = x.arguments
    ∨ x.arguments.all isBlank = true ∧ f.arguments = []
  afterArguments : ∀ c ∈ x.afterArguments, isBlank c = true
  body : x.body = f.body.toList
  braces : Balanced '{' '}' x.body
  startLine : f.startLine = lineBreaks (before ++ x.heading)

end FunctionText

/-- A text is that of some functions in order, with gaps before, between and after them. -/
inductive Layout : List ShaderFunction → List Char → Prop
  | gap {g : List Char} (h : Gap g) : Layout [] g
  | function {fs : List ShaderFunction} {f : ShaderFunction} {t g : List Char} {x : FunctionText}
      (h : Layout fs t) (hx : x.Spells t f) (hg : Gap g) : Layout (fs ++ [f]) (t ++ x.text ++ g)

namespace Layout

variable {fs : List ShaderFunction} {t : List Char}

theorem append_gap (h : Layout fs t) {e : List Char} (he : ∀ g, Gap g → Gap (g ++ e)) :
    Layout fs (t ++ e) := by
  cases h with
  | gap h => exact .gap (he _ h)
  | function h hx hg =>
    rw [List.append_assoc]
    exact .function h hx (he _ hg)

theorem append_blank (h : Layout fs t) {c : Char} (hc : isBlank c = true) : Layout fs (t ++ [c]) :=
  h.append_gap fun _ hg => .blank hg hc

theorem append_line (h : Layout fs t) {l : List Char} {c b : Char} (hc : c = '/' ∨ c = '#')
    (hl : ∀ x ∈ l, isLineBreak x = false) (hb : isLineBreak b = true) :
    Layout fs (t ++ c :: l ++ [b]) := by
  rw [List.append_assoc]
  refine h.append_gap fun g hg => ?_
  rw [← List.append_assoc]
  exact .line hg hc hl hb

/-- Each of the functions has its text where it stands. -/
theorem exists_spells_at (h : Layout fs t) {f : ShaderFunction} (hf : f ∈ fs) :
    ∃ x before, FunctionText.Spells x before f ∧ before ++ x.text <+: t := by
  induction h with
  | gap => cases hf
  | @function fs f' t g x h hx hg ih =>
    rcases List.mem_append.1 hf with hf | hf
    · obtain ⟨y, before, hy, htext⟩ := ih hf
      refine ⟨y, before, hy, htext.trans ?_⟩
      rw [List.append_assoc]
      exact List.prefix_append t _
    · obtain rfl := List.mem_singleton.1 hf
      exact ⟨x, t, hx, List.prefix_append _ g⟩

theorem exists_spells (h : Layout fs t) {f : ShaderFunction} (hf : f ∈ fs) :
    ∃ x before, FunctionText.Spells x before f ∧ x.text <:+: t := by
  obtain ⟨x, before, hx, htext⟩ := h.exists_spells_at hf
  exact ⟨x, before, hx, (List.suffix_append before x.text).isInfix.trans htext.isInfix⟩

end Layout

/-! ## What a draft has been read from -/

theorem intercalate_concat {x : Char} (b : List Char) :
    ∀ as : List (List Char), [x].intercalate (as ++ [b]) = as.flatMap (fun a => a ++ [x]) ++ b
  | [] => by rw [List.nil_append, List.intercalate_singleton, List.flatMap_nil, List.nil_append]
  | [a] => by
    rw [List.singleton_append, List.intercalate_cons_cons, List.intercalate_singleton,
      List.flatMap_singleton]
  | a :: a' :: as => by
    have ih := intercalate_concat (x := x) b (a' :: as)
    rw [List.cons_append] at ih
    rw [List.cons_append, List.cons_append, List.intercalate_cons_cons, ih,
      List.flatMap_cons (x := a), List.append_assoc (a ++ [x])]

theorem balanced_of_all_blank {t : List Char} (h : t.all isBlank = true) : Balanced '(' ')' t := by
  induction t with
  | nil => exact balanced_nil
  | cons c t ih =>
    rw [List.all_cons, Bool.and_eq_true] at h
    have hother : ∀ b, isBlank b = false → c ≠ b := by
      rintro b hb rfl
      rw [h.1] at hb
      cases hb
    exact (balanced_singleton (hother '(' (by decide)) (hother ')' (by decide))).append (ih h.2)

namespace Draft

variable {d : Draft}

/-- The arguments as far as they are read, with the commas between them. -/
def argumentText (d : Draft) : List Char :=
  d.earlier.reverse.flatMap (fun a => a.toList ++ [',']) ++ d.current.toList

/-- A text that the return type and the name have been read from. -/
def NamedIn (d : Draft) (h : List Char) : Prop :=
  ∃ b n, h = d.returnType.toList ++ b :: n ∧ isBlank b = true ∧ '(' ∉ n
    ∧ n.filter (fun c => !isBlank c) = d.name.toList

/-- A text that all up to the brace of the body has been read from. -/
def HeadedIn (d : Draft) (h : List Char) : Prop :=
  ∃ n w, d.NamedIn n ∧ h = n ++ '(' :: d.argumentText ++ ')' :: w ∧ ∀ c ∈ w, isBlank c = true

/-- A character after a name goes on with it or is a blank in it. -/
theorem NamedIn.push {h : List Char} {c : Char} (hd : d.NamedIn h) (hc : c ≠ '(') :
    (isBlank c = true → d.NamedIn (h ++ [c]))
      ∧ (isBlank c = false → { d with name := d.name.push c }.NamedIn (h ++ [c])) := by
  obtain ⟨b, m, rfl, hb, hopen, hname⟩ := hd
  have hopen' : '(' ∉ m ++ [c] := by
    simpa using ⟨hopen, fun h => hc h.symm⟩
  have happend : d.returnType.toList ++ b :: m ++ [c] = d.returnType.toList ++ b :: (m ++ [c]) := by
    rw [List.append_assoc, List.cons_append]
  refine ⟨fun hblank => ⟨b, m ++ [c], happend, hb, hopen', ?_⟩,
    fun hblank => ⟨b, m ++ [c], happend, hb, hopen', ?_⟩⟩
  · rw [List.filter_append, hname]
    simp [hblank]
  · rw [List.filter_append, hname, String.toList_push]
    simp [hblank]

theorem argumentText_extendArgument (d : Draft) (c : Char) :
    (d.extendArgument c).argumentText = d.argumentText ++ [c] := by
  simp [argumentText, extendArgument]

theorem argumentText_endArgument (d : Draft) :
    d.endArgument.argumentText = d.argumentText ++ [','] := by
  simp [argumentText, endArgument]

/-- The arguments joined by commas are what they have been read from, unless that is blank. -/
theorem arguments_cases (d : Draft) :
    [','].intercalate (d.arguments.map String.toList) = d.argumentText
      ∨ d.argumentText.all isBlank = true ∧ d.arguments = [] := by
  unfold arguments
  split_ifs with hblank
  · rw [Bool.and_eq_true, List.isEmpty_iff] at hblank
    refine .inr ⟨?_, rfl⟩
    rw [argumentText, hblank.1, List.reverse_nil, List.flatMap_nil, List.nil_append]
    exact hblank.2
  · refine .inl ?_
    rw [List.reverse_cons, List.map_append, List.map_singleton, intercalate_concat, argumentText,
      List.flatMap_map]

/-- A text that the whole draft has been read from spells the function that is found. -/
theorem HeadedIn.exists_spells {h before : List Char} (hd : d.HeadedIn h)
    (hline : d.startLine = lineBreaks (before ++ h)) (hf : d.finish.Scanned) :
    ∃ x : FunctionText, x.Spells before d.finish
      ∧ x.text = h ++ '{' :: d.body.toList ++ ['}'] := by
  obtain ⟨_, w, ⟨b, n, rfl, hb, hopen, hname⟩, rfl, hw⟩ := hd
  have hparens : Balanced '(' ')' d.argumentText := by
    rcases d.arguments_cases with hargs | ⟨hblank, -⟩
    · rw [← hargs]
      exact Balanced.intercalate (by decide) (by decide) fun a ha =>
        (hf.legible.arguments.arguments a ha).parens
    · exact balanced_of_all_blank hblank
  refine ⟨⟨d.returnType.toList, b, n, d.argumentText, w, d.body.toList⟩, ?_, rfl⟩
  exact ⟨rfl, hb, hopen, hname, hparens, d.arguments_cases, hw, rfl, hf.legible.body,
    congrArg Int.ofNat hline⟩

end Draft

/-- What has been read since the last function, or since the gap before a line. -/
def Scope.ReadFrom (before h : List Char) : Scope → Prop
  | outside _ => h = []
  | directive _ => ∃ l, h = '#' :: l ∧ ∀ c ∈ l, isLineBreak c = false
  | comment _ => ∃ l, h = '/' :: l ∧ ∀ c ∈ l, isLineBreak c = false
  | returnType d => h = d.returnType.toList ∧ d.name = ""
  | name d => d.NamedIn h
  | arguments d _ _ => ∃ n, d.NamedIn n ∧ h = n ++ '(' :: d.argumentText
  | bodyStart d => d.HeadedIn h
  | body d _ => ∃ n, d.HeadedIn n ∧ d.startLine = lineBreaks (before ++ n)
    ∧ h = n ++ '{' :: d.body.toList

/-- A scan has read a text: its functions with gaps, and what the scope has been read from. -/
structure ScanState.HasRead (s : ScanState) (t : List Char) : Prop where
  line : s.line = lineBreaks t
  scope : ∃ before h, t = before ++ h ∧ Layout s.found.reverse before ∧ s.scope.ReadFrom before h

/-- A turn goes on with what its scope has been read from, or a gap ends with it. -/
theorem Scope.ReadFrom.turn {sc sc' : Scope} {before r : List Char} {c : Char}
    {fs : List ShaderFunction} (h : sc.ReadFrom before r) (hs : sc.Sound) (hlayout : Layout fs before)
    (ht : sc.Turns (lineBreaks (before ++ r) + lineBreaks [c]) c sc') :
    sc'.ReadFrom before (r ++ [c]) ∨ (∃ p, sc' = .outside p) ∧ Layout fs (before ++ r ++ [c]) := by
  cases ht with
  | forget hl =>
    obtain rfl : r = [] := h
    exact .inr ⟨⟨_, rfl⟩, by simpa using hlayout.append_blank (isBlank_of_isLineBreak hl)⟩
  | keep _ hb =>
    obtain rfl : r = [] := h
    exact .inr ⟨⟨_, rfl⟩, by simpa using hlayout.append_blank hb⟩
  | openDirective hc | openComment hc =>
    obtain rfl : r = [] := h
    exact .inl ⟨[], congrArg ([·]) hc, by simp⟩
  | openFunction =>
    obtain rfl : r = [] := h
    obtain ⟨-, hd⟩ := hs.pending
    refine .inl ⟨?_, by rw [hd]⟩
    rw [hd]
    simp
  | inDirective hl | inComment hl =>
    obtain ⟨l, rfl, hline⟩ := h
    exact .inl ⟨l ++ [c], rfl, List.forall_mem_append.2 ⟨hline, by simpa using hl⟩⟩
  | endDirective hl =>
    obtain ⟨l, rfl, hline⟩ := h
    exact .inr ⟨⟨_, rfl⟩, hlayout.append_line (.inr rfl) hline hl⟩
  | endComment hl =>
    obtain ⟨l, rfl, hline⟩ := h
    exact .inr ⟨⟨_, rfl⟩, hlayout.append_line (.inl rfl) hline hl⟩
  | inType =>
    obtain ⟨rfl, hname⟩ := h
    exact .inl ⟨(String.toList_push _).symm, hname⟩
  | endType hb =>
    obtain ⟨rfl, hname⟩ := h
    exact .inl ⟨c, [], rfl, hb, by simp, by simp [hname]⟩
  | inName hb hc => exact .inl ((h.push hc).2 hb)
  | aroundName hb hc => exact .inl ((h.push hc).1 hb)
  | openArguments hc =>
    refine .inl ⟨r, h, ?_⟩
    rw [hc, Draft.argumentText, hs.2.1, hs.2.2.1]
    rfl
  | @inArgument d =>
    obtain ⟨m, hm, rfl⟩ := h
    refine .inl ⟨m, hm, ?_⟩
    rw [d.argumentText_extendArgument, List.append_assoc, List.cons_append]
  | @nextArgument d hc =>
    obtain ⟨m, hm, rfl⟩ := h
    refine .inl ⟨m, hm, ?_⟩
    rw [hc, d.argumentText_endArgument, List.append_assoc, List.cons_append]
  | closeArguments hc =>
    obtain ⟨m, hm, rfl⟩ := h
    refine .inl ⟨m, [], hm, ?_, by simp⟩
    simp [hc]
  | beforeBody hb =>
    obtain ⟨m, w, hm, rfl, hw⟩ := h
    refine .inl ⟨m, w ++ [c], hm, ?_, List.forall_mem_append.2 ⟨hw, by simpa using hb⟩⟩
    simp
  | openBody hc =>
    subst hc
    refine .inl ⟨r, h, rfl, ?_⟩
    rw [hs.2.2]
    rfl
  | inBody =>
    obtain ⟨m, hm, hline, rfl⟩ := h
    refine .inl ⟨m, hm, hline, ?_⟩
    simp

namespace ScanState

variable {c : Char}

/-- One more character has been read. -/
theorem HasRead.feed {s s' : ScanState} {t : List Char} (hs : s.Sound) (ht : s.HasRead t)
    (h : s.feed c = .ok s') : s'.HasRead (t ++ [c]) := by
  obtain ⟨hline, before, r, rfl, hlayout, hfrom⟩ := ht
  cases step_of_feed hs.scope h with
  | @turn sc sc' n F hturn =>
    obtain rfl : n = lineBreaks (before ++ r) := hline
    rcases hfrom.turn hs.scope hlayout hturn with hread | ⟨⟨p, rfl⟩, hgap⟩
    · exact ⟨(lineBreaks_append _ _).symm, before, r ++ [c], List.append_assoc .., hlayout, hread⟩
    · exact ⟨(lineBreaks_append _ _).symm, _, [], (List.append_nil _).symm, hgap, rfl⟩
  | @close d n F hc =>
    obtain rfl : n = lineBreaks (before ++ r) := hline
    obtain ⟨m, hm, hstart, rfl⟩ := hfrom
    obtain ⟨x, hx, htext⟩ := hm.exists_spells hstart hs.scope.finish
    refine ⟨(lineBreaks_append _ _).symm, _, [], (List.append_nil _).symm, ?_, rfl⟩
    rw [hc, List.append_assoc before, ← htext, List.reverse_cons, ← List.append_nil (before ++ x.text)]
    exact .function hlayout hx .empty

theorem HasRead.feedAll {s' : ScanState} :
    ∀ {cs t : List Char} {s : ScanState}, s.Sound → s.HasRead t → s.feedAll cs = .ok s' →
      s'.HasRead (t ++ cs)
  | [], t, s, _, ht, h => by
    cases h
    rwa [List.append_nil]
  | c :: cs, t, s, hs, ht, h => by
    unfold ScanState.feedAll at h
    split at h
    · cases h
    · rename_i u hu
      rw [List.append_cons]
      exact HasRead.feedAll (hs.feed hu) (ht.feed hs hu) h

end ScanState

/-- A source that scans is its functions in order, each with a text of its own, and gaps before,
between and after them; the last gap may end with a comment that the source breaks off. -/
theorem layout_of_scan {text : String} {fs : List ShaderFunction}
    (h : ShaderFunction.scan text = .ok fs) :
    ∃ t rest, joinCrLf text.toList = t ++ rest ∧ Layout fs t
      ∧ (rest = [] ∨ ∃ l, rest = '/' :: l ∧ ∀ c ∈ l, isLineBreak c = false) := by
  unfold ShaderFunction.scan at h
  split at h
  · cases h
  · rename_i s hs
    have hstart : ScanState.HasRead {} [] := ⟨rfl, [], [], rfl, .gap .empty, rfl⟩
    have hsound : ScanState.Sound {} := ⟨trivial, by simp⟩
    obtain ⟨-, t, rest, htext, hlayout, hrest⟩ := hstart.feedAll hsound hs
    refine ⟨t, rest, htext, ?_⟩
    unfold ScanState.finish at h
    split at h <;> cases h
    · rename_i hscope
      rw [hscope] at hrest
      exact ⟨hlayout, .inl hrest⟩
    · rename_i hscope
      rw [hscope] at hrest
      exact ⟨hlayout, .inr hrest⟩

theorem layout_of_scan_of_broken_off :
    let text := "#define A\r\nvoid  F\x0b G (int A[2], [ (]) ,) \n\x7b \x7b \x7d\r\n\x7d / a\n"
    ++ "int H( )\x7b\x7d // b"
    let fs : List ShaderFunction := [
      { startLine := 3, returnType := "void", name := "FG", arguments := ["int A[2]", " [ (]) ", ""],
        body := " \x7b \x7d\n" },
      { startLine := 5, comment := "/ a\n", returnType := "int", name := "H" }]
    ShaderFunction.scan text = .ok fs
      ∧ ∃ t rest, joinCrLf text.toList = t ++ rest ∧ Layout fs t
        ∧ (rest = [] ∨ ∃ l, rest = '/' :: l ∧ ∀ c ∈ l, isLineBreak c = false) := by
  intro text fs
  have h : ShaderFunction.scan text = .ok fs := by decide +kernel
  exact ⟨h, layout_of_scan h⟩

end ShaderGraph
