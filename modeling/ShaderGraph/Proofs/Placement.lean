import Mathlib.Data.List.SplitBy
import ShaderGraph.Graph.Code
import ShaderGraph.Proofs.Extended

/-!
# Where the lines of a body stand

A compiler counts lines from a line directive. The code after that directive is the body of a
function line by line, with `return` returning zero, and its number is that of the line on which the
body starts in the source. So wherever in the body an error is, the compiler names the line on which
it stands in the source (`lines_of_code`): a scan is followed from the brace that opens a body to the
one that closes it.
-/

namespace ShaderGraph

open Text

/-! ## Words of a text, line by line -/

namespace Text

/-- The lines of a text, which stand between its line breaks. -/
def linesOf (cs : List Char) : List (List Char) := cs.splitOnP isLineBreak

/-- The longest words of a text and the characters that are in none, in order. -/
def segments (cs : List Char) : List (List Char) := cs.splitBy fun a b => isWord a && isWord b

/-- A text with every whole word `w` replaced. -/
def replaceWord (w v cs : List Char) : List Char :=
  (segments cs).flatMap fun x => if x = w then v else x

variable {w v : List Char}

theorem not_isWord_of_isLineBreak {c : Char} (h : isLineBreak c = true) : isWord c = false := by
  simp only [isLineBreak, Bool.or_eq_true, beq_iff_eq] at h
  rcases h with ((rfl | rfl) | rfl) | rfl <;> decide

theorem segments_of_word {x : List Char} (hx : x ≠ []) (h : ∀ c ∈ x, isWord c = true) :
    segments x = [x] := by
  refine List.splitBy_of_isChain hx (List.Pairwise.isChain (List.pairwise_iff_forall_sublist.2 ?_))
  intro a b hab
  have ha := h a (hab.subset List.mem_cons_self)
  have hb := h b (hab.subset (List.mem_cons_of_mem _ List.mem_cons_self))
  simp [ha, hb]

/-- A character that is in no word is a segment by itself. -/
theorem segments_append_cons {c : Char} (hc : isWord c = false) (a b : List Char) :
    segments (a ++ c :: b) = segments a ++ [c] :: segments b := by
  have hfirst : segments (a ++ c :: b) = segments a ++ segments (c :: b) :=
    List.splitBy_append_cons b fun x _ => by simp [hc]
  have hrest : segments ([c] ++ b) = segments [c] ++ segments b :=
    List.splitBy_append fun x hx y _ => by
      obtain rfl : c = x := by simpa using hx
      simp [hc]
  rw [hfirst]
  exact congrArg (segments a ++ ·) hrest

theorem replaceWord_of_word {x : List Char} (h : ∀ c ∈ x, isWord c = true) (hw : w ≠ []) :
    replaceWord w v x = if x = w then v else x := by
  by_cases hx : x = []
  · subst hx
    rw [if_neg (Ne.symm hw)]
    rfl
  · rw [replaceWord, segments_of_word hx h, List.flatMap_singleton]

theorem replaceWord_append_cons {c : Char} (hw : ∀ c ∈ w, isWord c = true) (hc : isWord c = false)
    (a b : List Char) :
    replaceWord w v (a ++ c :: b) = replaceWord w v a ++ c :: replaceWord w v b := by
  have hne : [c] ≠ w := by
    rintro rfl
    rw [hw c List.mem_cons_self] at hc
    cases hc
  rw [replaceWord, segments_append_cons hc, List.flatMap_append, List.flatMap_cons, if_neg hne]
  rfl

theorem mem_or_of_mem_replaceWord {c : Char} {cs : List Char} (h : c ∈ replaceWord w v cs) :
    c ∈ v ∨ c ∈ cs := by
  obtain ⟨x, hx, hcx⟩ := List.mem_flatMap.1 h
  split_ifs at hcx
  · exact .inl hcx
  · have hmem : c ∈ (segments cs).flatten := List.mem_flatten.2 ⟨x, hx, hcx⟩
    rw [segments, List.flatten_splitBy] at hmem
    exact .inr hmem

theorem linesOf_append_cons {c : Char} (hc : isLineBreak c = true) {a : List Char}
    (ha : ∀ x ∈ a, isLineBreak x = false) (b : List Char) :
    linesOf (a ++ c :: b) = a :: linesOf b := by
  rw [linesOf, List.splitOnP_append_cons a b hc, List.splitOnP_eq_singleton ha]
  rfl

/-- A line has been read up to `a`, which has no line break, and `cs` is to come. -/
theorem linesOf_replaceWord_append (hw : ∀ c ∈ w, isWord c = true)
    (hv : ∀ c ∈ v, isLineBreak c = false) : ∀ (cs a : List Char), (∀ c ∈ a, isLineBreak c = false) →
      linesOf (replaceWord w v (a ++ cs)) = (linesOf (a ++ cs)).map (replaceWord w v)
  | cs, a, ha => by
    have ha' : ∀ c ∈ replaceWord w v a, isLineBreak c = false := fun c hc =>
      (mem_or_of_mem_replaceWord hc).elim (hv c) (ha c)
    cases cs with
    | nil =>
      rw [List.append_nil, linesOf, linesOf, List.splitOnP_eq_singleton ha,
        List.splitOnP_eq_singleton ha']
      rfl
    | cons c cs =>
      by_cases hc : isLineBreak c = true
      · have ih := linesOf_replaceWord_append hw hv cs [] (by simp)
        rw [replaceWord_append_cons hw (not_isWord_of_isLineBreak hc), linesOf_append_cons hc ha',
          linesOf_append_cons hc ha, List.map_cons]
        exact congrArg _ ih
      · have hac : ∀ x ∈ a ++ [c], isLineBreak x = false :=
          List.forall_mem_append.2 ⟨ha, by simpa using hc⟩
        rw [List.append_cons]
        exact linesOf_replaceWord_append hw hv cs (a ++ [c]) hac
termination_by cs => cs.length

/-- Words do not reach over line breaks, so they are replaced line by line. -/
theorem linesOf_replaceWord (hw : ∀ c ∈ w, isWord c = true) (hv : ∀ c ∈ v, isLineBreak c = false)
    (cs : List Char) : linesOf (replaceWord w v cs) = (linesOf cs).map (replaceWord w v) :=
  linesOf_replaceWord_append hw hv cs [] (by simp)

theorem length_linesOf : ∀ cs : List Char, (linesOf cs).length = lineBreaks cs + 1
  | [] => rfl
  | c :: cs => by
    have ih := length_linesOf cs
    unfold linesOf at ih ⊢
    rw [List.splitOnP_cons_eq_if_modifyHead, lineBreaks_cons, lineBreaks_singleton]
    split_ifs
    · rw [List.length_cons, ih]
      omega
    · rw [List.length_modifyHead, ih]
      omega

theorem lineBreaks_replaceWord (hw : ∀ c ∈ w, isWord c = true)
    (hv : ∀ c ∈ v, isLineBreak c = false) (cs : List Char) :
    lineBreaks (replaceWord w v cs) = lineBreaks cs := by
  have hlength := congrArg List.length (linesOf_replaceWord hw hv cs)
  rw [List.length_map, length_linesOf, length_linesOf] at hlength
  omega

end Text

namespace Code

/-- A body whose words are mapped one by one is the body with one word replaced. -/
theorem mapWordsFrom_codeWord : ∀ (cs word : List Char), (∀ c ∈ word, isWord c = true) →
    mapWordsFrom codeWord word cs
      = replaceWord "return".toList "return 0.f".toList (word.reverse ++ cs)
  | [], word, h => by
    rw [List.append_nil, replaceWord_of_word (by simpa using h) (by decide)]
    rfl
  | c :: cs, word, h => by
    rw [mapWordsFrom]
    split_ifs with hc
    · rw [mapWordsFrom_codeWord cs (c :: word) (List.forall_mem_cons.2 ⟨hc, h⟩),
        List.reverse_cons, List.append_assoc, List.singleton_append]
    · have hword : ∀ c ∈ word.reverse, isWord c = true := by simpa using h
      rw [Bool.not_eq_true] at hc
      rw [mapWordsFrom_codeWord cs [] (by simp), replaceWord_append_cons (by decide) hc,
        replaceWord_of_word hword (by decide)]
      rfl

theorem toList_returningZero (body : String) : (returningZero body).toList
    = replaceWord "return".toList "return 0.f".toList body.toList := by
  rw [returningZero, String.toList_ofList, mapWordsFrom_codeWord _ [] (by simp)]
  rfl

end Code

/-! ## Bodies in a source -/

namespace ScanState

/-- A scan that has read `before` is in the body of a function after `i` others, and has read
`part` of that body. -/
def ReadsBody (before : List Char) (i : Nat) (part : List Char) : Prop :=
  ∃ s d q, feedAll {} before = .ok s ∧ s.found.length = i ∧ s.scope = .body d q
    ∧ d.body.toList = part

variable {s t : ScanState} {c : Char} {d : Draft} {q : Nat}

/-- A body starts empty, grows by the characters that are read, and ends with the brace that makes a
function of its draft. -/
theorem body_cases_of_feed (hs : s.Sound) (h : s.feed c = .ok t) :
    (t.found = s.found ∧ (∀ d q, s.scope ≠ .body d q)
        ∧ ∀ d q, t.scope = .body d q → d.body = "")
      ∨ ∃ d q, s.scope = .body d q
        ∧ (c = '}' ∧ t.found = d.finish :: s.found ∧ t.scope = .outside none
          ∨ t.found = s.found ∧ ∃ q', t.scope = .body { d with body := d.body.push c } q') := by
  cases step_of_feed hs.scope h with
  | turn hturn =>
    cases hturn with
    | inBody => exact .inr ⟨_, _, rfl, .inr ⟨rfl, _, rfl⟩⟩
    | openBody =>
      refine .inl ⟨rfl, by simp, fun d q hd => ?_⟩
      cases hd
      exact hs.scope.2.2
    | forget | keep | openDirective | openComment | openFunction | inDirective | endDirective
    | inComment | endComment | inType | endType | inName | aroundName | openArguments | inArgument
    | nextArgument | closeArguments | beforeBody => exact .inl ⟨rfl, by simp, by simp⟩
  | close hc => exact .inr ⟨_, _, rfl, .inl ⟨hc, rfl, rfl⟩⟩

/-- A scan that leaves a body has read the rest of it and the brace that closes it, and has found the
function of its draft. -/
theorem exists_of_leaves_body : ∀ {cs : List Char} {s : ScanState} {d : Draft} {q : Nat}, s.Sound →
    s.scope = .body d q → s.feedAll cs = .ok t → (∀ d q, t.scope ≠ .body d q) →
      ∃ rest after, cs = rest ++ '}' :: after
        ∧ { d with body := d.body ++ String.ofList rest }.finish :: s.found <:+ t.found
  | [], s, d, q, _, hd, h, hleft => by
    cases h
    exact absurd hd (hleft d q)
  | c :: cs, s, d, q, hs, hd, h, hleft => by
    unfold feedAll at h
    split at h
    · cases h
    · rename_i u hu
      rcases body_cases_of_feed hs hu with ⟨-, hno, -⟩ | ⟨e, q', he, hcases⟩
      · exact absurd hd (hno d q)
      · cases hd.symm.trans he
        rcases hcases with ⟨rfl, hfound, -⟩ | ⟨hfound, q'', hscope⟩
        · refine ⟨[], cs, rfl, ?_⟩
          rw [append_ofList_nil, ← hfound]
          exact found_suffix_of_feedAll (hs.feed hu) h
        · obtain ⟨rest, after, rfl, hsuffix⟩ :=
            exists_of_leaves_body (hs.feed hu) hscope h hleft
          refine ⟨c :: rest, after, rfl, ?_⟩
          rwa [hfound, push_append_ofList] at hsuffix

/-- Every part of every body that has been read was read somewhere. -/
structure BodiesRead (cs : List Char) (s : ScanState) : Prop where
  found : ∀ i f, s.found.reverse[i]? = some f → ∀ part rest, f.body.toList = part ++ rest →
    ∃ before, before <+: cs ∧ ReadsBody before i part
  current : ∀ d q, s.scope = .body d q → ∀ part rest, d.body.toList = part ++ rest →
    ∃ before, before <+: cs ∧ ReadsBody before s.found.length part

/-- One more character has been read. -/
theorem BodiesRead.feed {cs : List Char} (hs : s.Sound) (hread : feedAll {} cs = .ok s)
    (hb : BodiesRead cs s) (h : s.feed c = .ok t) : BodiesRead (cs ++ [c]) t := by
  have hread' : feedAll {} (cs ++ [c]) = .ok t :=
    feedAll_append hread (feedAll_singleton.trans h)
  have hlonger : ∀ {i part}, (∃ before, before <+: cs ∧ ReadsBody before i part) →
      ∃ before, before <+: cs ++ [c] ∧ ReadsBody before i part :=
    fun ⟨before, hbefore, hp⟩ => ⟨before, hbefore.trans (List.prefix_append cs [c]), hp⟩
  have hend : ∀ {d q}, t.scope = .body d q → ∀ {part}, d.body.toList = part →
      ∃ before, before <+: cs ++ [c] ∧ ReadsBody before t.found.length part :=
    fun hd _ hp => ⟨_, List.prefix_refl _, t, _, _, hread', rfl, hd, hp⟩
  rcases body_cases_of_feed hs h with ⟨hfound, -, hempty⟩ | ⟨e, q, he, hcases⟩
  · refine ⟨fun i f hf part rest hp => ?_, fun d q hd part rest hp => ?_⟩
    · rw [hfound] at hf
      exact hlonger (hb.found i f hf part rest hp)
    · rw [hempty d q hd, String.toList_empty] at hp
      obtain ⟨rfl, -⟩ := List.append_eq_nil_iff.1 hp.symm
      exact hend hd (by rw [hempty d q hd, String.toList_empty])
  · rcases hcases with ⟨-, hfound, hout⟩ | ⟨hfound, q', hscope⟩
    · refine ⟨fun i f hf part rest hp => ?_, fun d q hd => ?_⟩
      · rw [hfound, List.reverse_cons] at hf
        rcases lt_or_ge i s.found.reverse.length with hi | hi
        · rw [List.getElem?_append_left hi] at hf
          exact hlonger (hb.found i f hf part rest hp)
        · -- the function whose body has just been closed
          rw [List.getElem?_append_right hi, List.getElem?_singleton] at hf
          split_ifs at hf with hzero
          obtain rfl := Option.some.inj hf
          have hlength : i = s.found.length := by
            rw [List.length_reverse] at hi hzero
            omega
          rw [hlength]
          exact hlonger (hb.current e q he part rest hp)
      · rw [hout] at hd
        cases hd
    · refine ⟨fun i f hf part rest hp => ?_, fun d q hd part rest hp => ?_⟩
      · rw [hfound] at hf
        exact hlonger (hb.found i f hf part rest hp)
      · cases hscope.symm.trans hd
        rcases List.eq_nil_or_concat rest with rfl | ⟨rest', x, rfl⟩
        · exact hend hscope (by rw [hp, List.append_nil])
        · rw [String.toList_push, List.concat_eq_append, ← List.append_assoc] at hp
          rw [hfound]
          exact hlonger (hb.current e q he part rest' (List.append_inj' hp rfl).1)

theorem bodiesRead_of_feedAll {cs : List Char} : ∀ {s : ScanState}, feedAll {} cs = .ok s →
    BodiesRead cs s := by
  induction cs using List.reverseRecOn with
  | nil =>
    intro s h
    cases h
    exact ⟨by simp, by simp⟩
  | append_singleton cs c ih =>
    intro s h
    obtain ⟨u, hu, hc⟩ := exists_of_feedAll_append h
    rw [feedAll_singleton] at hc
    exact (ih hu).feed (sound_start.feedAll hu) hu hc

/-- The line breaks before a place in a body are those before its brace and those in the body. -/
theorem ReadsBody.lineBreaks_eq {before part : List Char} {i : Nat} (h : ReadsBody before i part) :
    ∃ s d q, feedAll {} before = .ok s ∧ s.found.length = i ∧ s.scope = .body d q
      ∧ d.body.toList = part ∧ '{' :: part <:+ before
      ∧ lineBreaks before = d.startLine + lineBreaks part := by
  obtain ⟨s, d, q, hs, hi, hscope, rfl⟩ := h
  obtain ⟨-, t, r, htext, -, hfrom⟩ := hasRead_of_feedAll hs
  rw [hscope] at hfrom
  obtain ⟨m, -, hline, rfl⟩ := hfrom
  refine ⟨s, d, q, hs, hi, hscope, rfl, ⟨t ++ m, by rw [htext, List.append_assoc]⟩, ?_⟩
  rw [htext, ← List.append_assoc, lineBreaks_append, lineBreaks_cons, hline]
  have hbrace : lineBreaks ['{'] = 0 := rfl
  omega

end ScanState

open ScanState

/-- The body of a function is around every place of it that a scan reads, and the line of its brace
is where that place is but for the line breaks of the body before it. -/
theorem place_of_readsBody {text : String} {fs : List ShaderFunction}
    (h : ShaderFunction.scan text = .ok fs) {i : Nat} {f : ShaderFunction} (hf : fs[i]? = some f)
    {before after part rest : List Char} (htext : joinCrLf text.toList = before ++ after)
    (hread : ReadsBody before i part) (hbody : f.body.toList = part ++ rest) :
    '{' :: part <:+ before ∧ rest ++ ['}'] <+: after
      ∧ f.startLine + lineBreaks part = lineBreaks before := by
  obtain ⟨t, ht, hfinish⟩ := exists_of_scan_eq_ok h
  obtain ⟨s, d, q, hs, hi, hscope, hpart, hsuffix, hlines⟩ := hread.lineBreaks_eq
  have hsound := sound_start.feedAll hs
  rw [htext, feedAll_append_of_ok hs] at ht
  have hleft : ∀ d q, t.scope ≠ .body d q := by
    intro e p he
    rw [finish, he] at hfinish
    cases hfinish
  obtain rfl := finish_eq_ok hfinish
  obtain ⟨rest', after', rfl, hfound⟩ := exists_of_leaves_body hsound hscope ht hleft
  obtain ⟨newer, hnewer⟩ := hfound
  have hfun : f = { d with body := d.body ++ String.ofList rest' }.finish := by
    rw [← hnewer, List.reverse_append, List.reverse_cons, List.append_assoc,
      List.getElem?_append_right (by simp [hi])] at hf
    simpa [hi, eq_comm] using hf
  subst hfun
  have hrest : rest' = rest := by
    have hbody' : (d.body ++ String.ofList rest').toList = part ++ rest := hbody
    rw [String.toList_append, String.toList_ofList, hpart] at hbody'
    exact List.append_cancel_left hbody'
  subst hrest
  refine ⟨hsuffix, ⟨after', by simp⟩, ?_⟩
  rw [hlines]
  rfl

theorem toString_natCast (n : Nat) : toString (n : Int) = toString n := rfl

/-- With accurate errors the code after the line directive is the body of the function with each
whole `return` replaced, line by line. Every place of the body is read somewhere in the source, and
wherever it is read, the number of the directive leads to the line of the source that it is on. -/
theorem lines_of_code {text : String} {fs : List ShaderFunction}
    (h : ShaderFunction.scan text = .ok fs) {i : Nat} {f : ShaderFunction} (hf : fs[i]? = some f)
    {context : GenerationContext} (hc : context.accurateErrors = true)
    (declarations tag : String) :
    ∃ (number : Nat) (code : String),
      Code.ofFunction f declarations tag context
        = "// START " ++ f.name ++ "\n\n" ++ declarations ++ "\n"
          ++ ("#line " ++ toString number ++ " \"" ++ Code.pathStart ++ context.sourceFile
            ++ Code.pathEnd ++ "\"\n" ++ code ++ "\n#line " ++ toString Code.trailingLine ++ " \""
            ++ Code.trailingHint context.libraryName ++ "\"")
          ++ "\n\n// END " ++ f.name ++ "\n\nreturn 0.f;\n//" ++ tag ++ "\n"
      ∧ lineBreaks code.toList = lineBreaks f.body.toList
      ∧ linesOf code.toList
        = (linesOf f.body.toList).map (replaceWord "return".toList "return 0.f".toList)
      ∧ ∀ part rest, f.body.toList = part ++ rest →
        (∃ before after, joinCrLf text.toList = before ++ after ∧ ReadsBody before i part)
        ∧ ∀ before after, joinCrLf text.toList = before ++ after → ReadsBody before i part →
          '{' :: part <:+ before ∧ rest ++ ['}'] <+: after
            ∧ number + lineBreaks part = 1 + lineBreaks before := by
  have hword : ∀ c ∈ "return".toList, isWord c = true := by decide
  have hzero : ∀ c ∈ "return 0.f".toList, isLineBreak c = false := by decide
  obtain ⟨n, hn⟩ := Int.eq_ofNat_of_zero_le
    (scanned_of_mem_scan h (List.mem_of_getElem? hf)).startLine
  refine ⟨n + 1, Code.returningZero f.body, ?_, ?_, ?_, fun part rest hbody => ⟨?_, ?_⟩⟩
  · have hnumber : toString (f.startLine + 1) = toString (n + 1) := by
      rw [hn, ← toString_natCast]
      rfl
    unfold Code.ofFunction Code.placed
    simp only [if_pos hc, hnumber]
  · rw [Code.toList_returningZero, lineBreaks_replaceWord hword hzero]
  · rw [Code.toList_returningZero, linesOf_replaceWord hword hzero]
  · obtain ⟨t, ht, hfinish⟩ := exists_of_scan_eq_ok h
    obtain rfl := finish_eq_ok hfinish
    obtain ⟨before, ⟨after, htext⟩, hread⟩ :=
      (bodiesRead_of_feedAll ht).found i f hf part rest hbody
    exact ⟨before, after, htext.symm, hread⟩
  · intro before after htext hread
    obtain ⟨hbefore, hafter, hline⟩ := place_of_readsBody h hf htext hread hbody
    refine ⟨hbefore, hafter, ?_⟩
    rw [hn] at hline
    omega

/-- The second of two functions, after a line end of two characters and arguments on two lines; the
error is at the last statement. -/
theorem lines_of_code_of_second_function :
    let text := "// return\r\nvoid F(out float R) \x7b R = 1; \x7d\r\nvoid G(float A,\n out float R)\n"
      ++ "\x7b if (A > 0) \x7b R = returned; return; \x7d\x0b  R = 0;\n\x7d"
    let f : ShaderFunction :=
      { startLine := 4, name := "G", arguments := ["float A", "\n out float R"]
        body := " if (A > 0) \x7b R = returned; return; \x7d\x0b  R = 0;\n" }
    let context : GenerationContext := { sourceFile := "lib.hlsl" }
    ∃ fs, ShaderFunction.scan text = .ok fs ∧ fs[1]? = some f ∧ context.accurateErrors = true
      ∧ ∃ (number : Nat) (code : String),
        linesOf code.toList = [" if (A > 0) \x7b R = returned; return 0.f; \x7d".toList,
          "  R = 0;".toList, []]
        ∧ ∃ before after, joinCrLf text.toList = before ++ after
          ∧ ReadsBody before 1 " if (A > 0) \x7b R = returned; return; \x7d\x0b  ".toList
          ∧ "R = 0;\n\x7d".toList <+: after ∧ number + 1 = 1 + lineBreaks before := by
  intro text f context
  have hscan : ∃ fs, ShaderFunction.scan text = .ok fs ∧ fs[1]? = some f := by
    refine ⟨[{ startLine := 1, comment := "// return\n", name := "F", arguments := ["out float R"]
               body := " R = 1; " }, f], ?_, rfl⟩
    decide +kernel
  obtain ⟨fs, h, hf⟩ := hscan
  have hc : context.accurateErrors = true := rfl
  obtain ⟨number, code, -, -, hlines, hplaces⟩ := lines_of_code h hf hc "" "TAG"
  obtain ⟨⟨before, after, htext, hread⟩, hplace⟩ := hplaces
    " if (A > 0) \x7b R = returned; return; \x7d\x0b  ".toList "R = 0;\n".toList (by decide)
  obtain ⟨-, hafter, hnumber⟩ := hplace before after htext hread
  refine ⟨fs, h, hf, hc, number, code, ?_, before, after, htext, hread, hafter, hnumber⟩
  rw [hlines]
  decide +kernel

end ShaderGraph
