import ShaderGraph.Proofs.Extended

/-!
# The end of the last line

A line break ends a comment or a directive, and what it finds open of a function it leaves open. So
a line feed at the end of a source tells only where the last line is a directive: a comment may end
with its source and a directive may not (`scan_append_lineFeed_iff`).
-/

namespace ShaderGraph

open Text

namespace ScanState

variable {n : Nat} {F : List ShaderFunction} {fs : List ShaderFunction} {s t : ScanState} {c : Char}

/-- A text breaks off in a line that `mark` has opened between functions, after these functions. -/
def BreaksOff (mark : Char) (cs : List Char) (fs : List ShaderFunction) : Prop :=
  ∃ above line p n, cs = above ++ mark :: line ∧ (∀ c ∈ line, isLineBreak c = false)
    ∧ feedAll {} above = .ok ⟨.outside p, n, fs.reverse⟩

/-! ## Lines that are open -/

theorem feedAll_openDirective {d : Draft} :
    ∀ {cs : List Char}, (∀ c ∈ cs, isLineBreak c = false) →
      feedAll ⟨.directive d, n, F⟩ cs = .ok ⟨.directive d, n, F⟩
  | [], _ => rfl
  | c :: cs, h => by
    have hl := h c List.mem_cons_self
    refine feedAll_of_taken (t := ⟨.directive d, n, F⟩) ?_
      (feedAll_openDirective fun b hb => h b (List.mem_cons_of_mem _ hb))
    simp [lookIn, lineBreaks_singleton, hl]

theorem feedAll_openComment :
    ∀ {cs : List Char} {d : Draft}, (∀ c ∈ cs, isLineBreak c = false) →
      feedAll ⟨.comment d, n, F⟩ cs
        = .ok ⟨.comment { d with comment := d.comment ++ String.ofList cs }, n, F⟩
  | [], d, _ => by
    rw [append_ofList_nil]
    rfl
  | c :: cs, d, h => by
    have hl := h c List.mem_cons_self
    rw [← push_append_ofList]
    refine feedAll_of_taken ?_ (feedAll_openComment (d := { d with comment := d.comment.push c })
      fun b hb => h b (List.mem_cons_of_mem _ hb))
    simp [lookIn, lineBreaks_singleton, hl]

/-- A directive is open from a hash sign between functions on. -/
theorem directive_cases_of_feed {d : Draft} (hs : s.Sound) (h : s.feed c = .ok t)
    (hd : t.scope = .directive d) :
    t.found = s.found
      ∧ (isLineBreak c = false ∧ s.scope = .directive d ∨ c = '#' ∧ ∃ p, s.scope = .outside p) := by
  cases step_of_feed hs.scope h with
  | @turn sc sc' n F hturn =>
    obtain rfl : sc' = .directive d := hd
    cases hturn with
    | openDirective hc => exact ⟨rfl, .inr ⟨hc, _, rfl⟩⟩
    | inDirective hl => exact ⟨rfl, .inl ⟨hl, rfl⟩⟩
  | close => cases hd

/-- A scan that ends in a directive has read all of its line. -/
theorem breaksOff_of_directive {d : Draft} {cs : List Char} :
    ∀ {s : ScanState}, feedAll {} cs = .ok s → s.scope = .directive d →
      BreaksOff '#' cs s.found.reverse := by
  induction cs using List.reverseRecOn with
  | nil =>
    intro s h hd
    cases h
    cases hd
  | append_singleton cs c ih =>
    intro s h hd
    obtain ⟨u, hu, hc⟩ := exists_of_feedAll_append h
    rw [feedAll_singleton] at hc
    obtain ⟨hfound, ⟨hl, hdir⟩ | ⟨rfl, p, hout⟩⟩ := directive_cases_of_feed (sound_start.feedAll hu) hc hd
    · obtain ⟨above, line, p, n, rfl, hline, habove⟩ := ih hu hdir
      rw [hfound]
      refine ⟨above, line ++ [c], p, n, ?_, ?_, habove⟩
      · rw [List.append_assoc, List.cons_append]
      · simpa [or_imp, forall_and] using ⟨hline, hl⟩
    · obtain ⟨sc, n, F⟩ := u
      obtain rfl : sc = .outside p := hout
      refine ⟨cs, [], p, n, rfl, by simp, ?_⟩
      rw [hfound, List.reverse_reverse]
      exact hu

theorem exists_directive_of_breaksOff {cs : List Char} (h : BreaksOff '#' cs fs) :
    ∃ d, feedAll {} cs = .ok ⟨.directive d, lineBreaks cs, fs.reverse⟩ ∧ d.name = "" := by
  obtain ⟨above, line, p, n, rfl, hline, habove⟩ := h
  have hread : feedAll ⟨.outside p, n, fs.reverse⟩ ('#' :: line)
      = .ok ⟨.directive (p.getD {}), n, fs.reverse⟩ := by
    rw [feedAll_opened (by decide) (by decide)]
    exact feedAll_openDirective (List.forall_mem_cons.2 ⟨by decide, hline⟩)
  have hall := feedAll_append habove hread
  refine ⟨p.getD {}, ?_, ?_⟩
  · have hn : n = lineBreaks (above ++ '#' :: line) := (hasRead_of_feedAll hall).line
    rw [← hn]
    exact hall
  · rw [(sound_start.feedAll hall).scope.2]

theorem exists_comment_of_breaksOff {cs : List Char} (h : BreaksOff '/' cs fs) :
    ∃ d n, feedAll {} cs = .ok ⟨.comment d, n, fs.reverse⟩ := by
  obtain ⟨above, line, p, n, rfl, hline, habove⟩ := h
  have hread := feedAll_openComment (n := n) (F := fs.reverse) (d := p.getD {})
    (List.forall_mem_cons.2 ⟨by decide, hline⟩ : ∀ c ∈ '/' :: line, isLineBreak c = false)
  have hopened : Scope.opened '/' (p.getD {}) = .comment (p.getD {}) := rfl
  rw [← hopened, ← feedAll_opened (by decide) (by decide)] at hread
  exact ⟨_, n, feedAll_append habove hread⟩

/-! ## A line break at the end -/

theorem exists_feed_lineBreak (s : ScanState) (hc : isLineBreak c = true) :
    ∃ t, s.feed c = .ok t := by
  have hb := isBlank_of_isLineBreak hc
  obtain ⟨sc, n, F⟩ := s
  have htaken : ∃ t, lookIn ⟨sc, n + lineBreaks [c], F⟩ c = .ok (.taken t) := by
    cases sc with
    | outside p => simp [lookIn, lookOutside, hc]
    | name d =>
      simp only [lookIn, hb, ↓reduceIte]
      split_ifs <;> simp
    | directive d | comment d | returnType d | arguments d q b | bodyStart d | body d q =>
      simp [lookIn, hb, hc]
  obtain ⟨t, ht⟩ := htaken
  exact ⟨t, by rw [feed, look, countLine_eq, ht]⟩

theorem finish_of_outside {p : Option Draft} (h : s.scope = .outside p) :
    s.finish = .ok s.found.reverse := by
  rw [finish, h]

theorem finish_ne_ok (h : s.scope.InFunction) : s.finish ≠ .ok fs := by
  unfold Scope.InFunction at h
  unfold finish
  split at h <;> simp_all

/-- With a line break more, a source that may end still may, with the same functions, and so may one
that is in a directive. -/
theorem finish_feed_lineBreak (hs : s.Sound) (hc : isLineBreak c = true) (h : s.feed c = .ok t) :
    t.finish = .ok fs ↔ s.finish = .ok fs
      ∨ (∃ d, s.scope = .directive d) ∧ s.found.reverse = fs := by
  obtain ⟨hfound, hcases⟩ := feed_lineBreak hs hc h
  rcases hcases with ⟨⟨p, hp⟩, ht⟩ | ⟨hline, p, ht⟩ | ⟨hin, hin'⟩
  · rw [finish_of_outside ht, finish_of_outside hp, hfound]
    simp [hp]
  · rw [finish_of_outside ht, hfound]
    cases hd : s.scope with
    | directive d => simp [finish, hd]
    | comment d => simp [finish, hd]
    | outside p | returnType d | name d | arguments d q b | bodyStart d | body d q =>
      rw [hd] at hline
      exact hline.elim
  · have hdir : ¬ ∃ d, s.scope = .directive d := by
      rintro ⟨d, hd⟩
      rw [hd] at hin
      exact hin
    simp [finish_ne_ok hin, finish_ne_ok hin', hdir]

/-- A text that may end with a line break more may end without it, or it is in a directive there. -/
theorem exists_finish_concat_iff (hc : isLineBreak c = true) {cs : List Char} :
    (∃ t, feedAll {} (cs ++ [c]) = .ok t ∧ t.finish = .ok fs)
      ↔ (∃ s, feedAll {} cs = .ok s ∧ s.finish = .ok fs) ∨ BreaksOff '#' cs fs := by
  constructor
  · rintro ⟨t, ht, hfs⟩
    obtain ⟨s, hs, hst⟩ := exists_of_feedAll_append ht
    rw [feedAll_singleton] at hst
    rcases (finish_feed_lineBreak (sound_start.feedAll hs) hc hst).1 hfs with hfs | ⟨⟨d, hd⟩, rfl⟩
    · exact .inl ⟨s, hs, hfs⟩
    · exact .inr (breaksOff_of_directive hs hd)
  · intro h
    have hends : ∃ s, feedAll {} cs = .ok s
        ∧ (s.finish = .ok fs ∨ (∃ d, s.scope = .directive d) ∧ s.found.reverse = fs) := by
      rcases h with ⟨s, hs, hfs⟩ | h
      · exact ⟨s, hs, .inl hfs⟩
      · obtain ⟨d, hd, -⟩ := exists_directive_of_breaksOff h
        exact ⟨_, hd, .inr ⟨⟨d, rfl⟩, List.reverse_reverse fs⟩⟩
    obtain ⟨s, hs, hfs⟩ := hends
    obtain ⟨t, hst⟩ := exists_feed_lineBreak s hc
    exact ⟨t, feedAll_append hs (feedAll_singleton.trans hst),
      (finish_feed_lineBreak (sound_start.feedAll hs) hc hst).2 hfs⟩

theorem not_breaksOff_concat (hc : isLineBreak c = true) (cs : List Char) :
    ¬ BreaksOff '#' (cs ++ [c]) fs := by
  rintro ⟨above, line, p, n, hcs, hline, -⟩
  have hmem : c ∈ '#' :: line := by
    have hlast := congrArg List.getLast? hcs
    rw [List.getLast?_concat, List.getLast?_append_cons] at hlast
    exact List.mem_of_getLast? hlast.symm
  have hmark : ∀ x ∈ '#' :: line, isLineBreak x = false :=
    List.forall_mem_cons.2 ⟨by decide, hline⟩
  rw [hmark c hmem] at hc
  cases hc

end ScanState

open ScanState

theorem scan_eq_ok_iff {text : String} {fs : List ShaderFunction} :
    ShaderFunction.scan text = .ok fs
      ↔ ∃ s, feedAll {} (joinCrLf text.toList) = .ok s ∧ s.finish = .ok fs := by
  refine ⟨exists_of_scan_eq_ok, fun ⟨s, hs, hfs⟩ => ?_⟩
  rw [ShaderFunction.scan, hs]
  exact hfs

/-- A text and a line feed are joined to what has been read of the text, a line break, and nothing
more: the line break is the line feed, or the line end that it completes. -/
theorem exists_joinCrLf_append_lineFeed (cs : List Char) :
    joinCrLf (cs ++ ['\n']) = joinCrLf cs ++ ['\n']
      ∨ ∃ as, joinCrLf cs = as ++ ['\r'] ∧ joinCrLf (cs ++ ['\n']) = as ++ ['\n'] := by
  by_cases hr : cs.getLast? = some '\r'
  · obtain ⟨as, rfl⟩ := List.getLast?_eq_some_iff.1 hr
    refine .inr ⟨joinCrLf as, joinCrLf_append (by simp), ?_⟩
    rw [List.append_assoc, joinCrLf_append (by simp)]
    rfl
  · exact .inl (joinCrLf_append fun h => absurd h hr)

/-- A source has functions with a line feed at its end if and only if it has the same ones without it,
unless it breaks off in a directive: then the line feed makes of an error the functions before the
directive. A comment that breaks off is dropped. -/
theorem scan_append_lineFeed_iff (text : String) (fs : List ShaderFunction) :
    (ShaderFunction.scan (text ++ "\n") = .ok fs
        ↔ ShaderFunction.scan text = .ok fs ∨ BreaksOff '#' (joinCrLf text.toList) fs)
      ∧ (BreaksOff '#' (joinCrLf text.toList) fs →
        ShaderFunction.scan text = .error ⟨.endOfText "", lineBreaks (joinCrLf text.toList) + 1⟩)
      ∧ (BreaksOff '/' (joinCrLf text.toList) fs → ShaderFunction.scan text = .ok fs) := by
  refine ⟨?_, fun h => ?_, fun h => ?_⟩
  · have hlineFeed : (text ++ "\n").toList = text.toList ++ ['\n'] := String.toList_append
    rw [scan_eq_ok_iff, scan_eq_ok_iff, hlineFeed]
    rcases exists_joinCrLf_append_lineFeed text.toList with heq | ⟨as, hreturn, heq⟩
    · rw [heq]
      exact exists_finish_concat_iff (by decide)
    · -- the line feed only completes a line end, of which the carriage return has ended the line
      rw [heq, hreturn, exists_finish_concat_iff (by decide), exists_finish_concat_iff (by decide),
        or_iff_left (not_breaksOff_concat (by decide) as)]
  · obtain ⟨d, hd, hname⟩ := exists_directive_of_breaksOff h
    rw [ShaderFunction.scan, hd, ← hname]
    rfl
  · obtain ⟨d, n, hd⟩ := exists_comment_of_breaksOff h
    rw [ShaderFunction.scan, hd]
    exact congrArg Except.ok (List.reverse_reverse fs)

theorem scan_append_lineFeed_iff_of_directive :
    let f : ShaderFunction := { startLine := 0, returnType := "void", name := "F" }
    BreaksOff '#' (joinCrLf "void F()\x7b\x7d\r\n// a\n#endif".toList) [f]
      ∧ ShaderFunction.scan "void F()\x7b\x7d\r\n// a\n#endif" = .error ⟨.endOfText "", 3⟩
      ∧ ShaderFunction.scan ("void F()\x7b\x7d\r\n// a\n#endif" ++ "\n") = .ok [f]
      ∧ BreaksOff '/' (joinCrLf "void F()\x7b\x7d\r\n// a\n// b".toList) [f]
      ∧ ShaderFunction.scan "void F()\x7b\x7d\r\n// a\n// b" = .ok [f]
      ∧ ShaderFunction.scan ("void F()\x7b\x7d\r\n// a\n// b" ++ "\n") = .ok [f] := by
  intro f
  have habove : feedAll {} (joinCrLf "void F()\x7b\x7d\r\n// a\n".toList)
      = .ok ⟨.outside (some { comment := "// a\n" }), 2, [f]⟩ := rfl
  have hdirective : joinCrLf "void F()\x7b\x7d\r\n// a\n#endif".toList
      = joinCrLf "void F()\x7b\x7d\r\n// a\n".toList ++ '#' :: "endif".toList := rfl
  have hcomment : joinCrLf "void F()\x7b\x7d\r\n// a\n// b".toList
      = joinCrLf "void F()\x7b\x7d\r\n// a\n".toList ++ '/' :: "/ b".toList := rfl
  have hlines : lineBreaks (joinCrLf "void F()\x7b\x7d\r\n// a\n#endif".toList) = 2 := rfl
  have hends : BreaksOff '#' (joinCrLf "void F()\x7b\x7d\r\n// a\n#endif".toList) [f] :=
    ⟨_, _, _, _, hdirective, by decide, habove⟩
  have hends' : BreaksOff '/' (joinCrLf "void F()\x7b\x7d\r\n// a\n// b".toList) [f] :=
    ⟨_, _, _, _, hcomment, by decide, habove⟩
  have herror := (scan_append_lineFeed_iff _ [f]).2.1 hends
  have hfunctions := (scan_append_lineFeed_iff _ [f]).2.2 hends'
  rw [hlines] at herror
  exact ⟨hends, herror, (scan_append_lineFeed_iff _ _).1.2 (.inr hends), hends', hfunctions,
    (scan_append_lineFeed_iff _ _).1.2 (.inl hfunctions)⟩

/-- A directive alone has no functions with a line feed behind it, and is an error without one. -/
theorem not_forall_scan_append_lineFeed :
    ShaderFunction.scan "#endif" = .error ⟨.endOfText "", 1⟩
      ∧ ShaderFunction.scan ("#endif" ++ "\n") = .ok []
      ∧ ¬ ∀ text : String, (∃ fs, ShaderFunction.scan text = .ok fs)
        ↔ ∃ fs, ShaderFunction.scan (text ++ "\n") = .ok fs := by
  have hwithout : ShaderFunction.scan "#endif" = .error ⟨.endOfText "", 1⟩ := rfl
  have hwith : ShaderFunction.scan ("#endif" ++ "\n") = .ok [] := rfl
  refine ⟨hwithout, hwith, fun h => ?_⟩
  obtain ⟨fs, hfs⟩ := (h "#endif").2 ⟨[], hwith⟩
  cases hwithout.symm.trans hfs

end ShaderGraph
