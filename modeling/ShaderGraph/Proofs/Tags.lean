import Mathlib.Data.List.TakeWhile
import ShaderGraph.Pin.Tooltip
import ShaderGraph.Proofs.MetadataText
import ShaderGraph.Proofs.Occurrences
import ShaderGraph.Text.Lines

/-!
# Tags in comments

A tag that a tooltip is read from is written as an at sign and the letters of `param` in any case,
blanks or tabs, a name, and a text to the end of the line. What is read from a line is written so in
it (`exists_of_mem_tags`), and the tags of a comment are those of its lines, one after the other.
-/

namespace ShaderGraph

open Text

namespace Text

theorem not_boundary_of_mem_linesFrom {l : List Char} : ∀ {line cs : List Char},
    (∀ c ∈ line, isLineBoundary c = false) → l ∈ linesFrom line cs →
      ∀ c ∈ l, isLineBoundary c = false := by
  intro line cs hline hl
  have hdone {line : List Char} (hline : ∀ c ∈ line, isLineBoundary c = false) :
      ∀ c ∈ line.reverse, isLineBoundary c = false := fun c hc => hline c (List.mem_reverse.1 hc)
  fun_induction linesFrom line cs with
  | case1 line hempty => cases hl
  | case2 line hempty => exact List.mem_singleton.1 hl ▸ hdone hline
  | case3 line cs ih =>
    rcases List.mem_cons.1 hl with rfl | hl
    · exact hdone hline
    · exact ih (by simp) hl
  | case4 line c cs hcr hc ih =>
    rcases List.mem_cons.1 hl with rfl | hl
    · exact hdone hline
    · exact ih (by simp) hl
  | case5 line c cs hcr hc ih =>
    refine ih (fun d hd => ?_) hl
    rcases List.mem_cons.1 hd with rfl | hd
    · simpa using hc
    · exact hline d hd

theorem not_boundary_of_mem_splitLines {s line : String} (h : line ∈ splitLines s) :
    ∀ c ∈ line.toList, isLineBoundary c = false := by
  obtain ⟨l, hl, rfl⟩ := List.mem_map.1 h
  rw [String.toList_ofList]
  exact not_boundary_of_mem_linesFrom (by simp) hl

end Text

namespace Tooltip

/-- A tag as it is written in a line. -/
structure WrittenTag where
  /-- the letters after the at sign -/
  word : List Char
  /-- the blank or the tab behind them -/
  first : Char
  /-- more blanks and tabs -/
  gap : List Char
  name : List Char
  space : List Char
  text : List Char

namespace WrittenTag

/-- The tag itself. -/
def mark (t : WrittenTag) : List Char := '@' :: (t.word ++ [t.first])

/-- What a tag is written with, from its at sign to the end of the line. -/
def chars (t : WrittenTag) : List Char := t.mark ++ t.gap ++ t.name ++ (t.space ++ t.text)

/-- The name and the text behind it, without blanks at the end of the line. -/
def kept (t : WrittenTag) : List Char := t.name ++ dropTrailingBlanks (t.space ++ t.text)

structure WellFormed (t : WrittenTag) : Prop where
  word : t.word.map Char.toLower = "param".toList
  first : isGap t.first = true
  gap : ∀ c ∈ t.gap, isGap c = true
  name_ne : t.name ≠ []
  name : ∀ c ∈ t.name, isBlank c = false
  space : ∀ c ∈ t.space, isGap c = true

theorem WellFormed.length_word {t : WrittenTag} (h : t.WellFormed) : t.word.length = 5 := by
  have hlength := congrArg List.length h.word
  rwa [List.length_map] at hlength

theorem WellFormed.not_mem_word {t : WrittenTag} (h : t.WellFormed) {c : Char} (hc : c.toLower = c)
    (hparam : c ∉ "param".toList) : c ∉ t.word := by
  intro hmem
  have hlower := List.mem_map_of_mem (f := Char.toLower) hmem
  rw [h.word, hc] at hlower
  exact hparam hlower

end WrittenTag

theorem dropParam?_eq_some_iff {cs r : List Char} : dropParam? cs = some r ↔
    ∃ word, word.map Char.toLower = "param".toList ∧ cs = word ++ r := by
  have hfive : "param".toList.length = 5 := rfl
  constructor
  · intro h
    have hparts := dropLiteral?_eq_some_iff.1 h
    have hlength := congrArg List.length hparts
    rw [List.length_append, List.length_map, ← List.length_append, List.take_append_drop,
      List.length_append] at hlength
    have hword : ((cs.take 5).map Char.toLower).length = "param".toList.length := by
      rw [List.length_map, List.length_take, hfive]
      omega
    obtain ⟨hparam, hrest⟩ := List.append_inj hparts hword
    exact ⟨cs.take 5, hparam, by rw [← hrest, List.take_append_drop]⟩
  · rintro ⟨word, hword, rfl⟩
    have hlength : word.length = 5 := by
      rw [← List.length_map (f := Char.toLower), hword, hfive]
    refine dropLiteral?_eq_some_iff.2 ?_
    rw [List.take_left' hlength, List.drop_left' hlength, hword]

theorem exists_of_readTag? {cs : List Char} {tag : List Char × List Char} (hcs : '\n' ∉ cs)
    (h : readTag? cs = some tag) :
    ∃ t : WrittenTag, t.WellFormed ∧ cs = t.chars ∧ tag = (t.name, t.text) := by
  unfold readTag? at h
  split at h
  · rename_i ds
    split at h
    · rename_i c r hparam
      obtain ⟨word, hword, rfl⟩ := dropParam?_eq_some_iff.1 hparam
      simp only [] at h
      split_ifs at h with hc hname
      have hgap := List.takeWhile_append_dropWhile (p := isGap) (l := r)
      generalize hr : r.dropWhile isGap = s at h hgap hname
      have hs := List.takeWhile_append_dropWhile (p := fun c => !isBlank c) (l := s)
      generalize s.dropWhile (fun c => !isBlank c) = u at h hs
      have hu := List.takeWhile_append_dropWhile (p := isGap) (l := u)
      generalize hv : u.dropWhile isGap = v at h hu
      -- the line has no line feed, so the text is all that is left
      have hfeed : v.takeWhile (· != '\n') = v := by
        refine List.takeWhile_eq_self_iff.2 fun d hd => ?_
        have hmem : d ∈ '@' :: (word ++ c :: r) := by
          rw [← hgap, ← hs, ← hu]
          simp [hd]
        simpa using fun hfeed : d = '\n' => hcs (hfeed ▸ hmem)
      rw [hfeed, Option.some.injEq] at h
      refine ⟨⟨word, c, r.takeWhile isGap, s.takeWhile fun c => !isBlank c, u.takeWhile isGap, v⟩,
        ⟨hword, hc, fun d hd => List.mem_takeWhile_imp hd, by simpa using hname, fun d hd => ?_,
          fun d hd => List.mem_takeWhile_imp hd⟩, ?_, h.symm⟩
      · simpa using List.mem_takeWhile_imp hd
      · simp only [WrittenTag.chars, WrittenTag.mark, List.append_assoc, List.cons_append,
          List.nil_append, hu, hs, hgap]
    · cases h
  · cases h

theorem exists_of_mem_tags {tag : List Char × List Char} : ∀ {inLine : Bool} {cs : List Char},
    '\n' ∉ cs → tag ∈ tags inLine cs → ∃ before t, WrittenTag.WellFormed t ∧ cs = before ++ t.chars
      ∧ tag = (t.name, t.text)
  | _, [], _, h => by simp [tags] at h
  | true, c :: cs, hcs, h => by
    rw [tags, if_pos rfl] at h
    rw [List.mem_cons, not_or] at hcs
    obtain ⟨before, t, ht, rfl, htag⟩ := exists_of_mem_tags hcs.2 h
    exact ⟨c :: before, t, ht, rfl, htag⟩
  | false, c :: cs, hcs, h => by
    have hrest {inLine : Bool} (h : tag ∈ tags inLine cs) : ∃ before t, WrittenTag.WellFormed t
        ∧ c :: cs = before ++ t.chars ∧ tag = (t.name, t.text) := by
      rw [List.mem_cons, not_or] at hcs
      obtain ⟨before, t, ht, rfl, htag⟩ := exists_of_mem_tags hcs.2 h
      exact ⟨c :: before, t, ht, rfl, htag⟩
    simp only [tags, Bool.false_eq_true, if_false] at h
    split at h
    · rename_i tag' hread
      rcases List.mem_cons.1 h with rfl | h
      · obtain ⟨t, ht, hchars, htag⟩ := exists_of_readTag? hcs hread
        exact ⟨[], t, ht, hchars, htag⟩
      · exact hrest h
    · exact hrest h

/-! ## The tags of a comment, line by line -/

theorem dropParam?_append_lineFeed (l cs : List Char) :
    dropParam? (l ++ '\n' :: cs) = (dropParam? l).map (· ++ '\n' :: cs) := by
  cases h : dropParam? l with
  | some r =>
    obtain ⟨word, hword, rfl⟩ := dropParam?_eq_some_iff.1 h
    exact dropParam?_eq_some_iff.2 ⟨word, hword, List.append_assoc word r _⟩
  | none =>
    rw [Option.map_none, Option.eq_none_iff_forall_ne_some]
    intro r hr
    obtain ⟨word, hword, heq⟩ := dropParam?_eq_some_iff.1 hr
    have hfeed : '\n' ∉ word := by
      intro hmem
      have hlower := List.mem_map_of_mem (f := Char.toLower) hmem
      rw [hword] at hlower
      exact absurd hlower (by decide)
    obtain ⟨s, rfl⟩ := (prefix_append_cons_iff hfeed).1 ⟨r, heq.symm⟩
    rw [dropParam?_eq_some_iff.2 ⟨word, hword, rfl⟩] at h
    cases h

theorem readTag?_of_ne {c : Char} (hc : c ≠ '@') (cs : List Char) : readTag? (c :: cs) = none := by
  unfold readTag?
  split
  · rename_i heq
    exact absurd (List.cons.inj heq).1 hc
  · rfl

theorem readTag?_append_lineFeed (l cs : List Char) : readTag? (l ++ '\n' :: cs) = readTag? l := by
  have htake (p : Char → Bool) (hp : p '\n' = false) (a b : List Char) :
      (a ++ '\n' :: b).takeWhile p = a.takeWhile p := takeWhile_append_cons hp a b
  have hdrop (p : Char → Bool) (hp : p '\n' = false) (a b : List Char) :
      (a ++ '\n' :: b).dropWhile p = a.dropWhile p ++ '\n' :: b := dropWhile_append_cons hp a b
  cases l with
  | nil => rfl
  | cons c l =>
    by_cases hc : c = '@'
    · subst hc
      rw [List.cons_append, readTag?, readTag?, dropParam?_append_lineFeed]
      rcases dropParam? l with _ | _ | ⟨c, r⟩
      · rfl
      · rfl
      · simp only [Option.map_some, List.cons_append]
        rw [hdrop isGap rfl, htake (fun c => !isBlank c) rfl, hdrop (fun c => !isBlank c) rfl,
          hdrop isGap rfl, htake (· != '\n') rfl]
    · rw [List.cons_append, readTag?_of_ne hc, readTag?_of_ne hc]

theorem tags_append_lineFeed {l : List Char} (hl : '\n' ∉ l) (cs : List Char) (inLine : Bool) :
    tags inLine (l ++ '\n' :: cs) = tags inLine l ++ tags false cs := by
  induction l generalizing inLine with
  | nil => cases inLine <;> rfl
  | cons c l ih =>
    rw [List.mem_cons, not_or] at hl
    have hread := readTag?_append_lineFeed (c :: l) cs
    rw [List.cons_append] at hread ⊢
    cases inLine with
    | true =>
      have hc : (c != '\n') = true := by simpa using Ne.symm hl.1
      rw [tags, tags, if_pos rfl, if_pos rfl, ih hl.2]
    | false =>
      simp only [tags, Bool.false_eq_true, if_false, hread]
      rcases readTag? (c :: l) with _ | tag
      · exact ih hl.2 false
      · simp only [ih hl.2, List.cons_append]

theorem flatMap_tags_linesFrom : ∀ {line cs : List Char}, '\n' ∉ line →
    (∀ c ∈ cs, isLineBoundary c = true → c = '\n') →
      (linesFrom line cs).flatMap (tags false) = tags false (line.reverse ++ cs) := by
  intro line cs hline hcs
  fun_induction linesFrom line cs with
  | case1 line hempty =>
    rw [List.isEmpty_iff.1 hempty]
    rfl
  | case2 line hempty => simp
  | case3 line cs ih => exact absurd (hcs '\r' List.mem_cons_self rfl) (by decide)
  | case4 line c cs hcr hc ih =>
    obtain rfl := hcs c List.mem_cons_self hc
    rw [List.flatMap_cons, ih (by simp) fun d hd => hcs d (List.mem_cons_of_mem _ hd),
      tags_append_lineFeed (by simpa using hline)]
    rfl
  | case5 line c cs hcr hc ih =>
    have hne : c ≠ '\n' := by
      rintro rfl
      exact hc rfl
    rw [ih (by simp [hline, Ne.symm hne]) fun d hd => hcs d (List.mem_cons_of_mem _ hd)]
    simp

/-- The tags of a comment are those of its lines, if line feeds are all that ends them. -/
theorem tags_eq_flatMap {comment : String}
    (h : ∀ c ∈ comment.toList, isLineBoundary c = true → c = '\n') :
    tags false comment.toList = (splitLines comment).flatMap fun l => tags false l.toList := by
  have hlines : (linesFrom [] comment.toList).flatMap (tags false)
      = tags false ([].reverse ++ comment.toList) := flatMap_tags_linesFrom (by simp) h
  rw [splitLines, List.flatMap_map]
  simpa using hlines.symm

end Tooltip

end ShaderGraph
