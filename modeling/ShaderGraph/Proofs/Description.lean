import ShaderGraph.Graph.Description
import ShaderGraph.Proofs.DefaultBlanks
import ShaderGraph.Proofs.Tags

/-!
# What a description keeps of a tag

A tooltip is read from a tag in any case of its letters, with blanks or tabs behind it, and a
description drops the tag that is written `@param` and has a blank behind it, wherever it stands. So
the description of a comment keeps every tag that is written otherwise. What a tag documents is kept
without the tags in it, and where the pieces around dropped tags spell a tag, that one is kept
(`Description.drops_tag_iff`).
-/

namespace ShaderGraph

open Text

/-! ## Texts between blanks -/

namespace Text

/-- A text that neither starts nor ends in a blank, and is not empty. -/
structure IsTrimmed (cs : List Char) : Prop where
  head : ∃ c r, cs = c :: r ∧ isBlank c = false
  last : ∃ r c, cs = r ++ [c] ∧ isBlank c = false

variable {u v z : List Char} {c : Char}

theorem dropBlanks_append_cons (hc : isBlank c = false) (u r : List Char) :
    dropBlanks (u ++ c :: r) = dropBlanks u ++ c :: r :=
  dropWhile_append_cons hc u r

theorem dropTrailingBlanks_concat_append (hc : isBlank c = false) (r v : List Char) :
    dropTrailingBlanks (r ++ [c] ++ v) = r ++ [c] ++ dropTrailingBlanks v := by
  have hreverse := dropWhile_append_cons hc v.reverse r.reverse
  have hlists : (r ++ [c] ++ v).reverse = v.reverse ++ c :: r.reverse := by simp
  rw [dropTrailingBlanks, hlists, hreverse, dropTrailingBlanks]
  simp

theorem dropTrailingBlanks_dropTrailingBlanks (v : List Char) :
    dropTrailingBlanks (dropTrailingBlanks v) = dropTrailingBlanks v := by
  have hback := dropBlanks_dropBlanks v.reverse
  simp only [dropBlanks] at hback
  simp [dropTrailingBlanks, hback]

/-- Of the text around a trimmed one only the ends are cut. -/
theorem IsTrimmed.trimChars_append (h : IsTrimmed z) (u v : List Char) :
    trimChars (u ++ (z ++ v)) = dropBlanks u ++ (z ++ dropTrailingBlanks v) := by
  obtain ⟨c, r, hz, hc⟩ := h.head
  obtain ⟨s, d, hz', hd⟩ := h.last
  have hfront : dropBlanks (u ++ (z ++ v)) = dropBlanks u ++ (z ++ v) := by
    rw [hz, List.cons_append, dropBlanks_append_cons hc]
  have hback := dropTrailingBlanks_concat_append hd (dropBlanks u ++ s) v
  rw [trimChars, hfront, hz']
  simpa using hback

theorem IsTrimmed.infix_trimChars (h : IsTrimmed z) (hz : z <:+: v) : z <:+: trimChars v := by
  obtain ⟨a, b, rfl⟩ := hz
  rw [List.append_assoc, h.trimChars_append]
  exact ⟨_, _, List.append_assoc ..⟩

theorem trimChars_isInfix (v : List Char) : trimChars v <:+: v := by
  obtain ⟨a, b, -, hv⟩ := exists_trimChars v
  exact ⟨a, b, hv.symm⟩

theorem isTrimmed_of_not_blank (hz : z ≠ []) (h : ∀ c ∈ z, isBlank c = false) : IsTrimmed z := by
  obtain ⟨c, r, rfl⟩ := List.exists_cons_of_ne_nil hz
  exact ⟨⟨c, r, rfl, h c List.mem_cons_self⟩,
    ⟨_, _, (List.dropLast_append_getLast hz).symm, h _ (List.getLast_mem hz)⟩⟩

theorem isTrimmed_trimChars (h : trimChars v ≠ []) : IsTrimmed (trimChars v) := by
  constructor
  · cases hv : dropBlanks v with
    | nil =>
      rw [trimChars, hv] at h
      exact absurd rfl h
    | cons c r =>
      have hc := not_blank_of_dropBlanks hv
      have hcut : dropTrailingBlanks (c :: r) = c :: dropTrailingBlanks r :=
        dropTrailingBlanks_concat_append hc [] r
      exact ⟨c, dropTrailingBlanks r, by rw [trimChars, hv, hcut], hc⟩
  · cases hv : dropBlanks (dropBlanks v).reverse with
    | nil =>
      rw [trimChars, dropTrailingBlanks] at h
      exact absurd (congrArg List.reverse hv) h
    | cons c r =>
      refine ⟨r.reverse, c, ?_, not_blank_of_dropBlanks hv⟩
      have hreverse := congrArg List.reverse hv
      rwa [List.reverse_cons] at hreverse

theorem isTrimmed_dropBlanks (h : ∃ r c, v = r ++ [c] ∧ isBlank c = false) :
    IsTrimmed (dropBlanks v) := by
  obtain ⟨r, c, rfl, hc⟩ := h
  have hcut := dropBlanks_append_cons hc r []
  refine ⟨?_, ⟨dropBlanks r, c, hcut, hc⟩⟩
  cases hv : dropBlanks (r ++ [c]) with
  | nil => exact absurd (hcut.symm.trans hv) (by simp)
  | cons d s => exact ⟨d, s, rfl, not_blank_of_dropBlanks hv⟩

end Text

namespace Description

variable {a b s w z : List Char} {c : Char} {after : Bool}

/-! ## Runs of spaces -/

theorem collapseSpaces_cons_of_ne (hc : c ≠ ' ') :
    collapseSpaces after (c :: s) = c :: collapseSpaces false s := by
  rw [collapseSpaces, if_neg hc]

theorem collapseSpaces_append (a b : List Char) (after : Bool) :
    collapseSpaces after (a ++ b)
      = collapseSpaces after a ++ collapseSpaces (a.foldl (fun _ c => c = ' ') after) b := by
  induction a generalizing after with
  | nil => rfl
  | cons c a ih =>
    by_cases hc : c = ' '
    · subst hc
      cases after <;> simp [collapseSpaces, ih]
    · simp [collapseSpaces, hc, ih]

theorem collapseSpaces_append_cons (hc : c ≠ ' ') (a b : List Char) :
    collapseSpaces after (a ++ c :: b) = collapseSpaces after a ++ c :: collapseSpaces false b := by
  rw [collapseSpaces_append, collapseSpaces_cons_of_ne hc]

theorem collapseSpaces_concat (ha : ' ' ∉ a) (c : Char) :
    collapseSpaces false (a ++ [c]) = a ++ [c] := by
  induction a with
  | nil => by_cases hc : c = ' ' <;> simp [collapseSpaces, hc]
  | cons d a ih =>
    rw [List.mem_cons, not_or] at ha
    rw [List.cons_append, collapseSpaces_cons_of_ne (Ne.symm ha.1), ih ha.2]

theorem ne_space_of_not_blank (hc : isBlank c = false) : c ≠ ' ' := by
  rintro rfl
  cases hc

theorem isTrimmed_collapseSpaces (hz : IsTrimmed z) : IsTrimmed (collapseSpaces after z) := by
  obtain ⟨c, r, hc, hcb⟩ := hz.head
  obtain ⟨s, d, hd, hdb⟩ := hz.last
  refine ⟨⟨c, collapseSpaces false r, ?_, hcb⟩, ⟨collapseSpaces after s, d, ?_, hdb⟩⟩
  · rw [hc, collapseSpaces_cons_of_ne (ne_space_of_not_blank hcb)]
  · rw [hd, collapseSpaces_append_cons (ne_space_of_not_blank hdb)]
    rfl

theorem infix_collapseSpaces (hz : IsTrimmed z) (h : z <:+: s) :
    collapseSpaces false z <:+: collapseSpaces after s := by
  obtain ⟨a, b, rfl⟩ := h
  obtain ⟨c, r, rfl, hc⟩ := hz.head
  have hc := ne_space_of_not_blank hc
  rw [List.append_assoc, List.cons_append, collapseSpaces_append_cons hc, collapseSpaces_append,
    collapseSpaces_cons_of_ne hc, ← List.cons_append, ← List.append_assoc]
  exact List.infix_append ..

/-- A word with a space behind it was there before the runs of spaces were made one. -/
theorem prefix_of_prefix_collapseSpaces (hw : ' ' ∉ w) :
    w ++ [' '] <+: collapseSpaces false s → w ++ [' '] <+: s := by
  induction w generalizing s with
  | nil =>
    intro h
    cases s with
    | nil => exact h
    | cons c s =>
      by_cases hc : c = ' '
      · simp [hc]
      · rw [collapseSpaces_cons_of_ne hc] at h
        exact absurd (List.cons_prefix_cons.1 h).1.symm hc
  | cons x w ih =>
    intro h
    rw [List.mem_cons, not_or] at hw
    cases s with
    | nil => exact h
    | cons c s =>
      by_cases hc : c = ' '
      · simp [collapseSpaces, hc, List.cons_prefix_cons, Ne.symm hw.1] at h
      · rw [collapseSpaces_cons_of_ne hc, List.cons_append, List.cons_prefix_cons] at h
        exact List.cons_prefix_cons.2 ⟨h.1, ih hw.2 h.2⟩

theorem infix_of_infix_collapseSpaces {x : Char} (hw : ' ' ∉ x :: w) :
    x :: w ++ [' '] <:+: collapseSpaces after s → x :: w ++ [' '] <:+: s := by
  induction s generalizing after with
  | nil => exact id
  | cons c s ih =>
    intro h
    have hx := (not_or.1 (List.mem_cons.not.1 hw))
    by_cases hc : c = ' '
    · subst hc
      cases after with
      | true => exact List.infix_cons (ih h)
      | false =>
        have hcons : collapseSpaces false (' ' :: s) = ' ' :: collapseSpaces true s := rfl
        rw [hcons, List.infix_cons_iff] at h
        rcases h with h | h
        · exact absurd (List.cons_prefix_cons.1 h).1.symm hx.1
        · exact List.infix_cons (ih h)
    · rw [collapseSpaces_cons_of_ne hc, List.infix_cons_iff] at h
      rcases h with h | h
      · rw [List.cons_append, List.cons_prefix_cons] at h
        exact (List.cons_prefix_cons.2 ⟨h.1, prefix_of_prefix_collapseSpaces hx.2 h.2⟩).isInfix
      · exact List.infix_cons (ih h)

/-! ## Dropping tags -/

theorem toList_plainLine (line : String) :
    (plainLine line).toList = trimChars ((trimChars line.toList).dropWhile (· = '/')) := by
  rw [plainLine, trim, String.toList_ofList, String.toList_ofList]

/-- The tag that is dropped. -/
def tag : List Char := "@param ".toList

/-- A text without its tags. -/
def dropTags (cs : List Char) : List Char := replaceChars tag [] cs

theorem dropTags_append_at (a b : List Char) :
    dropTags (a ++ '@' :: b) = dropTags a ++ dropTags ('@' :: b) :=
  replaceFrom_append_head (k := "param ".toList) (by decide) [] (Nat.zero_le _)

theorem dropTags_append_lineFeed (a b : List Char) :
    dropTags (a ++ '\n' :: b) = dropTags a ++ '\n' :: dropTags b :=
  replaceFrom_append_cons (by decide) (by decide) [] (Nat.zero_le _)

theorem dropTags_concat (hc : c ≠ ' ') (a : List Char) : dropTags (a ++ [c]) = dropTags a ++ [c] :=
  replaceFrom_concat (k := "@param".toList) hc [] (Nat.zero_le _)

theorem dropTags_append_of_not_mem (ha : '@' ∉ a) (b : List Char) :
    dropTags (a ++ b) = a ++ dropTags b :=
  replaceFrom_append_of_not_mem (k := "param ".toList) ha []

theorem dropTags_tag_append (b : List Char) : dropTags (tag ++ b) = dropTags b :=
  replaceFrom_append_self '@' "param ".toList [] b

theorem dropTags_eq_self (h : ¬tag <:+: s) : dropTags s = s := replaceFrom_eq_self h

/-- The last character of a trimmed text stays. -/
theorem exists_dropTags_eq (hz : IsTrimmed z) :
    ∃ r c, dropTags z = r ++ [c] ∧ isBlank c = false := by
  obtain ⟨r, c, rfl, hc⟩ := hz.last
  exact ⟨dropTags r, c, dropTags_concat (ne_space_of_not_blank hc) r, hc⟩

end Description

namespace Tooltip.WrittenTag

open Description

variable {t : WrittenTag} {before : List Char}

theorem WellFormed.not_mem_mark (h : t.WellFormed) : '@' ∉ t.word ++ [t.first] := by
  have hfirst : t.first ≠ '@' := fun heq => absurd (heq ▸ h.first) (by decide)
  rw [List.mem_append, List.mem_singleton, not_or]
  exact ⟨h.not_mem_word (by decide) (by decide), Ne.symm hfirst⟩

/-- A tag that is written in another way is kept. -/
theorem WellFormed.dropTags_mark_append (h : t.WellFormed) (r : List Char) :
    dropTags (t.mark ++ r) = (if t.mark = tag then [] else t.mark) ++ dropTags r := by
  split_ifs with htag
  · rw [htag, dropTags_tag_append, List.nil_append]
  · have hnot : ¬tag <+: t.mark ++ r := by
      intro hprefix
      have hlength : tag.length = t.mark.length := by
        rw [mark, List.length_cons, List.length_append, h.length_word]
        rfl
      have hboth := List.prefix_of_prefix_length_le hprefix (List.prefix_append t.mark r) hlength.le
      exact htag (hboth.eq_of_length hlength).symm
    have hstep : dropTags (t.mark ++ r) = '@' :: dropTags (t.word ++ [t.first] ++ r) :=
      replaceFrom_cons_of_not_prefix_cons hnot
    rw [hstep, dropTags_append_of_not_mem h.not_mem_mark, mark, List.cons_append]

theorem WellFormed.collapseSpaces_mark (h : t.WellFormed) :
    collapseSpaces false t.mark = t.mark := by
  have hspace : ' ' ∉ '@' :: t.word := by
    rw [List.mem_cons, not_or]
    exact ⟨by decide, h.not_mem_word (by decide) (by decide)⟩
  exact collapseSpaces_concat hspace t.first

theorem WellFormed.isTrimmed_name (h : t.WellFormed) : IsTrimmed t.name :=
  isTrimmed_of_not_blank h.name_ne h.name

theorem WellFormed.isTrimmed_kept (h : t.WellFormed) : IsTrimmed t.kept := by
  have hcut : trimChars (t.name ++ (t.space ++ t.text)) = t.kept :=
    h.isTrimmed_name.trimChars_append [] _
  rw [← hcut]
  refine isTrimmed_trimChars ?_
  rw [hcut, kept]
  exact List.append_ne_nil_of_left_ne_nil h.name_ne _

/-- What stands before a tag in a plain line. -/
def lead (before : List Char) : List Char := dropBlanks ((dropBlanks before).dropWhile (· = '/'))

theorem WellFormed.toList_plainLine (h : t.WellFormed) {line : String}
    (hline : line.toList = before ++ t.chars) :
    (plainLine line).toList = lead before ++ (t.mark ++ (t.gap ++ t.kept)) := by
  have hcore : IsTrimmed (t.mark ++ t.gap ++ t.name) := by
    obtain ⟨r, c, hname, hc⟩ := h.isTrimmed_name.last
    exact ⟨⟨'@', _, rfl, rfl⟩, ⟨t.mark ++ t.gap ++ r, c, by simp [hname], hc⟩⟩
  have hcut : trimChars line.toList = dropBlanks before
      ++ (t.mark ++ t.gap ++ t.name ++ dropTrailingBlanks (t.space ++ t.text)) := by
    rw [hline, chars, hcore.trimChars_append]
  have hslashes (r : List Char) :
      (dropBlanks before ++ (t.mark ++ t.gap ++ t.name ++ r)).dropWhile (· = '/')
        = (dropBlanks before).dropWhile (· = '/') ++ (t.mark ++ t.gap ++ t.name ++ r) :=
    dropWhile_append_cons (by decide) _ _
  rw [Description.toList_plainLine, hcut, hslashes, hcore.trimChars_append,
    dropTrailingBlanks_dropTrailingBlanks, lead, kept]
  simp only [List.append_assoc]

theorem WellFormed.dropTags_plainLine (h : t.WellFormed) {line : String}
    (hline : line.toList = before ++ t.chars) : dropTags (plainLine line).toList
      = dropTags (lead before)
        ++ ((if t.mark = tag then [] else t.mark) ++ (t.gap ++ dropTags t.kept)) := by
  have hgap : '@' ∉ t.gap := fun hmem => absurd (h.gap _ hmem) (by decide)
  rw [h.toList_plainLine hline, mark, List.cons_append, dropTags_append_at, ← List.cons_append,
    ← mark, h.dropTags_mark_append, dropTags_append_of_not_mem hgap]

theorem WellFormed.infix_dropTags_plainLine (h : t.WellFormed) {line : String}
    (hline : line.toList = before ++ t.chars) :
    dropTags t.kept <:+: dropTags (plainLine line).toList := by
  rw [h.dropTags_plainLine hline, ← List.append_assoc, ← List.append_assoc]
  exact (List.suffix_append ..).isInfix

end Tooltip.WrittenTag

namespace Description

open Tooltip

variable {comment line : String} {s z : List Char}

/-! ## The lines of a description -/

theorem toList_ofComment (comment : String) : (ofComment comment).toList
    = trimChars (['\n'].intercalate ((splitLines comment).map fun line =>
      collapseSpaces false (dropTags (plainLine line).toList))) := by
  have hlines : ("\n".intercalate ((splitLines comment).map plainLine)).toList
      = ['\n'].intercalate ((splitLines comment).map fun line => (plainLine line).toList) := by
    simp [List.map_map, Function.comp_def]
  have hdrop := map_intercalate (f := dropTags) rfl dropTags_append_lineFeed
    ((splitLines comment).map fun line => (plainLine line).toList)
  have hcollapse := map_intercalate (f := collapseSpaces false) rfl
    (collapseSpaces_append_cons (c := '\n') (by decide))
    (((splitLines comment).map fun line => (plainLine line).toList).map dropTags)
  have hreplace (s : String) : (replace s "@param " "").toList = dropTags s.toList := by
    rw [replace, String.toList_ofList]
    rfl
  simp only [ofComment, trim, String.toList_ofList, hreplace, hlines]
  rw [hdrop, hcollapse]
  simp only [List.map_map, Function.comp_def]

/-- What is left between blanks of a line without its tags is in the description. -/
theorem infix_ofComment (hline : line ∈ splitLines comment) (hz : IsTrimmed z)
    (h : z <:+: dropTags (plainLine line).toList) :
    collapseSpaces false z <:+: (ofComment comment).toList := by
  rw [toList_ofComment]
  refine (isTrimmed_collapseSpaces hz).infix_trimChars ?_
  exact (infix_collapseSpaces hz h).trans (infix_intercalate (List.mem_map_of_mem hline))

/-- What follows a tag in a text that does not end in a blank is no blank at its end either. -/
theorem exists_infix_tag_append (hs : ∃ r c, s = r ++ [c] ∧ isBlank c = false) (h : tag <:+: s) :
    ∃ v, IsTrimmed (tag ++ v) ∧ tag ++ v <:+: s := by
  obtain ⟨r, c, rfl, hc⟩ := hs
  obtain ⟨u, v, huv⟩ := h
  rcases List.eq_nil_or_concat v with rfl | ⟨v, d, rfl⟩
  · have htag : tag = "@param".toList ++ [' '] := rfl
    rw [List.append_nil, htag, ← List.append_assoc] at huv
    have hspace := (List.append_inj' huv rfl).2
    exact absurd (List.cons.inj hspace).1.symm (ne_space_of_not_blank hc)
  · rw [List.concat_eq_append] at huv
    have hlast : d = c := by
      rw [← List.append_assoc] at huv
      exact (List.cons.inj (List.append_inj' huv rfl).2).1
    have htrimmed : IsTrimmed (tag ++ (v ++ [d])) :=
      ⟨⟨'@', _, rfl, rfl⟩, ⟨tag ++ v, d, (List.append_assoc ..).symm, hlast ▸ hc⟩⟩
    refine ⟨v ++ [d], htrimmed, ?_⟩
    rw [← huv, List.append_assoc]
    exact (List.suffix_append ..).isInfix

theorem tag_infix_of_append {v : List Char} (h : collapseSpaces false (tag ++ v) <:+: s) :
    tag <:+: s := by
  rw [collapseSpaces_append] at h
  exact (List.prefix_append tag _).isInfix.trans h

/-- A tag is in the description if a line still has one without its tags. -/
theorem tag_infix_iff : tag <:+: (ofComment comment).toList
    ↔ ∃ line ∈ splitLines comment, tag <:+: dropTags (plainLine line).toList := by
  constructor
  · intro h
    rw [toList_ofComment] at h
    obtain ⟨l, hl, htag⟩ := exists_infix_of_intercalate (by decide) (by decide)
      (h.trans (trimChars_isInfix _))
    obtain ⟨line, hline, rfl⟩ := List.mem_map.1 hl
    exact ⟨line, hline, infix_of_infix_collapseSpaces (w := "param".toList) (by decide) htag⟩
  · rintro ⟨line, hline, htag⟩
    have hplain : IsTrimmed (plainLine line).toList := by
      rw [toList_plainLine]
      refine isTrimmed_trimChars fun hnil => ?_
      rw [toList_plainLine, hnil] at htag
      exact absurd htag (by decide)
    obtain ⟨v, hv, hinfix⟩ := exists_infix_tag_append (exists_dropTags_eq hplain) htag
    exact tag_infix_of_append (infix_ofComment hline hv hinfix)

/-! ## A tag and what it documents -/

section Tag

variable {t : WrittenTag} {before : List Char} (ht : t.WellFormed)
  (hline : line ∈ splitLines comment) (hchars : line.toList = before ++ t.chars)

include ht hline hchars

theorem infix_of_mark_ne (hmark : t.mark ≠ tag) : t.mark <:+: (ofComment comment).toList := by
  obtain ⟨r, c, hr, hc⟩ := exists_dropTags_eq ht.isTrimmed_kept
  have hz : IsTrimmed (t.mark ++ (t.gap ++ dropTags t.kept)) :=
    ⟨⟨'@', _, rfl, rfl⟩, ⟨t.mark ++ (t.gap ++ r), c, by simp [hr], hc⟩⟩
  have hinfix := infix_ofComment hline hz (by
    rw [ht.dropTags_plainLine hchars, if_neg hmark]
    exact (List.suffix_append ..).isInfix)
  rw [collapseSpaces_append, ht.collapseSpaces_mark] at hinfix
  exact (List.prefix_append t.mark _).isInfix.trans hinfix

theorem infix_dropTags_kept :
    collapseSpaces false (dropBlanks (dropTags t.kept)) <:+: (ofComment comment).toList :=
  infix_ofComment hline (isTrimmed_dropBlanks (exists_dropTags_eq ht.isTrimmed_kept))
    ((List.dropWhile_suffix _).isInfix.trans (ht.infix_dropTags_plainLine hchars))

theorem kept_infix_iff (hnone : ¬tag <:+: (ofComment comment).toList) :
    collapseSpaces false t.kept <:+: (ofComment comment).toList ↔ ¬tag <:+: t.kept := by
  constructor
  · intro h htag
    obtain ⟨v, hv, hinfix⟩ := exists_infix_tag_append ht.isTrimmed_kept.last htag
    exact hnone (tag_infix_of_append ((infix_collapseSpaces hv hinfix).trans h))
  · intro h
    have hkept := ht.infix_dropTags_plainLine hchars
    rw [dropTags_eq_self h] at hkept
    exact infix_ofComment hline ht.isTrimmed_kept hkept

end Tag

/-- The description drops the tag and keeps what it documents, if it is written `@param` with a
blank behind it, holds no other tag, and if no line spells a tag around a dropped one. Otherwise,
too, it keeps what is documented without the tags in it. -/
theorem drops_tag_iff (hline : line ∈ splitLines comment) :
    ((∀ c ∈ comment.toList, isLineBoundary c = true → c = '\n') →
      tags false comment.toList = (splitLines comment).flatMap fun l => tags false l.toList)
    ∧ (∀ read ∈ tags false line.toList, ∃ before t, WrittenTag.WellFormed t
      ∧ line.toList = before ++ t.chars ∧ read = (t.name, t.text))
    ∧ ∀ before t, WrittenTag.WellFormed t → line.toList = before ++ t.chars →
      collapseSpaces false (dropBlanks (dropTags t.kept)) <:+: (ofComment comment).toList
      ∧ (¬t.mark <:+: (ofComment comment).toList
          ∧ collapseSpaces false t.kept <:+: (ofComment comment).toList
        ↔ t.mark = tag ∧ ¬tag <:+: t.kept
          ∧ ∀ l ∈ splitLines comment, ¬tag <:+: dropTags (plainLine l).toList) := by
  refine ⟨tags_eq_flatMap, fun read hread => ?_, fun before t ht hchars => ?_⟩
  · have hfeed : '\n' ∉ line.toList := fun hmem =>
      absurd (not_boundary_of_mem_splitLines hline _ hmem) (by decide)
    exact exists_of_mem_tags hfeed hread
  refine ⟨infix_dropTags_kept ht hline hchars, ?_⟩
  by_cases hmark : t.mark = tag
  · have hnone : ¬tag <:+: (ofComment comment).toList
        ↔ ∀ l ∈ splitLines comment, ¬tag <:+: dropTags (plainLine l).toList := by
      rw [tag_infix_iff]
      push Not
      rfl
    rw [← hnone, hmark]
    constructor
    · rintro ⟨hmark, hkept⟩
      exact ⟨rfl, (kept_infix_iff ht hline hchars hmark).1 hkept, hmark⟩
    · rintro ⟨-, hkept, hmark⟩
      exact ⟨hmark, (kept_infix_iff ht hline hchars hmark).2 hkept⟩
  · exact ⟨fun h => absurd (infix_of_mark_ne ht hline hchars hmark) h.1, fun h => absurd h.1 hmark⟩

end Description

namespace CapitalTag

open Description Tooltip

/-- The second line has its tag in the letters that a description looks for. -/
def comment : String := "// @Param x the value\n// @param y  and more\n"

def capital : WrittenTag := ⟨"Param".toList, ' ', [], ['x'], [' '], "the value".toList⟩

def lower : WrittenTag := ⟨"param".toList, ' ', [], ['y'], "  ".toList, "and more".toList⟩

theorem capital_wellFormed : capital.WellFormed := by
  constructor <;> decide

theorem lower_wellFormed : lower.WellFormed := by
  constructor <;> decide

theorem splitLines_comment :
    splitLines comment = ["// @Param x the value", "// @param y  and more"] := by decide +kernel

theorem drops_tag_iff_of_lower :
    "// @param y  and more" ∈ splitLines comment
    ∧ tags false comment.toList = (splitLines comment).flatMap (fun l => tags false l.toList)
    ∧ ¬lower.mark <:+: (ofComment comment).toList
    ∧ collapseSpaces false lower.kept <:+: (ofComment comment).toList := by
  have hline : "// @param y  and more" ∈ splitLines comment := by simp [splitLines_comment]
  obtain ⟨hlines, -, hdrops⟩ := drops_tag_iff hline
  refine ⟨hline, hlines (by decide +kernel), ?_⟩
  refine (hdrops "// ".toList lower lower_wellFormed (by decide)).2.2 ⟨rfl, by decide, ?_⟩
  rw [splitLines_comment]
  decide +kernel

/-- Not every tag that a tooltip is read from is dropped. -/
theorem not_forall_dropped : ¬∀ comment line : String, line ∈ splitLines comment →
    ∀ before t, WrittenTag.WellFormed t → line.toList = before ++ t.chars →
      (t.name, t.text) ∈ tags false line.toList →
        ¬t.mark <:+: (ofComment comment).toList
        ∧ collapseSpaces false t.kept <:+: (ofComment comment).toList := by
  intro h
  have hline : "// @Param x the value" ∈ splitLines comment := by simp [splitLines_comment]
  have hdropped := h comment _ hline "// ".toList capital capital_wellFormed (by decide)
    (by decide +kernel)
  exact hdropped.1 (by decide +kernel)

end CapitalTag

end ShaderGraph
