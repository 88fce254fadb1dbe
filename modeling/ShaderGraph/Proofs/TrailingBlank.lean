import ShaderGraph.Proofs.ArgumentGrammar
import ShaderGraph.Proofs.Fingerprint

/-!
# A blank behind an argument

A blank behind an argument belongs to its default value, to the blanks after its name, or to those
after its type. So it changes what can be read in two cases only: after the sign of a default value
that is missing, which the blank then is, and after a type without a name, which is then empty. The
second reading hides those that end the metadata at an earlier bracket, although an argument without
a name is refused.
-/

namespace ShaderGraph

open Text

namespace WrittenPin

variable {p : WrittenPin} {t : List Char} {c : Char}

/-- What follows the metadata up to the type and its template. -/
def heading (p : WrittenPin) : List Char :=
  p.afterMetadata ++ (p.qualifier.word ++ (p.afterQualifier ++ (p.typeName ++ p.templateText)))

theorem lead_eq (p : WrittenPin) : p.lead = p.heading ++ (p.afterType ++ (p.name ++ p.afterName)) := by
  simp [lead, heading]

theorem Fits.not_mem_heading (h : p.Fits) {c : Char} (hc : c ∈ ['=', '[', ']']) : c ∉ p.heading :=
  fun hmem => h.not_mem_lead hc (p.lead_eq ▸ List.mem_append_left _ hmem)

/-- Another end behind the same type. -/
theorem Fits.ended (h : p.Fits) {g n a : List Char} {e : Option (List Char)}
    (hg : ∀ c ∈ g, isBlank c = true) (hne : g ≠ []) (hn : ∀ c ∈ n, isWord c = true)
    (ha : ∀ c ∈ a, isBlank c = true) (he : ∀ d ∈ e, d ≠ []) :
    { p with afterType := g, name := n, afterName := a, default := e : WrittenPin }.Fits where
  blanks c hc := by
    have hblanks := h.blanks c
    simp only [List.mem_append] at hc hblanks
    rcases hc with ((hc | hc) | hc) | hc
    · exact hblanks (.inl (.inl (.inl hc)))
    · exact hblanks (.inl (.inl (.inr hc)))
    · exact hg c hc
    · exact ha c hc
  afterQualifier := h.afterQualifier
  typeName := h.typeName
  template := h.template
  afterType := hne
  name := hn
  default := he

theorem rest_of_none (hnone : p.default = none) : p.rest = p.lead := by
  rw [rest_eq, defaultText, hnone, List.append_nil]

theorem Fits.sign_not_mem_rest (h : p.Fits) (hnone : p.default = none) : '=' ∉ p.rest := by
  rw [rest_of_none hnone]
  exact h.not_mem_lead (by simp)

theorem rest_of_some {d : List Char} (hd : p.default = some d) : p.rest = p.lead ++ '=' :: d := by
  rw [rest_eq, defaultText, hd]

theorem trimChars_blank (hc : isBlank c = true) (d : List Char) :
    trimChars (d ++ [c]) = trimChars d := by
  have hblank : ∀ e ∈ [c], isBlank e = true := by simpa using hc
  exact trimChars_blanks (a := []) (by simp) hblank d

/-- A blank more is read as nothing. -/
theorem Fits.exists_append (h : p.Fits) (hc : isBlank c = true) : ∃ p' : WrittenPin,
    p'.Fits ∧ p'.rest = p.rest ++ [c] ∧ p'.spelling = p.spelling := by
  cases hd : p.default with
  | none =>
    have ha : ∀ e ∈ p.afterName ++ [c], isBlank e = true :=
      List.forall_mem_append.2 ⟨h.afterName_blank, by simpa using hc⟩
    refine ⟨_, h.ended (e := none) h.afterType_blank h.afterType h.name ha (by simp), ?_, ?_⟩
    · rw [rest_of_none rfl, rest_of_none hd, lead_eq, lead_eq]
      simp [heading, templateText]
    · simp [spelling, hd]
  | some d =>
    refine ⟨_, h.ended (e := some (d ++ [c])) h.afterType_blank h.afterType h.name h.afterName_blank
      (by simp), ?_, ?_⟩
    · rw [rest_of_some rfl, rest_of_some hd]
      simp [lead, templateText]
    · simp [spelling, hd, trimChars_blank hc]

/-- A blank is read as a missing default value. -/
theorem Fits.exists_sign (h : p.Fits) (hnone : p.default = none) (hc : isBlank c = true) :
    ∃ p' : WrittenPin, p'.Fits ∧ p'.rest = p.rest ++ ['='] ++ [c] ∧ p'.spelling = p.spelling := by
  have htrim : trimChars [c] = [] := trimChars_blank hc []
  refine ⟨_, h.ended (e := some [c]) h.afterType_blank h.afterType h.name h.afterName_blank
    (by simp), ?_, ?_⟩
  · rw [rest_of_some rfl, rest_of_none hnone]
    simp [lead, templateText]
  · simp [spelling, hnone, htrim]

/-- A blank is read as what stands before a missing name. -/
theorem Fits.exists_heading (h : p.Fits) (hc : isBlank c = true) :
    ∃ p' : WrittenPin, p'.Fits ∧ p'.rest = p.heading ++ [c] := by
  refine ⟨_, h.ended (g := [c]) (n := []) (a := []) (e := none) (by simpa using hc) (by simp)
    (by simp) (by simp) (by simp), ?_⟩
  rw [rest_of_none rfl, lead_eq]
  simp [heading, templateText]

/-- Without the blank behind it an argument is read the same, or it ends in a sign, or before a
missing name. -/
theorem Fits.cut_cases (h : p.Fits) (hc : isBlank c = true) (ht : p.rest = t ++ [c]) :
    (∃ p' : WrittenPin, p'.Fits ∧ p'.rest = t ∧ p'.spelling = p.spelling)
      ∨ (∃ p' : WrittenPin, p'.Fits ∧ p'.default = none ∧ t = p'.rest ++ ['=']
        ∧ p'.spelling = p.spelling)
      ∨ t = p.heading ∧ p.name = [] := by
  have htrim : trimChars [c] = [] := trimChars_blank hc []
  cases hd : p.default with
  | some d =>
    rw [rest_of_some hd] at ht
    obtain ⟨d, e, rfl⟩ := d.eq_nil_or_concat'.resolve_left (h.default d hd)
    rw [← List.cons_append, ← List.append_assoc] at ht
    obtain ⟨rfl, he⟩ := List.append_inj' ht rfl
    obtain rfl : e = c := by simpa using he
    by_cases hnil : d = []
    · subst hnil
      refine .inr (.inl ⟨_, h.ended (e := none) h.afterType_blank h.afterType h.name
        h.afterName_blank (by simp), rfl, ?_, ?_⟩)
      · rw [rest_of_none rfl]
        simp [lead, templateText]
      · simp [spelling, hd, htrim]
    · refine .inl ⟨_, h.ended (e := some d) h.afterType_blank h.afterType h.name
        h.afterName_blank (by simpa using hnil), ?_, ?_⟩
      · rw [rest_of_some rfl]
        simp [lead, templateText]
      · simp [spelling, hd, trimChars_blank hc]
  | none =>
    rw [rest_of_none hd, lead_eq] at ht
    rcases p.afterName.eq_nil_or_concat' with ha | ⟨a, e, ha⟩
    · rcases p.name.eq_nil_or_concat' with hn | ⟨n, e, hn⟩
      · obtain ⟨g, e, hg⟩ := p.afterType.eq_nil_or_concat'.resolve_left h.afterType
        rw [ha, hn, List.append_nil, List.append_nil, hg, ← List.append_assoc] at ht
        obtain ⟨rfl, -⟩ := List.append_inj' ht rfl
        by_cases hnil : g = []
        · exact .inr (.inr ⟨by rw [hnil, List.append_nil], hn⟩)
        · have hblank : ∀ c ∈ g, isBlank c = true := fun c hc =>
            h.afterType_blank c (by simp [hg, hc])
          refine .inl ⟨_, h.ended (n := []) (a := []) (e := none) hblank hnil (by simp) (by simp)
            (by simp), ?_, ?_⟩
          · rw [rest_of_none rfl, lead_eq]
            simp [heading, templateText]
          · simp [spelling, hd, hn]
      · -- the blank is no part of the name
        rw [ha, hn, List.append_nil, ← List.append_assoc, ← List.append_assoc] at ht
        obtain ⟨-, he⟩ := List.append_inj' ht rfl
        obtain rfl : e = c := by simpa using he
        have hword := h.name e (by simp [hn])
        rw [not_isWord_of_isBlank hc] at hword
        cases hword
    · rw [ha, ← List.append_assoc, ← List.append_assoc, ← List.append_assoc] at ht
      obtain ⟨rfl, -⟩ := List.append_inj' ht rfl
      have hblank : ∀ c ∈ a, isBlank c = true := fun c hc =>
        h.afterName_blank c (by simp [ha, hc])
      refine .inl ⟨_, h.ended (a := a) (e := none) h.afterType_blank h.afterType h.name hblank
        (by simp), ?_, ?_⟩
      · rw [rest_of_none rfl, lead_eq]
        simp [heading, templateText]
      · simp [spelling, hd]

theorem fits_of_word {a w g : List Char} (ha : ∀ c ∈ a, isBlank c = true)
    (hw : ∀ c ∈ w, isWord c = true) (hg : ∀ c ∈ g, isBlank c = true) (hne : g ≠ []) :
    { afterMetadata := a, typeName := w, afterType := g, name := [] : WrittenPin }.Fits where
  blanks c hc := by
    simp only [List.append_nil, List.mem_append] at hc
    exact hc.elim (ha c) (hg c)
  afterQualifier := by simp
  typeName := hw
  template := by simp
  afterType := hne
  name := by simp
  default := by simp

/-- Blanks at the end of a heading stand behind a qualifier, which then is the type, or there is
nothing else. -/
theorem Fits.isSome_of_heading (h : p.Fits) (hc : isBlank c = true) (ht : p.heading = t ++ [c]) :
    (Spelling.readQualified? p.heading).isSome = true := by
  have hlast {u : List Char} {e : Char} (hu : p.heading = u ++ [e]) : isBlank e = true := by
    obtain ⟨-, he⟩ := List.append_inj' (hu.symm.trans ht) rfl
    obtain rfl : e = c := by simpa using he
    exact hc
  have hword (w g : List Char) (hw : ∀ c ∈ w, isWord c = true) (hg : ∀ c ∈ g, isBlank c = true)
      (hne : g ≠ []) (a : List Char) (ha : ∀ c ∈ a, isBlank c = true)
      (hheading : p.heading = a ++ (w ++ g)) : (Spelling.readQualified? p.heading).isSome = true := by
    have hsome := Spelling.isSome_readQualified? (fits_of_word ha hw hg hne)
    simpa [rest, typed, Qualifier.word, templateText, defaultText, hheading] using hsome
  have hblanks := h.blanks
  simp only [List.forall_mem_append] at hblanks
  obtain ⟨⟨⟨hmetadata, hqualifier⟩, -⟩, -⟩ := hblanks
  cases htemplate : p.template with
  | some x =>
    have hclose := hlast (u := p.afterMetadata ++ (p.qualifier.word ++ (p.afterQualifier
      ++ (p.typeName ++ (x.1 ++ '<' :: x.2))))) (e := '>') (by simp [heading, templateText, htemplate])
    exact absurd hclose (by decide)
  | none =>
    rcases p.typeName.eq_nil_or_concat' with htype | ⟨w, e, htype⟩
    · have hheading : p.heading = p.afterMetadata ++ (p.qualifier.word ++ p.afterQualifier) := by
        simp [heading, templateText, htemplate, htype]
      cases hq : p.qualifier with
      | plain =>
        rw [hq] at hheading
        refine hword [] (p.afterMetadata ++ p.afterQualifier) (by simp)
          (List.forall_mem_append.2 ⟨hmetadata, hqualifier⟩) (fun hnil => ?_) [] (by simp) hheading
        rw [hheading, Qualifier.word, List.nil_append, hnil] at ht
        simp at ht
      | const =>
        rw [hq] at hheading
        exact hword _ _ (by decide) hqualifier (h.afterQualifier (by simp [hq])) _ hmetadata hheading
      | output =>
        rw [hq] at hheading
        exact hword _ _ (by decide) hqualifier (h.afterQualifier (by simp [hq])) _ hmetadata hheading
    · have hblank := hlast (u := p.afterMetadata ++ (p.qualifier.word ++ (p.afterQualifier ++ w)))
        (e := e) (by simp [heading, templateText, htemplate, htype])
      have hword := h.typeName e (by simp [htype])
      rw [not_isWord_of_isBlank hblank] at hword
      cases hword

end WrittenPin

namespace Spelling

open WrittenPin

variable {t cs : List Char} {c : Char} {s : Spelling}

/-- A spelling with a type and a name. -/
structure Proper (s : Spelling) : Prop where
  type : s.typeName ∉ otherWords
  name : s.name ≠ []

/-- An argument up to the sign of its default value. -/
def Signed (t : List Char) : Prop :=
  ∃ u, '=' ∉ u ∧ t = u ++ ['='] ∧ (readQualified? u).isSome = true

/-- An argument up to the blanks before its name, if it is not read otherwise. -/
def Headed (t : List Char) : Prop :=
  ∃ p : WrittenPin, p.Fits ∧ t = p.heading ∧ readQualified? t = none

theorem default_eq_none {p : WrittenPin} (h : '=' ∉ p.rest) : p.default = none := by
  cases hd : p.default with
  | none => rfl
  | some d =>
    rw [rest_of_some hd] at h
    simp at h

theorem readQualified?_of_signed (h : Signed t) : readQualified? t = none := by
  obtain ⟨u, hu, rfl, -⟩ := h
  by_contra hread
  obtain ⟨p, hp, hrest⟩ := isSome_readQualified?_iff.1 (Option.isSome_iff_ne_none.2 hread)
  have hsign := hp.not_mem_lead (c := '=') (by simp)
  cases hd : p.default with
  | none =>
    rw [rest_of_none hd] at hrest
    rw [hrest] at hsign
    simp at hsign
  | some d =>
    rw [rest_of_some hd] at hrest
    obtain ⟨-, hnil⟩ := append_cons_inj_of_not_mem hsign hu hrest
    exact hp.default d hd hnil

/-- Neither has square brackets. -/
theorem Signed.not_mem (h : Signed t) (hc : c ∈ ['[', ']']) : c ∉ t := by
  obtain ⟨u, hu, rfl, hsome⟩ := h
  obtain ⟨p, hp, rfl⟩ := isSome_readQualified?_iff.1 hsome
  rw [rest_of_none (default_eq_none hu)]
  have hlead := hp.not_mem_lead (List.mem_cons_of_mem _ hc)
  have hsign : c ≠ '=' := by
    rintro rfl
    simp at hc
  simp [hlead, hsign]

theorem Headed.not_mem (h : Headed t) (hc : c ∈ ['[', ']']) : c ∉ t := by
  obtain ⟨p, hp, rfl, -⟩ := h
  exact hp.not_mem_heading (List.mem_cons_of_mem _ hc)

theorem isSome_readQualified?_append_iff (hc : isBlank c = true) :
    (readQualified? (t ++ [c])).isSome = true
      ↔ (readQualified? t).isSome = true ∨ Signed t ∨ Headed t := by
  constructor
  · intro h
    obtain ⟨p, hp, hrest⟩ := isSome_readQualified?_iff.1 h
    rcases hp.cut_cases hc hrest with ⟨p', hp', rfl, -⟩ | ⟨p', hp', hnone, rfl, -⟩ | ⟨rfl, -⟩
    · exact .inl (isSome_readQualified? hp')
    · exact .inr (.inl ⟨_, hp'.sign_not_mem_rest hnone, rfl, isSome_readQualified? hp'⟩)
    · cases hread : readQualified? p.heading with
      | none => exact .inr (.inr ⟨p, hp, rfl, hread⟩)
      | some s => exact .inl rfl
  · rintro (h | ⟨u, hu, rfl, h⟩ | ⟨p, hp, rfl, -⟩)
    · obtain ⟨p, hp, rfl⟩ := isSome_readQualified?_iff.1 h
      obtain ⟨p', hp', hrest, -⟩ := hp.exists_append hc
      exact hrest ▸ isSome_readQualified? hp'
    · obtain ⟨p, hp, rfl⟩ := isSome_readQualified?_iff.1 h
      obtain ⟨p', hp', hrest, -⟩ := hp.exists_sign (default_eq_none hu) hc
      exact hrest ▸ isSome_readQualified? hp'
    · obtain ⟨p', hp', hrest⟩ := hp.exists_heading hc
      exact hrest ▸ isSome_readQualified? hp'

/-- A spelling with a type and a name is read in front of a blank too, and with a sign before it. -/
theorem readQualified?_append_iff (hs : s.Proper) (hc : isBlank c = true) :
    readQualified? (t ++ [c]) = some s ↔ readQualified? t = some s
      ∨ ∃ u, '=' ∉ u ∧ t = u ++ ['='] ∧ readQualified? u = some s := by
  have hread (cs : List Char) : readQualified? cs = some s
      ↔ ∃ p : WrittenPin, p.Fits ∧ p.rest = cs ∧ s = { p.spelling with metadata := [] } :=
    readQualified?_eq_some_iff hs.type
  simp only [hread]
  constructor
  · rintro ⟨p, hp, hrest, rfl⟩
    rcases hp.cut_cases hc hrest with ⟨p', hp', rfl, hsame⟩ | ⟨p', hp', hnone, rfl, hsame⟩ | ⟨-, hname⟩
    · exact .inl ⟨p', hp', rfl, by rw [hsame]⟩
    · exact .inr ⟨_, hp'.sign_not_mem_rest hnone, rfl, p', hp', rfl, by rw [hsame]⟩
    · exact absurd hname hs.name
  · rintro (⟨p, hp, rfl, rfl⟩ | ⟨u, hu, rfl, p, hp, rfl, rfl⟩)
    · obtain ⟨p', hp', hrest, hsame⟩ := hp.exists_append hc
      exact ⟨p', hp', hrest, by rw [hsame]⟩
    · obtain ⟨p', hp', hrest, hsame⟩ := hp.exists_sign (default_eq_none hu) hc
      exact ⟨p', hp', hrest, by rw [hsame]⟩

/-! ## The last bracket that ends the metadata -/

/-- Two ways of reading that both succeed or both fail, with the same spelling if it has a type and a
name. -/
structure SameReading (o o' : Option Spelling) : Prop where
  isSome : o.isSome = true ↔ o'.isSome = true
  proper : ∀ s : Spelling, s.Proper → (o = some s ↔ o' = some s)

variable {o o' q q' : Option Spelling}

theorem SameReading.refl (o : Option Spelling) : SameReading o o := ⟨Iff.rfl, fun _ _ => Iff.rfl⟩

theorem SameReading.withMetadata (h : SameReading o o') (m : List Char) :
    SameReading (o.map fun s => { s with metadata := m }) (o'.map fun s => { s with metadata := m }) where
  isSome := by simpa using h.isSome
  proper s hs := by
    simp only [Option.map_eq_some_iff]
    constructor
    · rintro ⟨s', hs', rfl⟩
      exact ⟨s', (h.proper s' ⟨hs.type, hs.name⟩).1 hs', rfl⟩
    · rintro ⟨s', hs', rfl⟩
      exact ⟨s', (h.proper s' ⟨hs.type, hs.name⟩).2 hs', rfl⟩

theorem SameReading.or (h : SameReading o o') (h' : SameReading q q') :
    SameReading (o.or q) (o'.or q') where
  isSome := by simp only [Option.isSome_or, Bool.or_eq_true, h.isSome, h'.isSome]
  proper s hs := by
    have hnone : o = none ↔ o' = none := by
      have hisSome := h.isSome
      rwa [Option.isSome_iff_ne_none, Option.isSome_iff_ne_none, not_iff_not] at hisSome
    simp only [Option.or_eq_some_iff, h.proper s hs, hnone, h'.proper s hs]

theorem readBracketed?_cons (before : List Char) (d : Char) (cs : List Char) :
    readBracketed? before (d :: cs) = (readBracketed? (d :: before) cs).or
      (if d = ']' then (readQualified? cs).map fun s => { s with metadata := before.reverse }
        else none) := by
  rw [readBracketed?]
  cases readBracketed? (d :: before) cs <;> rfl

theorem sameReading_append (hc : isBlank c = true) (hsigned : ¬Signed t) (hheaded : ¬Headed t) :
    SameReading (readQualified? (t ++ [c])) (readQualified? t) where
  isSome := by
    rw [isSome_readQualified?_append_iff hc]
    simp [hsigned, hheaded]
  proper s hs := by
    rw [readQualified?_append_iff hs hc, or_iff_left_iff_imp]
    rintro ⟨u, hu, rfl, hread⟩
    exact absurd ⟨u, hu, rfl, by rw [hread]; rfl⟩ hsigned

theorem not_mem_append_blank (hc : isBlank c = true) {d : Char} (hd : isBlank d = false)
    (ht : d ∉ t) : d ∉ t ++ [c] := by
  have hne : d ≠ c := by
    rintro rfl
    simp [hd] at hc
  simp [ht, hne]

/-- If the text behind the last bracket is read the same with a blank behind it, then so is all that
is in front of it: no earlier bracket leaves a text that a blank could change. -/
theorem sameReading_bracketed (hc : isBlank c = true) (ht : ']' ∉ t)
    (h : SameReading (readQualified? (t ++ [c])) (readQualified? t)) : ∀ inner before : List Char,
      SameReading (readBracketed? before (inner ++ ']' :: (t ++ [c])))
        (readBracketed? before (inner ++ ']' :: t))
  | [], before => by
    have hnone : ']' ∉ t ++ [c] := not_mem_append_blank hc (by decide) ht
    rw [List.nil_append, List.nil_append, readBracketed?_cons, readBracketed?_cons,
      readBracketed?_of_not_mem hnone, readBracketed?_of_not_mem ht, if_pos rfl, if_pos rfl]
    exact (SameReading.refl none).or (h.withMetadata _)
  | d :: inner, before => by
    rw [List.cons_append, List.cons_append, readBracketed?_cons, readBracketed?_cons]
    refine (sameReading_bracketed hc ht h inner (d :: before)).or ?_
    split_ifs
    · have hmem : ']' ∈ inner ++ ']' :: t := by simp
      have hsame := sameReading_append hc (fun hs : Signed (inner ++ ']' :: t) =>
        hs.not_mem (c := ']') (by simp) hmem) fun hh => hh.not_mem (c := ']') (by simp) hmem
      rw [List.append_assoc, List.cons_append] at hsame
      exact hsame.withMetadata _
    · exact .refl none

/-! ## Whole arguments -/

/-- An argument that ends in the sign of its default value. -/
def EndsInSign (cs : List Char) : Prop :=
  ∃ a m t, (∀ c ∈ a, isBlank c = true) ∧ Signed t ∧ cs = a ++ (bracketed m ++ t)

/-- An argument with metadata that ends before the blanks before its name. -/
def EndsBeforeName (cs : List Char) : Prop :=
  ∃ a m t, (∀ c ∈ a, isBlank c = true) ∧ Headed t ∧ cs = a ++ '[' :: (m ++ ']' :: t)

theorem EndsBeforeName.last (h : EndsBeforeName (cs ++ [c])) : c = ']'
    ∨ ∃ p : WrittenPin, ∃ t, p.Fits ∧ p.heading = t ++ [c] ∧ readQualified? p.heading = none := by
  obtain ⟨a, m, t, -, ⟨p, hp, rfl, hnone⟩, hcs⟩ := h
  rcases p.heading.eq_nil_or_concat' with hnil | ⟨t, e, ht⟩
  · have hlast : cs ++ [c] = a ++ '[' :: m ++ [']'] := by simp [hcs, hnil]
    obtain ⟨-, he⟩ := List.append_inj' hlast rfl
    exact .inl (by simpa using he)
  · have hlast : cs ++ [c] = a ++ '[' :: m ++ ']' :: t ++ [e] := by simp [hcs, ht]
    obtain ⟨-, he⟩ := List.append_inj' hlast rfl
    obtain rfl : c = e := by simpa using he
    exact .inr ⟨p, t, hp, ht, hnone⟩

theorem not_endsBeforeName_of_blank (hc : isBlank c = true) : ¬EndsBeforeName (cs ++ [c]) := by
  intro h
  rcases h.last with rfl | ⟨p, t, hp, ht, hnone⟩
  · exact absurd hc (by decide)
  · have hsome := hp.isSome_of_heading hc ht
    rw [hnone] at hsome
    cases hsome

theorem not_endsInSign_of_blank (hc : isBlank c = true) : ¬EndsInSign (cs ++ [c]) := by
  rintro ⟨a, m, _, -, ⟨u, -, rfl, -⟩, hcs⟩
  rw [← List.append_assoc, ← List.append_assoc] at hcs
  obtain ⟨-, he⟩ := List.append_inj' hcs rfl
  obtain rfl : c = '=' := by simpa using he
  exact absurd hc (by decide)

theorem EndsInSign.not_endsBeforeName (h : EndsInSign cs) : ¬EndsBeforeName cs := by
  obtain ⟨a, m, _, -, ⟨u, -, rfl, -⟩, rfl⟩ := h
  rw [← List.append_assoc, ← List.append_assoc]
  intro hname
  rcases hname.last with hsign | ⟨p, t, hp, ht, -⟩
  · exact absurd hsign (by decide)
  · exact hp.not_mem_heading (c := '=') (by simp) (by simp [ht])

theorem sameReading_sign (hc : isBlank c = true) {u : List Char} (hu : '=' ∉ u)
    (hsome : (readQualified? u).isSome = true) :
    SameReading (readQualified? (u ++ ['='] ++ [c])) (readQualified? u) where
  isSome := by
    have hsigned : Signed (u ++ ['=']) := ⟨u, hu, rfl, hsome⟩
    rw [isSome_readQualified?_append_iff hc]
    simp [hsigned, hsome]
  proper s hs := by
    rw [readQualified?_append_iff hs hc, readQualified?_of_signed ⟨u, hu, rfl, hsome⟩]
    constructor
    · rintro (h | ⟨u', -, heq, h⟩)
      · cases h
      · rwa [List.append_cancel_right heq]
    · exact fun h => .inr ⟨u, hu, rfl, h⟩

/-- Texts that can be read, behind the same metadata. -/
theorem sameReading_of_isSome {t' : List Char} (ht : ']' ∉ t) (ht' : ']' ∉ t')
    (h : SameReading (readQualified? t) (readQualified? t'))
    (hsome : (readQualified? t').isSome = true) (m : List Char) :
    SameReading (readBracketed? [] (m ++ ']' :: t)) (readBracketed? [] (m ++ ']' :: t')) := by
  obtain ⟨x, hx⟩ := Option.isSome_iff_exists.1 (h.isSome.2 hsome)
  obtain ⟨x', hx'⟩ := Option.isSome_iff_exists.1 hsome
  rw [readBracketed?_append ht hx, readBracketed?_append ht' hx']
  rw [hx, hx'] at h
  exact h.withMetadata _

theorem isSome_readQualified?_blanks {a u : List Char} (ha : ∀ c ∈ a, isBlank c = true)
    (h : (readQualified? u).isSome = true) : (readQualified? (a ++ u)).isSome = true := by
  obtain ⟨p, hp, rfl⟩ := isSome_readQualified?_iff.1 h
  have hblanks := hp.blanks
  simp only [List.forall_mem_append] at hblanks
  have hfits := hp.qualified (q := p.qualifier) (a := a ++ p.afterMetadata) (b := p.afterQualifier)
    (by simpa only [List.forall_mem_append] using ⟨⟨ha, hblanks.1.1.1⟩, hblanks.1.1.2⟩)
    hp.afterQualifier
  have hsome := isSome_readQualified? hfits
  rwa [rest, List.append_assoc] at hsome

theorem Signed.append_blanks {a : List Char} (ha : ∀ c ∈ a, isBlank c = true) (h : Signed t) :
    Signed (a ++ t) := by
  obtain ⟨u, hu, rfl, hsome⟩ := h
  have hblank : '=' ∉ a := fun hmem => absurd (ha _ hmem) (by decide)
  exact ⟨a ++ u, by simp [hu, hblank], (List.append_assoc a u _).symm,
    isSome_readQualified?_blanks ha hsome⟩

/-- A blank behind the sign is a missing default value. -/
theorem read?_append_of_sign (hs : s.Proper) (hc : isBlank c = true) (h : EndsInSign cs) :
    read? (cs ++ [c]) = some s ↔ read? cs.dropLast = some s := by
  obtain ⟨a, m, t, ha, hsigned, rfl⟩ := h
  cases m with
  | none =>
    have hwhole := hsigned.append_blanks ha
    have hopen := hwhole.not_mem (c := '[') (by simp)
    obtain ⟨u, hu, hcs, hsome⟩ := hwhole
    rw [hcs] at hopen
    rw [bracketed, List.nil_append, hcs, List.dropLast_concat,
      read?_of_no_opening (dropBlanks_ne_opening (not_mem_append_blank hc (by decide) hopen)),
      read?_of_no_opening (dropBlanks_ne_opening fun hmem => hopen (List.mem_append_left _ hmem))]
    exact (sameReading_sign hc hu hsome).proper s hs
  | some m =>
    have hclose := hsigned.not_mem (c := ']') (by simp)
    obtain ⟨u, hu, rfl, hsome⟩ := hsigned
    have hdrop : (a ++ (bracketed (some m) ++ (u ++ ['=']))).dropLast = a ++ '[' :: (m ++ ']' :: u) := by
      rw [← List.append_assoc, ← List.append_assoc, List.dropLast_concat]
      simp [bracketed]
    have hboth : a ++ (bracketed (some m) ++ (u ++ ['='])) ++ [c]
        = a ++ '[' :: (m ++ ']' :: (u ++ ['='] ++ [c])) := by simp [bracketed]
    rw [hdrop, hboth, read?_of_opening (dropBlanks_opening ha _),
      read?_of_opening (dropBlanks_opening ha _)]
    exact (sameReading_of_isSome (not_mem_append_blank hc (by decide) hclose)
      (fun hmem => hclose (List.mem_append_left _ hmem)) (sameReading_sign hc hu hsome) hsome
      m).proper s hs

/-- With a blank before its name the argument is read without one. -/
theorem read?_append_of_name (hs : s.Proper) (hc : isBlank c = true) (h : EndsBeforeName cs) :
    read? (cs ++ [c]) ≠ some s := by
  obtain ⟨a, m, t, ha, hheaded, rfl⟩ := h
  obtain ⟨x, hx⟩ := Option.isSome_iff_exists.1
    ((isSome_readQualified?_append_iff hc).2 (.inr (.inr hheaded)))
  have hclose := not_mem_append_blank hc (by decide) (hheaded.not_mem (c := ']') (by simp))
  rw [List.append_assoc, List.cons_append, List.append_assoc, List.cons_append,
    read?_of_opening (dropBlanks_opening ha _), readBracketed?_append hclose hx]
  rintro heq
  obtain rfl := Option.some.inj heq
  obtain ⟨p, hp, rfl, hnone⟩ := hheaded
  have hx' : x.Proper := ⟨hs.type, hs.name⟩
  rcases (readQualified?_append_iff hx' hc).1 hx with hread | ⟨u, -, hsign, -⟩
  · rw [hnone] at hread
    cases hread
  · exact hp.not_mem_heading (c := '=') (by simp) (by simp [hsign])

theorem exists_last_of_mem {d : Char} (h : d ∈ cs) : ∃ m t, cs = m ++ d :: t ∧ d ∉ t := by
  obtain ⟨a, b, hab, ha⟩ := List.eq_append_cons_of_mem (List.mem_reverse.2 h)
  refine ⟨b.reverse, a.reverse, ?_, by simpa using ha⟩
  rw [← List.reverse_reverse cs, hab]
  simp

/-- In any other case a blank behind an argument does not matter. -/
theorem read?_append_of_not (hs : s.Proper) (hc : isBlank c = true) (hsign : ¬EndsInSign cs)
    (hname : ¬EndsBeforeName cs) : read? (cs ++ [c]) = some s ↔ read? cs = some s := by
  have hblank : ∀ e ∈ [c], isBlank e = true := by simpa using hc
  by_cases hopen : ∃ r, dropBlanks cs = '[' :: r
  · obtain ⟨r, hr⟩ := hopen
    have hboth : dropBlanks (cs ++ [c]) = '[' :: (r ++ [c]) :=
      (dropBlanks_append_eq_cons_iff hblank).2 ⟨r, hr, rfl⟩
    rw [read?_of_opening hr, read?_of_opening hboth]
    by_cases hclose : ']' ∈ r
    · obtain ⟨m, t, rfl, ht⟩ := exists_last_of_mem hclose
      have hcs : cs = cs.takeWhile isBlank ++ '[' :: (m ++ ']' :: t) := by
        rw [← hr, dropBlanks, List.takeWhile_append_dropWhile]
      have hfront : ∀ e ∈ cs.takeWhile isBlank, isBlank e = true := fun e => List.mem_takeWhile_imp
      have hsame := sameReading_append hc
        (fun h => hsign ⟨_, some m, t, hfront, h, by simpa [bracketed] using hcs⟩)
        fun h => hname ⟨_, m, t, hfront, h, hcs⟩
      rw [List.append_assoc, List.cons_append]
      exact (sameReading_bracketed hc ht hsame m []).proper s hs
    · rw [readBracketed?_of_not_mem hclose,
        readBracketed?_of_not_mem (not_mem_append_blank hc (by decide) hclose)]
  · have hcs : ∀ r, dropBlanks cs ≠ '[' :: r := fun r hr => hopen ⟨r, hr⟩
    have hboth : ∀ r, dropBlanks (cs ++ [c]) ≠ '[' :: r := by
      intro r hr
      obtain ⟨r', hr', -⟩ := (dropBlanks_append_eq_cons_iff hblank).1 hr
      exact hcs r' hr'
    rw [read?_of_no_opening hcs, read?_of_no_opening hboth, readQualified?_append_iff hs hc,
      or_iff_left_iff_imp]
    rintro ⟨u, hu, rfl, hread⟩
    exact absurd ⟨[], none, _, by simp, ⟨u, hu, rfl, by rw [hread]; rfl⟩, rfl⟩ hsign

end Spelling

end ShaderGraph
