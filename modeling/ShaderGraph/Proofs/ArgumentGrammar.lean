import ShaderGraph.Proofs.WrittenPin

/-!
# The grammar of arguments

What follows the metadata of an argument can be read exactly if it is written as blanks, a qualifier, a
type, a template, blanks, a name and a default value, where type and name may be missing
(`isSome_readQualified?_iff`). If the type is none of the qualifiers and not missing, then what is read
is exactly what is written (`readQualified?_eq_some_iff`), although several ways of reading are tried.
-/

namespace ShaderGraph

open Text

namespace WrittenPin

variable {p : WrittenPin}

/-- What follows the metadata up to the default value. -/
def lead (p : WrittenPin) : List Char :=
  p.afterMetadata ++ (p.qualifier.word ++ (p.afterQualifier ++ (p.typeName ++ (p.templateText
    ++ (p.afterType ++ (p.name ++ p.afterName))))))

theorem rest_eq (p : WrittenPin) : p.rest = p.lead ++ p.defaultText := by
  simp [rest, typed, lead]

theorem Fits.mem_lead (h : p.Fits) {c : Char} (hc : c ∈ p.lead) :
    isBlank c = true ∨ isWord c = true ∨ c = '<' ∨ c = '>' := by
  have hblanks := h.blanks c
  have hqualifier : ∀ q : Qualifier, ∀ c ∈ q.word, isWord c = true := by
    intro q
    cases q <;> decide
  simp only [List.mem_append] at hblanks
  simp only [lead, List.mem_append] at hc
  rcases hc with hc | hc | hc | hc | hc | hc | hc | hc
  · exact .inl (hblanks (.inl (.inl (.inl hc))))
  · exact .inr (.inl (hqualifier _ c hc))
  · exact .inl (hblanks (.inl (.inl (.inr hc))))
  · exact .inr (.inl (h.typeName c hc))
  · rw [templateText] at hc
    cases ht : p.template with
    | none => simp [ht] at hc
    | some t =>
      obtain ⟨hgap, hword⟩ := h.template t ht
      simp only [ht, List.mem_append, List.mem_cons, List.not_mem_nil, or_false] at hc
      rcases hc with (hc | rfl | hc) | rfl
      · exact .inl (hgap c hc)
      · simp
      · exact .inr (.inl (hword.word c hc))
      · simp
  · exact .inl (hblanks (.inl (.inr hc)))
  · exact .inr (.inl (h.name c hc))
  · exact .inl (hblanks (.inr hc))

theorem Fits.not_mem_lead (h : p.Fits) {c : Char} (hc : c ∈ ['=', '[', ']']) : c ∉ p.lead := by
  have hother : ∀ c ∈ ['=', '[', ']'],
      isBlank c = false ∧ isWord c = false ∧ c ≠ '<' ∧ c ≠ '>' := by decide
  obtain ⟨hblank, hword, hopen, hclose⟩ := hother c hc
  intro hlead
  rcases h.mem_lead hlead with hc | hc | hc | hc
  · simp [hc] at hblank
  · simp [hc] at hword
  · exact hopen hc
  · exact hclose hc

/-- Other blanks and another qualifier before the type. -/
theorem Fits.qualified (h : p.Fits) {q : Qualifier} {a b : List Char}
    (hblank : ∀ c ∈ a ++ b, isBlank c = true) (hb : q ≠ .plain → b ≠ []) :
    { p with afterMetadata := a, qualifier := q, afterQualifier := b : WrittenPin }.Fits where
  blanks c hc := by
    simp only [List.mem_append] at hc hblank
    rcases hc with ((hc | hc) | hc) | hc
    · exact hblank c (.inl hc)
    · exact hblank c (.inr hc)
    · exact h.afterType_blank c hc
    · exact h.afterName_blank c hc
  afterQualifier := hb
  typeName := h.typeName
  template := h.template
  afterType := h.afterType
  name := h.name
  default := h.default

/-- Blanks before a missing type belong to what follows it. -/
theorem Fits.exists_of_blanks (h : p.Fits) (htype : p.typeName = []) {a : List Char}
    (ha : ∀ c ∈ a, isBlank c = true) : ∃ p' : WrittenPin, p'.Fits ∧ p'.typed = a ++ p.typed := by
  have hblank {g : List Char} (hg : ∀ c ∈ g, isBlank c = true) : ∀ c ∈ a ++ g, isBlank c = true :=
    List.forall_mem_append.2 ⟨ha, hg⟩
  cases ht : p.template with
  | none =>
    refine ⟨{ p with afterType := a ++ p.afterType }, ⟨fun c hc => ?_, h.afterQualifier, h.typeName,
      h.template, by simp [h.afterType], h.name, h.default⟩, by simp [typed, templateText, defaultText, htype, ht]⟩
    have hblanks := h.blanks c
    simp only [List.mem_append] at hc hblanks
    have := ha c
    tauto
  | some t =>
    obtain ⟨hgap, hword⟩ := h.template t ht
    refine ⟨{ p with template := some (a ++ t.1, t.2) }, ⟨h.blanks, h.afterQualifier, h.typeName, ?_,
      h.afterType, h.name, h.default⟩, by simp [typed, templateText, defaultText, htype, ht]⟩
    rintro t' ht'
    obtain rfl := Option.some.inj ht'
    exact ⟨hblank hgap, hword⟩

end WrittenPin

namespace Spelling

open WrittenPin

variable {p : WrittenPin} {q : Qualifier} {cs : List Char} {s : Spelling}

/-! ## What is read was written -/

theorem exists_of_dropTemplate? {r : List Char} (h : dropTemplate? cs = some r) :
    ∃ w, IsOneWord w ∧ cs = '<' :: (w ++ '>' :: r) := by
  unfold dropTemplate? at h
  split at h
  · rename_i cs
    split at h
    · rename_i w r' hword
      obtain rfl := Option.some.inj h
      obtain ⟨hne, hw, hr⟩ := word?_eq_some_iff.1 hword
      refine ⟨w, ⟨hne, fun c hc => ?_⟩, ?_⟩
      · rw [← hw] at hc
        exact List.mem_takeWhile_imp hc
      · rw [← hr, ← hw, List.takeWhile_append_dropWhile]
    · cases h
  · cases h

theorem exists_of_readDefault? {d : List Char} (h : readDefault? cs = some d) :
    ∃ a, ∃ e : Option (List Char), (∀ c ∈ a, isBlank c = true) ∧ (∀ t ∈ e, t ≠ [])
      ∧ cs = a ++ { typeName := [], name := [], default := e : WrittenPin }.defaultText
      ∧ d = (e.map trimChars).getD [] := by
  have hsplit : cs.takeWhile isBlank ++ dropBlanks cs = cs := List.takeWhile_append_dropWhile
  unfold readDefault? at h
  split at h
  · rename_i hnil
    obtain rfl := Option.some.inj h
    rw [hnil, List.append_nil] at hsplit
    exact ⟨cs, none, fun c hc => List.mem_takeWhile_imp (hsplit ▸ hc), by simp,
      (List.append_nil cs).symm, rfl⟩
  · rename_i c r hsome
    obtain rfl := Option.some.inj h
    rw [hsome] at hsplit
    exact ⟨cs.takeWhile isBlank, some (c :: r), fun c hc => List.mem_takeWhile_imp hc, by simp,
      hsplit.symm, rfl⟩
  · cases h

/-- The type and what follows it are written as they are read. -/
theorem exists_of_readTyped? (h : readTyped? q cs = some s) :
    ∃ p : WrittenPin, p.Fits ∧ p.typed = cs
      ∧ s = { p.spelling with metadata := [], qualifier := q } := by
  have htype : cs.takeWhile isWord ++ cs.dropWhile isWord = cs := List.takeWhile_append_dropWhile
  have hgap : ∃ t : Option (List Char × List Char),
      (∀ x ∈ t, (∀ c ∈ x.1, isBlank c = true) ∧ IsOneWord x.2)
        ∧ cs.dropWhile isWord = { typeName := [], name := [], template := t : WrittenPin }.templateText
          ++ (dropTemplate? (dropBlanks (cs.dropWhile isWord))).getD (cs.dropWhile isWord) := by
    cases hdrop : dropTemplate? (dropBlanks (cs.dropWhile isWord)) with
    | none => exact ⟨none, by simp, rfl⟩
    | some r =>
      obtain ⟨w, hw, hr⟩ := exists_of_dropTemplate? hdrop
      refine ⟨some ((cs.dropWhile isWord).takeWhile isBlank, w), ?_, ?_⟩
      · rintro x hx
        obtain rfl := Option.some.inj hx
        exact ⟨fun c hc => List.mem_takeWhile_imp hc, hw⟩
      · have hsplit : (cs.dropWhile isWord).takeWhile isBlank ++ dropBlanks (cs.dropWhile isWord)
            = cs.dropWhile isWord := List.takeWhile_append_dropWhile
        rw [hr] at hsplit
        simpa [templateText] using hsplit.symm
  obtain ⟨t, ht, hafter⟩ := hgap
  unfold readTyped? at h
  simp only [] at h
  split at h
  · cases h
  · rename_i c g hg
    split_ifs at h with hc
    obtain ⟨d, hd, rfl⟩ := Option.map_eq_some_iff.1 h
    obtain ⟨a, e, ha, he, hrest, rfl⟩ := exists_of_readDefault? hd
    rw [hg] at hafter hrest
    have hblank : (c :: g).takeWhile isBlank ++ dropBlanks (c :: g) = c :: g :=
      List.takeWhile_append_dropWhile
    have hname : (dropBlanks (c :: g)).takeWhile isWord ++ (dropBlanks (c :: g)).dropWhile isWord
        = dropBlanks (c :: g) := List.takeWhile_append_dropWhile
    refine ⟨{ typeName := cs.takeWhile isWord
              template := t
              afterType := (c :: g).takeWhile isBlank
              name := (dropBlanks (c :: g)).takeWhile isWord
              afterName := a
              default := e }, ?_, ?_, ?_⟩
    · refine ⟨fun x hx => ?_, by simp, fun x hx => List.mem_takeWhile_imp hx, ht, by simp [hc],
        fun x hx => List.mem_takeWhile_imp hx, he⟩
      simp only [List.nil_append, List.mem_append] at hx
      exact hx.elim (fun hx => List.mem_takeWhile_imp hx) (ha x)
    · rw [hrest] at hname
      rw [← hname] at hblank
      rw [← hblank] at hafter
      rw [hafter] at htype
      exact htype
    · rw [hg]
      rfl

theorem exists_of_readAfter? {w : List Char} (h : readAfter? w q cs = some s) :
    ∃ b, ∃ p : WrittenPin, (∀ c ∈ b, isBlank c = true) ∧ b ≠ [] ∧ p.Fits ∧ w ++ (b ++ p.typed) = cs
      ∧ s = { p.spelling with metadata := [], qualifier := q } := by
  unfold readAfter? at h
  split_ifs at h with hstart
  obtain ⟨r, rfl⟩ := List.isPrefixOf_iff_prefix.1 hstart
  rw [List.drop_left] at h
  split at h
  · cases h
  · rename_i c r
    split_ifs at h with hc
    split at h
    · rename_i s' hread
      obtain rfl := Option.some.inj h
      obtain ⟨p, hp, htyped, hs⟩ := exists_of_readTyped? hread
      refine ⟨c :: r.takeWhile isBlank, p, ?_, by simp, hp, ?_, hs⟩
      · simpa [hc] using fun x hx => List.mem_takeWhile_imp hx
      · rw [htyped, List.cons_append, dropBlanks, List.takeWhile_append_dropWhile]
    · obtain ⟨p, hp, htyped, hs⟩ := exists_of_readTyped? h
      exact ⟨[c], p, by simpa using hc, by simp, hp, by rw [htyped]; rfl, hs⟩

/-- What follows the metadata is written as it is read. -/
theorem exists_of_readQualified? (h : readQualified? cs = some s) :
    ∃ p : WrittenPin, p.Fits ∧ p.rest = cs ∧ s = { p.spelling with metadata := [] } := by
  have hsplit : cs.takeWhile isBlank ++ dropBlanks cs = cs := List.takeWhile_append_dropWhile
  have hblank : ∀ c ∈ cs.takeWhile isBlank, isBlank c = true := fun c hc => List.mem_takeWhile_imp hc
  have hqualified {w : List Char} {q : Qualifier} (hw : w = q.word)
      (h : readAfter? w q (dropBlanks cs) = some s) :
      ∃ p : WrittenPin, p.Fits ∧ p.rest = cs ∧ s = { p.spelling with metadata := [] } := by
    obtain ⟨b, p, hb, hne, hp, htext, hs⟩ := exists_of_readAfter? h
    refine ⟨_, hp.qualified (List.forall_mem_append.2 ⟨hblank, hb⟩) fun _ => hne, ?_, hs⟩
    rw [← htext, hw] at hsplit
    exact hsplit
  have htyped {a r : List Char} (ha : ∀ c ∈ a, isBlank c = true) (htext : a ++ r = cs)
      (h : readTyped? .plain r = some s) :
      ∃ p : WrittenPin, p.Fits ∧ p.rest = cs ∧ s = { p.spelling with metadata := [] } := by
    obtain ⟨p, hp, hr, hs⟩ := exists_of_readTyped? h
    refine ⟨_, hp.qualified (q := .plain) (b := []) (by simpa using ha) (by simp), ?_, hs⟩
    rw [← htext, ← hr]
    rfl
  unfold readQualified? at h
  simp only [] at h
  split at h
  · rename_i hread
    obtain rfl := Option.some.inj h
    exact hqualified (q := .const) rfl hread
  · split at h
    · rename_i hread
      obtain rfl := Option.some.inj h
      exact hqualified (q := .output) rfl hread
    · split at h
      · rename_i hread
        obtain rfl := Option.some.inj h
        exact htyped hblank hsplit hread
      · exact htyped (a := []) (by simp) rfl h

/-! ## What is written can be read -/

theorem isSome_readTyped? (hp : p.Fits) (q : Qualifier) : (readTyped? q p.typed).isSome = true := by
  rw [hp.readTyped?, Option.isSome_some]

/-- Of a missing type at most the blanks before it are left. -/
theorem isSome_readTyped?_or (hp : p.Fits) {b : List Char} (hb : ∀ c ∈ b, isBlank c = true)
    (q : Qualifier) : (readTyped? q (dropBlanks (b ++ p.typed))).isSome = true
      ∨ (readTyped? q (b ++ p.typed)).isSome = true := by
  by_cases htype : p.typeName = []
  · obtain ⟨p', hp', htyped⟩ := hp.exists_of_blanks htype hb
    rw [← htyped]
    exact .inr (isSome_readTyped? hp' q)
  · refine .inl ?_
    rw [dropBlanks_append hb, typed, dropBlanks_word ⟨htype, hp.typeName⟩]
    exact isSome_readTyped? hp q

theorem isSome_readAfter? (hp : p.Fits) {b : List Char} (hb : ∀ c ∈ b, isBlank c = true)
    (hne : b ≠ []) (w : List Char) (q : Qualifier) :
    (readAfter? w q (w ++ (b ++ p.typed))).isSome = true := by
  obtain ⟨c, b, rfl⟩ := List.exists_cons_of_ne_nil hne
  rw [List.forall_mem_cons] at hb
  have hstart : w.isPrefixOf (w ++ (c :: b ++ p.typed)) = true :=
    List.isPrefixOf_iff_prefix.2 (List.prefix_append _ _)
  rw [readAfter?, if_pos hstart, List.drop_left, List.cons_append]
  simp only [hb.1, if_true]
  split
  · rfl
  · rename_i hnone
    have hor := isSome_readTyped?_or hp hb.2 q
    rwa [hnone, Option.isSome_none, Bool.false_eq_true, false_or] at hor

theorem isSome_readQualified? (hp : p.Fits) : (readQualified? p.rest).isSome = true := by
  have hblanks := hp.blanks
  simp only [List.mem_append, or_imp, forall_and] at hblanks
  obtain ⟨⟨⟨hmetadata, hqualifier⟩, -⟩, -⟩ := hblanks
  have hstart : ∀ q, p.qualifier = q → q ≠ .plain →
      dropBlanks p.rest = q.word ++ (p.afterQualifier ++ p.typed) := by
    rintro q rfl hq
    have hword : IsOneWord p.qualifier.word := by cases hq' : p.qualifier <;> simp_all <;> decide
    rw [rest, dropBlanks_append hmetadata, dropBlanks_word hword]
  rw [readQualified?]
  split
  · rfl
  · rename_i hconst
    split
    · rfl
    · rename_i hout
      split
      · rfl
      · rename_i hplain
        cases hq : p.qualifier with
        | const =>
          have hsome := isSome_readAfter? hp hqualifier (hp.afterQualifier (by simp [hq]))
            Qualifier.const.word .const
          rw [← hstart _ hq (by simp)] at hsome
          rw [show Qualifier.const.word = "const".toList from rfl, hconst] at hsome
          cases hsome
        | output =>
          have hsome := isSome_readAfter? hp hqualifier (hp.afterQualifier (by simp [hq]))
            Qualifier.output.word .output
          rw [← hstart _ hq (by simp)] at hsome
          rw [show Qualifier.output.word = "out".toList from rfl, hout] at hsome
          cases hsome
        | plain =>
          have hblank : ∀ c ∈ p.afterMetadata ++ p.afterQualifier, isBlank c = true :=
            List.forall_mem_append.2 ⟨hmetadata, hqualifier⟩
          have hrest : p.rest = p.afterMetadata ++ p.afterQualifier ++ p.typed := by
            simp [rest, hq, Qualifier.word]
          have hor := isSome_readTyped?_or hp hblank .plain
          rw [← hrest, hplain] at hor
          simpa using hor

/-- A text can be read exactly if it is written as an argument is. -/
theorem isSome_readQualified?_iff :
    (readQualified? cs).isSome = true ↔ ∃ p : WrittenPin, p.Fits ∧ p.rest = cs := by
  constructor
  · intro h
    obtain ⟨s, hs⟩ := Option.isSome_iff_exists.1 h
    obtain ⟨p, hp, hrest, -⟩ := exists_of_readQualified? hs
    exact ⟨p, hp, hrest⟩
  · rintro ⟨p, hp, rfl⟩
    exact isSome_readQualified? hp

/-- With a type that is no qualifier a text is read as it is written. -/
theorem readQualified?_eq_some_iff (hs : s.typeName ∉ otherWords) : readQualified? cs = some s
    ↔ ∃ p : WrittenPin, p.Fits ∧ p.rest = cs ∧ s = { p.spelling with metadata := [] } := by
  refine ⟨exists_of_readQualified?, ?_⟩
  rintro ⟨p, hp, rfl, rfl⟩
  exact hp.readQualified? hs rfl

end Spelling

end ShaderGraph
