import ShaderGraph.Proofs.DefaultBlanks

/-!
# Arguments as they are written

An argument is written from the entries of its metadata, a qualifier, a type, a name and a default
value of the type, with blanks between and around them. It is read back as these parts: the last
closing bracket is the one that ends the metadata, since no later part has one.
-/

namespace ShaderGraph

open Text

/-- The types of arguments. -/
def argumentTypes : List (List Char) :=
  (["bool", "float4x4", "SamplerState"] ++ contextTypes ++ typeTable.keys).map String.toList

/-- Whether a text is a default value of a type. -/
def isDefault (typeName text : List Char) : Bool :=
  let value := String.ofList (trimChars text)
  if typeName = "bool".toList then value = "true" || value = "false"
  else
    match typeTable.get? (String.ofList typeName) with
    | some info => (Pin.readVector? info value).isSome
    | none => false

/-- What is written for a qualifier. -/
def Qualifier.word : Qualifier → List Char
  | plain => []
  | const => "const".toList
  | output => "out".toList

/-- An argument as it is written, with the blanks between its parts. -/
structure WrittenPin where
  before : List Char := []
  /-- the entries between the square brackets, if there are brackets -/
  metadata : Option (List Metadata.Entry) := none
  afterMetadata : List Char := []
  qualifier : Qualifier := .plain
  afterQualifier : List Char := []
  typeName : List Char
  /-- the blanks before the angle brackets and the word in them -/
  template : Option (List Char × List Char) := none
  afterType : List Char := [' ']
  name : List Char
  afterName : List Char := []
  /-- what is written after the equal sign -/
  default : Option (List Char) := none
deriving DecidableEq, Repr

namespace WrittenPin

def templateText (p : WrittenPin) : List Char :=
  match p.template with
  | none => []
  | some (gap, word) => gap ++ '<' :: word ++ ['>']

def defaultText (p : WrittenPin) : List Char :=
  match p.default with
  | none => []
  | some text => '=' :: text

/-- The metadata in its brackets, with the blanks before it. -/
def front (p : WrittenPin) : List Char :=
  match p.metadata with
  | none => p.before
  | some es => p.before ++ '[' :: Metadata.render es ++ [']']

/-- The type and what follows it. -/
def typed (p : WrittenPin) : List Char :=
  p.typeName ++ (p.templateText ++ (p.afterType ++ (p.name ++ (p.afterName ++ p.defaultText))))

/-- What follows the metadata. -/
def rest (p : WrittenPin) : List Char :=
  p.afterMetadata ++ (p.qualifier.word ++ (p.afterQualifier ++ p.typed))

def text (p : WrittenPin) : String := String.ofList (p.front ++ p.rest)

/-- An argument whose parts are what they are written for. -/
structure WellFormed (p : WrittenPin) : Prop where
  blanks : ∀ c ∈ p.before ++ p.afterMetadata ++ p.afterQualifier ++ p.afterType ++ p.afterName,
    isBlank c = true
  metadata : ∀ es ∈ p.metadata, ∀ e ∈ es, e.WellFormed
  afterQualifier : p.qualifier ≠ .plain → p.afterQualifier ≠ []
  typeName : p.typeName ∈ argumentTypes
  template : ∀ t ∈ p.template, (∀ c ∈ t.1, isBlank c = true) ∧ IsOneWord t.2
  afterType : p.afterType ≠ []
  name : IsOneWord p.name
  default : ∀ d ∈ p.default, isDefault p.typeName d = true

instance (p : WrittenPin) : Decidable p.WellFormed :=
  decidable_of_iff ((∀ c ∈ p.before ++ p.afterMetadata ++ p.afterQualifier ++ p.afterType
        ++ p.afterName, isBlank c = true)
      ∧ (∀ es ∈ p.metadata, ∀ e ∈ es, e.WellFormed) ∧ (p.qualifier ≠ .plain → p.afterQualifier ≠ [])
      ∧ p.typeName ∈ argumentTypes
      ∧ (∀ t ∈ p.template, (∀ c ∈ t.1, isBlank c = true) ∧ IsOneWord t.2) ∧ p.afterType ≠ []
      ∧ IsOneWord p.name ∧ ∀ d ∈ p.default, isDefault p.typeName d = true)
    ⟨fun ⟨h₁, h₂, h₃, h₄, h₅, h₆, h₇, h₈⟩ => ⟨h₁, h₂, h₃, h₄, h₅, h₆, h₇, h₈⟩,
      fun h => ⟨h.blanks, h.metadata, h.afterQualifier, h.typeName, h.template, h.afterType, h.name,
        h.default⟩⟩

/-- The parts that are read back. -/
def spelling (p : WrittenPin) : Spelling where
  metadata := (p.metadata.map Metadata.render).getD []
  qualifier := p.qualifier
  typeName := p.typeName
  name := p.name
  default := (p.default.map trimChars).getD []

variable {p : WrittenPin}

theorem WellFormed.typeName_word (h : p.WellFormed) : IsOneWord p.typeName := by
  have hall : ∀ t ∈ argumentTypes, IsOneWord t := by decide
  exact hall _ h.typeName

/-! ## What follows the metadata -/

theorem selfContained_of_isDefault {typeName text : List Char}
    (h : isDefault typeName text = true) : SelfContained text := by
  have htrim : SelfContained (trimChars text) := by
    rw [← String.toList_ofList (l := trimChars text)]
    unfold isDefault at h
    simp only [] at h
    split_ifs at h
    · rw [Bool.or_eq_true, decide_eq_true_eq, decide_eq_true_eq] at h
      rcases h with h | h <;> rw [h] <;> exact selfContained_of_loose (by decide)
    · split at h
      · obtain ⟨q, hq⟩ := Option.isSome_iff_exists.1 h
        obtain ⟨d, -, hread⟩ := Option.bind_eq_some_iff.1 hq
        exact Quad.selfContained_read? hread
      · cases h
  obtain ⟨a, b, hblank, htext⟩ := exists_trimChars text
  rw [htext]
  have hloose : ∀ c ∈ a ++ b, IsLoose c := fun c hc => isLoose_of_isBlank (hblank c hc)
  rw [List.forall_mem_append] at hloose
  exact ((selfContained_of_loose hloose.1).append htrim).append (selfContained_of_loose hloose.2)

theorem ne_nil_of_isDefault {typeName text : List Char} (h : isDefault typeName text = true) :
    text ≠ [] := by
  rintro rfl
  have hnone : ∀ d, Quad.read? d "" = none := fun d => by cases d <;> decide
  have hempty : String.ofList (trimChars []) = "" := rfl
  unfold isDefault at h
  simp only [hempty] at h
  split_ifs at h
  · cases h
  · split at h
    · obtain ⟨q, hq⟩ := Option.isSome_iff_exists.1 h
      obtain ⟨d, -, hread⟩ := Option.bind_eq_some_iff.1 hq
      rw [hnone d] at hread
      cases hread
    · cases h

/-- What follows the metadata leaves the brackets around it as they are. -/
theorem WellFormed.selfContained_rest (h : p.WellFormed) : SelfContained p.rest := by
  have hblanks := h.blanks
  simp only [List.mem_append, or_imp, forall_and] at hblanks
  obtain ⟨⟨⟨⟨-, hmetadata⟩, hqualifier⟩, htype⟩, hname⟩ := hblanks
  have hblank {a : List Char} (ha : ∀ c ∈ a, isBlank c = true) : SelfContained a :=
    selfContained_of_loose fun c hc => isLoose_of_isBlank (ha c hc)
  have hword {w : List Char} (hw : IsOneWord w) : SelfContained w :=
    selfContained_of_loose fun c hc => isLoose_of_isWord (hw.word c hc)
  have hqualifierWord : SelfContained p.qualifier.word := by
    refine selfContained_of_loose ?_
    cases p.qualifier <;> decide
  have htemplate : SelfContained p.templateText := by
    rw [templateText]
    cases ht : p.template with
    | none => exact selfContained_of_loose nofun
    | some t =>
      obtain ⟨hgap, ht⟩ := h.template t ht
      have hopen : SelfContained ['<'] := selfContained_of_loose (by decide)
      have hclose : SelfContained ['>'] := selfContained_of_loose (by decide)
      simpa using (hblank hgap).append (hopen.append ((hword ht).append hclose))
  have hdefault : SelfContained p.defaultText := by
    rw [defaultText]
    cases hd : p.default with
    | none => exact selfContained_of_loose nofun
    | some d =>
      have hsign : SelfContained ['='] := selfContained_of_loose (by decide)
      exact hsign.append (selfContained_of_isDefault (h.default d hd))
  exact (hblank hmetadata).append <| hqualifierWord.append <| (hblank hqualifier).append <|
    (hword h.typeName_word).append <| htemplate.append <| (hblank htype).append <|
    (hword h.name).append <| (hblank hname).append hdefault

/-! ## Reading it back -/

/-- An argument as any that is read is written: its type and its name are any words, or missing, and
its default value is any text. -/
structure Fits (p : WrittenPin) : Prop where
  blanks : ∀ c ∈ p.afterMetadata ++ p.afterQualifier ++ p.afterType ++ p.afterName, isBlank c = true
  afterQualifier : p.qualifier ≠ .plain → p.afterQualifier ≠ []
  typeName : ∀ c ∈ p.typeName, isWord c = true
  template : ∀ t ∈ p.template, (∀ c ∈ t.1, isBlank c = true) ∧ IsOneWord t.2
  afterType : p.afterType ≠ []
  name : ∀ c ∈ p.name, isWord c = true
  default : ∀ d ∈ p.default, d ≠ []

theorem WellFormed.fits (h : p.WellFormed) : p.Fits where
  blanks c hc := h.blanks c (by simp only [List.mem_append] at hc ⊢; tauto)
  afterQualifier := h.afterQualifier
  typeName := h.typeName_word.word
  template := h.template
  afterType := h.afterType
  name := h.name.word
  default d hd := ne_nil_of_isDefault (h.default d hd)

theorem Fits.afterType_blank (h : p.Fits) : ∀ c ∈ p.afterType, isBlank c = true :=
  fun c hc => h.blanks c (List.mem_append_left _ (List.mem_append_right _ hc))

theorem Fits.afterName_blank (h : p.Fits) : ∀ c ∈ p.afterName, isBlank c = true :=
  fun c hc => h.blanks c (List.mem_append_right _ hc)

theorem dropBlanks_word {w : List Char} (hw : IsOneWord w) (r : List Char) :
    dropBlanks (w ++ r) = w ++ r := by
  cases w with
  | nil => exact absurd rfl hw.ne_nil
  | cons c w =>
    exact dropBlanks_cons_of_not_blank (not_isBlank_of_isWord (hw.word c List.mem_cons_self)) _

theorem Fits.readDefault? (h : p.Fits) {a : List Char} (ha : ∀ c ∈ a, isBlank c = true) :
    Spelling.readDefault? (a ++ p.defaultText) = some p.spelling.default := by
  rw [Spelling.readDefault?, dropBlanks_append ha, defaultText, spelling]
  cases hd : p.default with
  | none => rfl
  | some d =>
    cases d with
    | nil => exact absurd rfl (h.default _ hd)
    | cons c d => rfl

theorem dropBlanks_defaultText : dropBlanks p.defaultText = p.defaultText := by
  rw [defaultText]
  cases p.default with
  | none => rfl
  | some d => exact dropBlanks_cons_of_not_blank (by decide) d

theorem afterWord_defaultText : AfterWord p.defaultText := by
  rw [defaultText]
  cases p.default with
  | none => exact afterWord_nil
  | some d => exact afterWord_cons (by decide) d

/-- The name and what follows it, without the blanks before it. -/
theorem Fits.exists_named (h : p.Fits) : ∃ a, (∀ c ∈ a, isBlank c = true)
    ∧ dropBlanks (p.name ++ (p.afterName ++ p.defaultText)) = p.name ++ (a ++ p.defaultText)
    ∧ (p.name ++ (a ++ p.defaultText)).head? ≠ some '<' := by
  cases hname : p.name with
  | nil =>
    refine ⟨[], nofun, ?_, ?_⟩
    · rw [List.nil_append, dropBlanks_append h.afterName_blank, dropBlanks_defaultText]
      rfl
    · rw [List.nil_append, List.nil_append, defaultText]
      cases p.default <;> simp
  | cons c n =>
    have hword : IsOneWord (c :: n) := ⟨List.cons_ne_nil c n, hname ▸ h.name⟩
    refine ⟨p.afterName, h.afterName_blank, dropBlanks_word hword _, fun hopen => ?_⟩
    obtain rfl := Option.some.inj hopen
    exact absurd (hword.word '<' List.mem_cons_self) (by decide)

theorem dropTemplate?_of_head {cs : List Char} (h : cs.head? ≠ some '<') :
    Spelling.dropTemplate? cs = none := by
  rw [Spelling.dropTemplate?]
  rintro r rfl
  exact h rfl

/-- The template is dropped and the blanks after it are left. -/
theorem Fits.dropTemplate? (h : p.Fits) :
    (Spelling.dropTemplate? (dropBlanks
        (p.templateText ++ (p.afterType ++ (p.name ++ (p.afterName ++ p.defaultText)))))).getD
      (p.templateText ++ (p.afterType ++ (p.name ++ (p.afterName ++ p.defaultText))))
      = p.afterType ++ (p.name ++ (p.afterName ++ p.defaultText)) := by
  rw [templateText]
  cases ht : p.template with
  | none =>
    obtain ⟨a, ha, hnamed, hhead⟩ := h.exists_named
    rw [List.nil_append, dropBlanks_append h.afterType_blank, hnamed, dropTemplate?_of_head hhead,
      Option.getD_none]
  | some t =>
    obtain ⟨hgap, hword⟩ := h.template t ht
    have htext (r : List Char) : t.1 ++ '<' :: t.2 ++ ['>'] ++ r = t.1 ++ '<' :: (t.2 ++ '>' :: r) := by
      simp
    have hopen : isBlank '<' = false := by decide
    simp only [htext]
    rw [dropBlanks_append hgap, dropBlanks_cons_of_not_blank hopen, Spelling.dropTemplate?,
      word?_append hword (afterWord_cons (by decide) _)]
    rfl

/-- A blank or an angle bracket ends the type. -/
theorem Fits.afterWord_template (h : p.Fits) (r : List Char) :
    AfterWord (p.templateText ++ (p.afterType ++ r)) := by
  rw [templateText]
  cases ht : p.template with
  | none =>
    obtain ⟨c, a, ha⟩ := List.exists_cons_of_ne_nil h.afterType
    have hc : isBlank c = true := h.afterType_blank c (by rw [ha]; exact List.mem_cons_self)
    rw [List.nil_append, ha]
    exact afterWord_cons (not_isWord_of_isBlank hc) _
  | some t =>
    rw [List.append_assoc, List.append_assoc]
    exact AfterWord.append_blanks (h.template t ht).1 (afterWord_cons (by decide) _)

/-- The type and what follows it are read back. -/
theorem Fits.readTyped? (h : p.Fits) (q : Qualifier) :
    Spelling.readTyped? q p.typed = some { p.spelling with metadata := [], qualifier := q } := by
  have hblank := h.afterType_blank
  obtain ⟨c, g, hg⟩ := List.exists_cons_of_ne_nil h.afterType
  have hc : isBlank c = true := hblank c (by rw [hg]; exact List.mem_cons_self)
  obtain ⟨a, ha, hnamed, -⟩ := h.exists_named
  rw [← dropBlanks_append hblank, hg, List.cons_append] at hnamed
  have hend : AfterWord (a ++ p.defaultText) := afterWord_defaultText.append_blanks ha
  have htype := h.afterWord_template (p.name ++ (p.afterName ++ p.defaultText))
  rw [Spelling.readTyped?, typed, dropWhile_word h.typeName htype, takeWhile_word h.typeName htype]
  simp only [h.dropTemplate?]
  simp only [hg, List.cons_append, hc, if_true, hnamed, dropWhile_word h.name hend,
    takeWhile_word h.name hend, h.readDefault? ha, Option.map_some]
  rfl

theorem Fits.readAfter? (h : p.Fits) (hq : p.qualifier ≠ .plain) (htype : p.typeName ≠ [])
    (q : Qualifier) (w : List Char) :
    Spelling.readAfter? w q (w ++ (p.afterQualifier ++ p.typed))
      = some { p.spelling with metadata := [], qualifier := q } := by
  have hblank : ∀ c ∈ p.afterQualifier, isBlank c = true := fun c hc => h.blanks c (by simp [hc])
  obtain ⟨c, a, ha⟩ := List.exists_cons_of_ne_nil (h.afterQualifier hq)
  rw [ha, List.forall_mem_cons] at hblank
  have hstart : w.isPrefixOf (w ++ (p.afterQualifier ++ p.typed)) = true :=
    List.isPrefixOf_iff_prefix.2 (List.prefix_append _ _)
  have htyped : dropBlanks p.typed = p.typed := dropBlanks_word ⟨htype, h.typeName⟩ _
  rw [Spelling.readAfter?, if_pos hstart, List.drop_left, ha, List.cons_append]
  simp only [hblank.1, if_true, dropBlanks_append hblank.2, htyped, h.readTyped?]

/-- A type that is no qualifier is not taken for one, whatever it begins with. -/
theorem Fits.readAfter?_of_ne (h : p.Fits) {w : List Char} (hw : ∀ c ∈ w, isWord c = true)
    (hne : p.typeName ≠ w) (q : Qualifier) : Spelling.readAfter? w q p.typed = none := by
  rw [Spelling.readAfter?]
  split_ifs with hstart
  · obtain ⟨r, hr⟩ := List.isPrefixOf_iff_prefix.1 hstart
    rw [← hr, List.drop_left]
    cases r with
    | nil => rfl
    | cons c r =>
      have hc : ¬isBlank c = true := fun hc => by
        have htype := h.afterWord_template (p.name ++ (p.afterName ++ p.defaultText))
        have hword := takeWhile_word hw (afterWord_cons (not_isWord_of_isBlank hc) r)
        rw [hr, typed, takeWhile_word h.typeName htype] at hword
        exact hne hword
      simp only [if_neg hc]
  · rfl

theorem readAfter?_of_head {w cs : List Char} (hw : w ≠ []) (h : w.head? ≠ cs.head?)
    (q : Qualifier) : Spelling.readAfter? w q cs = none := by
  have hstart : ¬w.isPrefixOf cs = true := by
    rw [List.isPrefixOf_iff_prefix]
    rintro ⟨r, rfl⟩
    obtain ⟨c, w, rfl⟩ := List.exists_cons_of_ne_nil hw
    exact h rfl
  rw [Spelling.readAfter?, if_neg hstart]

/-- The types that are not read as such: a missing one and the qualifiers. -/
def otherWords : List (List Char) := [[], "const".toList, "out".toList]

/-- What follows the metadata is read back, with or without blanks before it. -/
theorem Fits.readQualified? (h : p.Fits) (htype : p.typeName ∉ otherWords) {cs : List Char}
    (hcs : dropBlanks cs = dropBlanks p.rest) :
    Spelling.readQualified? cs = some { p.spelling with metadata := [] } := by
  simp only [otherWords, List.mem_cons, List.not_mem_nil, or_false, not_or] at htype
  obtain ⟨hnil, hconst, hout⟩ := htype
  have hblanks := h.blanks
  simp only [List.mem_append, or_imp, forall_and] at hblanks
  obtain ⟨⟨⟨hmetadata, hqualifier⟩, -⟩, -⟩ := hblanks
  rw [rest, dropBlanks_append hmetadata] at hcs
  rw [Spelling.readQualified?, hcs]
  cases hq : p.qualifier with
  | const =>
    have hread : Spelling.readAfter? "const".toList _ _ = _ :=
      h.readAfter? (by simp [hq]) hnil .const _
    rw [dropBlanks_word (by decide)]
    simp only [Qualifier.word, hread]
    simp [spelling, hq]
  | output =>
    have hread : Spelling.readAfter? "out".toList _ _ = _ :=
      h.readAfter? (by simp [hq]) hnil .output _
    have hfirst : Spelling.readAfter? "const".toList .const
        ("out".toList ++ (p.afterQualifier ++ p.typed)) = none :=
      readAfter?_of_head (by decide) (by simp) _
    rw [dropBlanks_word (by decide)]
    simp only [Qualifier.word, hread, hfirst]
    simp [spelling, hq]
  | plain =>
    have htyped : dropBlanks p.typed = p.typed := dropBlanks_word ⟨hnil, h.typeName⟩ _
    rw [Qualifier.word, List.nil_append, dropBlanks_append hqualifier, htyped]
    simp only [h.readAfter?_of_ne (w := "const".toList) (by decide) hconst,
      h.readAfter?_of_ne (w := "out".toList) (by decide) hout, h.readTyped?]
    simp [spelling, hq]

theorem WellFormed.readQualified? (h : p.WellFormed) {cs : List Char}
    (hcs : dropBlanks cs = dropBlanks p.rest) :
    Spelling.readQualified? cs = some { p.spelling with metadata := [] } := by
  have hall : ∀ t ∈ argumentTypes, t ∉ otherWords := by decide
  exact h.fits.readQualified? (hall _ h.typeName) hcs

theorem readBracketed?_of_not_mem : ∀ {cs before : List Char}, ']' ∉ cs →
    Spelling.readBracketed? before cs = none
  | [], _, _ => rfl
  | c :: cs, before, h => by
    rw [List.mem_cons, not_or] at h
    rw [Spelling.readBracketed?, readBracketed?_of_not_mem h.2]
    exact if_neg (Ne.symm h.1)

/-- The metadata ends at the last bracket, whatever brackets it has itself. -/
theorem readBracketed?_append {rest : List Char} {s : Spelling} (hrest : ']' ∉ rest)
    (hread : Spelling.readQualified? rest = some s) : ∀ (inner before : List Char),
      Spelling.readBracketed? before (inner ++ ']' :: rest)
        = some { s with metadata := before.reverse ++ inner }
  | [], before => by
    rw [List.nil_append, Spelling.readBracketed?, readBracketed?_of_not_mem hrest]
    simp [hread]
  | c :: inner, before => by
    rw [List.cons_append, Spelling.readBracketed?, readBracketed?_append hrest hread inner]
    simp

/-- A text in square brackets, if there is one. -/
def bracketed : Option (List Char) → List Char
  | none => []
  | some m => '[' :: m ++ [']']

theorem read?_of_opening {cs r : List Char} (h : dropBlanks cs = '[' :: r) :
    Spelling.read? cs = Spelling.readBracketed? [] r := by
  rw [Spelling.read?, h]
  rfl

theorem read?_of_no_opening {cs : List Char} (h : ∀ r, dropBlanks cs ≠ '[' :: r) :
    Spelling.read? cs = Spelling.readQualified? cs := by
  rw [Spelling.read?]
  split
  · rename_i r hr
    exact absurd hr (h r)
  · rfl

theorem dropBlanks_ne_opening {cs : List Char} (h : '[' ∉ cs) (r : List Char) :
    dropBlanks cs ≠ '[' :: r := by
  intro hr
  have hmem : '[' ∈ dropBlanks cs := by simp [hr]
  exact h ((List.dropWhile_suffix _).subset hmem)

theorem dropBlanks_opening {a : List Char} (ha : ∀ c ∈ a, isBlank c = true) (r : List Char) :
    dropBlanks (a ++ '[' :: r) = '[' :: r := by
  rw [dropBlanks_append ha, dropBlanks_cons_of_not_blank (by decide)]

/-- What is in brackets before an argument is read as its metadata, whatever it is. -/
theorem read?_bracketed {before rest : List Char} {s : Spelling}
    (hbefore : ∀ c ∈ before, isBlank c = true) (hrest : SelfContained rest)
    (hread : ∀ cs, dropBlanks cs = dropBlanks rest →
      Spelling.readQualified? cs = some { s with metadata := [] }) (metadata : Option (List Char)) :
    Spelling.read? (before ++ (bracketed metadata ++ rest))
      = some { s with metadata := metadata.getD [] } := by
  cases metadata with
  | none =>
    have hopen : ∀ r, dropBlanks (before ++ rest) ≠ '[' :: r := by
      rw [dropBlanks_append hbefore]
      exact dropBlanks_ne_opening hrest.opening
    exact (read?_of_no_opening hopen).trans (hread _ (dropBlanks_append hbefore rest))
  | some m =>
    have htext : bracketed (some m) ++ rest = '[' :: (m ++ ']' :: rest) := by simp [bracketed]
    rw [htext, read?_of_opening (dropBlanks_opening hbefore _)]
    exact readBracketed?_append hrest.closing (hread rest rfl) m []

/-- An argument is read back as it is written. -/
theorem WellFormed.read? (h : p.WellFormed) : Spelling.read? p.text.toList = some p.spelling := by
  have hbefore : ∀ c ∈ p.before, isBlank c = true := fun c hc => h.blanks c (by simp [hc])
  have hfront : p.front = p.before ++ bracketed (p.metadata.map Metadata.render) := by
    rw [front]
    cases p.metadata with
    | none => exact (List.append_nil _).symm
    | some es => exact List.append_assoc _ _ _
  have hread := read?_bracketed hbefore h.selfContained_rest (fun _ => h.readQualified?)
    (p.metadata.map Metadata.render)
  rw [text, String.toList_ofList, hfront, List.append_assoc]
  exact hread

end WrittenPin

end ShaderGraph
