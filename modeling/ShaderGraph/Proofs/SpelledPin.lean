import ShaderGraph.Proofs.Resolves
import ShaderGraph.Proofs.WrittenPin

/-!
# An argument becomes the pin that it spells

An argument may have any text as its metadata, blanks wherever they can stand, and a default value if
it is one of its type. However the blanks fall and whatever brackets the metadata has, it is read as
what it is written for, and resolves to one pin with exactly these parts.
-/

namespace ShaderGraph

open Text

/-! ## Values of a type -/

theorem Pin.readVector?_trim (info : TypeInfo) (text : String) :
    Pin.readVector? info (trim text) = Pin.readVector? info text := by
  simp only [Pin.readVector?, Quad.read?_trim]

theorem vector?_trim (typeName text : String) :
    vector? typeName (trim text) = vector? typeName text := by
  simp only [vector?, Pin.readVector?_trim]

/-- A value of a type is one without the blanks around it. -/
theorem isValue_trim {typeName text : String} (h : isValue typeName text = true) :
    isValue typeName (trim text) = true := by
  unfold isValue at h ⊢
  split_ifs at h ⊢ with hbool
  · have htrim : ∀ t ∈ ["true", "false"], trim t = t := by decide
    rw [htrim text (by simpa using h)]
    exact h
  · rwa [vector?_trim]

theorem isDefault_eq_isValue (typeName text : List Char) : isDefault typeName text
    = isValue (String.ofList typeName) (String.ofList (trimChars text)) := by
  have hbool : typeName = "bool".toList ↔ String.ofList typeName = "bool" := by
    constructor
    · rintro rfl
      rfl
    · intro h
      rw [← h, String.toList_ofList]
  rw [isDefault, isValue, vector?]
  simp only [hbool]
  cases typeTable.get? (String.ofList typeName) <;> rfl

/-! ## Arguments with any metadata -/

/-- An argument as it is written, with any text as its metadata. -/
structure SpelledPin where
  before : List Char := []
  /-- what is between the square brackets, if there are brackets -/
  metadata : Option (List Char) := none
  afterMetadata : List Char := []
  qualifier : Qualifier := .plain
  afterQualifier : List Char := []
  typeName : List Char
  /-- the blanks before the angle brackets and the word in them -/
  template : Option (List Char × List Char) := none
  afterType : List Char := [' ']
  name : List Char
  afterName : List Char := []
  default : Option (List Char) := none
  beforeDefault : List Char := []
  afterDefault : List Char := []
deriving DecidableEq, Repr

namespace SpelledPin

/-- What follows the metadata, with the blanks around the default value as a part of it. -/
def plain (p : SpelledPin) : WrittenPin where
  afterMetadata := p.afterMetadata
  qualifier := p.qualifier
  afterQualifier := p.afterQualifier
  typeName := p.typeName
  template := p.template
  afterType := p.afterType
  name := p.name
  afterName := p.afterName
  default := p.default.map fun d => p.beforeDefault ++ (d ++ p.afterDefault)

def text (p : SpelledPin) : String :=
  String.ofList (p.before ++ (WrittenPin.bracketed p.metadata ++ p.plain.rest))

def entries (p : SpelledPin) : Metadata := Metadata.parse (String.ofList (p.metadata.getD []))

/-- An argument whose parts are what they are written for, and go together. -/
structure WellFormed (p : SpelledPin) : Prop where
  blanks : ∀ c ∈ p.before ++ p.afterMetadata ++ p.afterQualifier ++ p.afterType ++ p.afterName
    ++ p.beforeDefault ++ p.afterDefault, isBlank c = true
  afterQualifier : p.qualifier ≠ .plain → p.afterQualifier ≠ []
  typeName : String.ofList p.typeName = "bool" ∨ String.ofList p.typeName ∈ typeTable.keys
  template : ∀ t ∈ p.template, (∀ c ∈ t.1, isBlank c = true) ∧ IsOneWord t.2
  afterType : p.afterType ≠ []
  name : IsOneWord p.name
  default : ∀ d ∈ p.default, isValue (String.ofList p.typeName) (String.ofList d) = true
  output : p.qualifier = .output → (outputType? (String.ofList p.typeName)).isSome = true
  exposed : p.entries.has exposeKey = true →
    ∀ k ∈ pinKind? (String.ofList p.typeName), k.isExposable = true

instance (p : SpelledPin) : Decidable p.WellFormed :=
  decidable_of_iff ((∀ c ∈ p.before ++ p.afterMetadata ++ p.afterQualifier ++ p.afterType
        ++ p.afterName ++ p.beforeDefault ++ p.afterDefault, isBlank c = true)
      ∧ (p.qualifier ≠ .plain → p.afterQualifier ≠ [])
      ∧ (String.ofList p.typeName = "bool" ∨ String.ofList p.typeName ∈ typeTable.keys)
      ∧ (∀ t ∈ p.template, (∀ c ∈ t.1, isBlank c = true) ∧ IsOneWord t.2) ∧ p.afterType ≠ []
      ∧ IsOneWord p.name
      ∧ (∀ d ∈ p.default, isValue (String.ofList p.typeName) (String.ofList d) = true)
      ∧ (p.qualifier = .output → (outputType? (String.ofList p.typeName)).isSome = true)
      ∧ (p.entries.has exposeKey = true →
        ∀ k ∈ pinKind? (String.ofList p.typeName), k.isExposable = true))
    ⟨fun ⟨h₁, h₂, h₃, h₄, h₅, h₆, h₇, h₈, h₉⟩ => ⟨h₁, h₂, h₃, h₄, h₅, h₆, h₇, h₈, h₉⟩,
      fun h => ⟨h.blanks, h.afterQualifier, h.typeName, h.template, h.afterType, h.name, h.default,
        h.output, h.exposed⟩⟩

variable {p : SpelledPin}

theorem mem_argumentTypes {typeName : List Char}
    (h : String.ofList typeName = "bool" ∨ String.ofList typeName ∈ typeTable.keys) :
    typeName ∈ argumentTypes := by
  refine List.mem_map.2 ⟨String.ofList typeName, ?_, String.toList_ofList⟩
  simp only [List.mem_append, List.mem_cons]
  tauto

theorem WellFormed.plain (h : p.WellFormed) : p.plain.WellFormed where
  blanks c hc := h.blanks c (by
    simp only [SpelledPin.plain, List.nil_append, List.mem_append] at hc ⊢
    tauto)
  metadata := by simp [SpelledPin.plain]
  afterQualifier := h.afterQualifier
  typeName := mem_argumentTypes h.typeName
  template := h.template
  afterType := h.afterType
  name := h.name
  default := by
    have hblanks := h.blanks
    simp only [List.forall_mem_append] at hblanks
    intro d hd
    obtain ⟨d, hdefault, rfl⟩ := Option.map_eq_some_iff.1 hd
    rw [isDefault_eq_isValue, trimChars_blanks hblanks.1.2 hblanks.2]
    have hvalue := isValue_trim (h.default d hdefault)
    rwa [trim, String.toList_ofList] at hvalue

/-- The parts that are read back. -/
def spelling (p : SpelledPin) : Spelling where
  metadata := p.metadata.getD []
  qualifier := p.qualifier
  typeName := p.typeName
  name := p.name
  default := (p.default.map trimChars).getD []

theorem WellFormed.read? (h : p.WellFormed) : Spelling.read? p.text.toList = some p.spelling := by
  have hblanks := h.blanks
  simp only [List.forall_mem_append] at hblanks
  have hbefore := hblanks.1.1.1.1.1.1
  have hspelling : p.spelling = { p.plain.spelling with metadata := p.metadata.getD [] } := by
    have hdefault : (p.default.map fun d => trimChars (p.beforeDefault ++ (d ++ p.afterDefault)))
        = p.default.map trimChars :=
      Option.map_congr fun d _ => trimChars_blanks hblanks.1.2 hblanks.2 d
    simp [spelling, WrittenPin.spelling, SpelledPin.plain, Function.comp_def, hdefault]
  rw [text, String.toList_ofList, hspelling]
  exact WrittenPin.read?_bracketed hbefore h.plain.selfContained_rest
    (fun _ => h.plain.readQualified?) p.metadata

theorem WellFormed.resolves (h : p.WellFormed) (comment : String) {k : PinKind}
    (hkind : pinKind? (String.ofList p.typeName) = some k) :
    p.spelling.Resolves comment { pins := [(p.spelling.untyped comment).ofType k] } := by
  refine .pin hkind (fun hd => ?_) h.output fun he => h.exposed he k hkind
  cases hdefault : p.default with
  | none => simp [spelling, hdefault] at hd
  | some d =>
    have hvalue := isValue_trim (h.default d hdefault)
    rw [trim, String.toList_ofList] at hvalue
    simpa [spelling, hdefault] using hvalue

theorem WellFormed.resolveArgument_eq (h : p.WellFormed) (comment : String) {k : PinKind}
    (hkind : pinKind? (String.ofList p.typeName) = some k) : resolveArgument p.text comment
      = .ok { pins := [(p.spelling.untyped comment).ofType k] } :=
  resolveArgument_eq_ok_iff.2 ⟨p.spelling, h.read?,
    ⟨h.plain.typeName_word.ne_nil, h.name.ne_nil⟩, h.resolves comment hkind⟩

/-- An argument resolves to one pin, which is what is written. -/
theorem WellFormed.exists_pin (h : p.WellFormed) (comment : String) :
    ∃ q, resolveArgument p.text comment = .ok { pins := [q], declaration := "" }
      ∧ q.name = String.ofList p.name ∧ q.declaredType = String.ofList p.typeName
      ∧ pinKind? (String.ofList p.typeName) = some q.kind
      ∧ q.outputType = outputType? (String.ofList p.typeName)
      ∧ q.qualifier = p.qualifier ∧ q.isInternal = false
      ∧ q.metadata = Metadata.parse (String.ofList (p.metadata.getD []))
      ∧ q.tooltip = Tooltip.find (String.ofList p.name) comment
      ∧ q.defaultText = trim (String.ofList (p.default.getD []))
      ∧ q.defaultVector = vector? (String.ofList p.typeName) (String.ofList (p.default.getD []))
      ∧ q.defaultBool = (q.declaredType = "bool" && q.defaultText = "true") := by
  obtain ⟨k, hkind⟩ := exists_pinKind?_iff.2 h.typeName
  have htext : String.ofList p.spelling.default = trim (String.ofList (p.default.getD [])) := by
    rw [trim, String.toList_ofList, spelling]
    cases p.default <;> rfl
  refine ⟨_, h.resolveArgument_eq comment hkind, rfl, rfl, hkind, rfl, rfl, rfl, rfl, rfl, htext, ?_, rfl⟩
  rw [← vector?_trim, ← htext]
  rfl

/-- A parameter whose metadata have brackets of their own. -/
def tinted : SpelledPin where
  before := ['\n']
  metadata := some "Expose, Category=\"[Base] a]\"".toList
  qualifier := .const
  afterQualifier := [' ', '\t']
  typeName := "float4".toList
  template := some ([' '], "unorm".toList)
  afterType := ['\n']
  name := "Tint".toList
  default := some "float4(1, 0.5, 0, 1)".toList
  beforeDefault := [' ']
  afterDefault := [' ', ' ']

theorem exists_pin_of_tinted : tinted.WellFormed
    ∧ ∃ q, resolveArgument tinted.text "" = .ok { pins := [q], declaration := "" }
      ∧ q.name = "Tint" ∧ q.kind = .vector4 ∧ q.qualifier = .const
      ∧ q.metadata = Metadata.parse "Expose, Category=\"[Base] a]\""
      ∧ q.defaultText = "float4(1, 0.5, 0, 1)" := by
  have hevaluated : tinted.WellFormed ∧ pinKind? (String.ofList tinted.typeName) = some .vector4
      ∧ trim (String.ofList (tinted.default.getD [])) = "float4(1, 0.5, 0, 1)" := by decide +kernel
  obtain ⟨h, hvector, htext⟩ := hevaluated
  obtain ⟨q, hq, hname, -, hkind, -, hqualifier, -, hmetadata, -, hdefault, -⟩ := h.exists_pin ""
  exact ⟨h, q, hq, hname, Option.some.inj (hkind.symm.trans hvector), hqualifier, hmetadata,
    hdefault.trans htext⟩

end SpelledPin

end ShaderGraph
