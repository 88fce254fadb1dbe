import Mathlib.Data.Option.Basic
import Mathlib.Tactic.SplitIfs
import ShaderGraph.Pin.Signature
import ShaderGraph.Proofs.OrderedMap

/-!
# What an argument resolves to

A spelling resolves to no pin, to the pin that it spells or to the rows of a matrix, and it does so
exactly if it passes the checks that each needs (`Spelling.resolve_eq_ok_iff`). What is said of the
pins of arguments anywhere else is read off these cases.
-/

namespace ShaderGraph

open Text

/-! ## What a type says of a pin -/

/-- The kind of the pins of a type. -/
def pinKind? (typeName : String) : Option PinKind :=
  if typeName = "bool" then some .staticBool else (typeTable.get? typeName).map (·.kind)

def outputType? (typeName : String) : Option OutputType :=
  (typeTable.get? typeName).bind (·.output)

/-- The components that a text spells for a type of the table. -/
def vector? (typeName text : String) : Option Quad :=
  (typeTable.get? typeName).bind fun info => Pin.readVector? info text

/-- Whether a text is a value of a type. -/
def isValue (typeName text : String) : Bool :=
  if typeName = "bool" then text = "true" || text = "false" else (vector? typeName text).isSome

theorem get?_typeTable_bool : typeTable.get? "bool" = none := by decide

theorem pinKind?_bool : pinKind? "bool" = some .staticBool := if_pos rfl

/-- The types that have a kind. -/
theorem exists_pinKind?_iff {typeName : String} :
    (∃ k, pinKind? typeName = some k) ↔ typeName = "bool" ∨ typeName ∈ typeTable.keys := by
  unfold pinKind?
  split_ifs with hbool
  · simp [hbool]
  · rw [or_iff_right hbool, ← OrderedMap.isSome_get?, Option.isSome_iff_exists]
    simp

theorem outputType?_bool : outputType? "bool" = none := by
  rw [outputType?, get?_typeTable_bool]
  rfl

theorem vector?_bool (text : String) : vector? "bool" text = none := by
  rw [vector?, get?_typeTable_bool]
  rfl

theorem Quad.read?_empty (d : Dimension) : Quad.read? d "" = none := by
  cases d <;> decide

theorem vector?_empty (typeName : String) : vector? typeName "" = none := by
  rw [vector?, Option.bind_eq_none_iff]
  intro info _
  rw [Pin.readVector?, Option.bind_eq_none_iff]
  exact fun d _ => Quad.read?_empty d

/-- What the table says of its types: the ones that have components are the ones that have default
values, and the ones that can be outputs are vectors or numbers. -/
theorem typeTable_spec {typeName : String} {info : TypeInfo}
    (h : typeTable.get? typeName = some info) :
    (info.dimension.isSome = true ↔ info.kind ∈ [.scalar, .vector2, .vector3, .vector4])
      ∧ (info.output.isSome = true → typeName ∈ ["float", "float2", "float3", "float4"]) := by
  have hall : ∀ e ∈ typeTable,
      (e.2.dimension.isSome = true ↔ e.2.kind ∈ [.scalar, .vector2, .vector3, .vector4])
        ∧ (e.2.output.isSome = true → e.1 ∈ ["float", "float2", "float3", "float4"]) := by decide
  obtain ⟨e, he, rfl⟩ := Option.map_eq_some_iff.1 h
  obtain rfl : e.1 = typeName := by simpa using List.find?_some he
  exact hall e (List.mem_of_find?_eq_some he)

/-! ## What an argument resolves to -/

namespace Pin

/-- A pin that has not been given a type. -/
structure Untyped (p : Pin) : Prop where
  output : p.outputType = none
  vector : p.defaultVector = none
  bool : p.defaultBool = false

/-- A pin with what its type says of it. -/
def ofType (p : Pin) (k : PinKind) : Pin :=
  { p with
    kind := k
    outputType := outputType? p.declaredType
    defaultVector := vector? p.declaredType p.defaultText
    defaultBool := p.declaredType = "bool" && p.defaultText = "true" }

/-- A pin is given a type exactly if it has one and its default value is a value of it. -/
theorem typed_eq_ok_iff {p q : Pin} (hp : p.Untyped) : p.typed = .ok q
    ↔ (p.hasDefault = true → isValue p.declaredType p.defaultText = true)
      ∧ ∃ k, pinKind? p.declaredType = some k ∧ q = p.ofType k := by
  have hempty : ¬p.hasDefault = true → p.defaultText = "" := by simp [hasDefault]
  obtain ⟨name, type, kind, qualifier, part, metadata, tooltip, text, vector, bool, output⟩ := p
  obtain ⟨rfl, rfl, rfl⟩ := hp
  unfold typed ofType
  simp only [] at hempty ⊢
  by_cases hbool : type = "bool"
  · subst hbool
    simp only [if_true, isValue, outputType?_bool, vector?_bool, pinKind?_bool]
    split_ifs with hdefault htrue hfalse
    · simp [htrue, eq_comm (b := q)]
    · simp [hfalse, eq_comm (b := q)]
    · simp [hdefault, htrue, hfalse]
    · obtain rfl := hempty hdefault
      simp [hdefault, eq_comm (b := q)]
  · simp only [isValue, outputType?, vector?, pinKind?, hbool, if_false, decide_false,
      Bool.false_and]
    cases hinfo : typeTable.get? type with
    | none => simp
    | some info =>
      have hnone : readVector? info "" = none := by
        have hnone := vector?_empty type
        rwa [vector?, hinfo] at hnone
      simp only [Option.map_some, Option.bind_some]
      split_ifs with hdefault
      · cases hv : readVector? info text <;> simp [hdefault, eq_comm (b := q)]
      · obtain rfl := hempty hdefault
        simp [hdefault, hnone, eq_comm (b := q)]

/-- A pin passes the check exactly if it has a type as an output if it is one, and a kind that a
material can have parameters of if it is exposed. -/
theorem checked_eq_ok_iff {p q : Pin} : p.checked = .ok q
    ↔ (p.isOutput = true → p.outputType.isSome = true)
      ∧ (p.isExposed = true → p.kind.isExposable = true) ∧ q = p := by
  unfold checked
  split_ifs with houtput hexposed
  · rw [Bool.and_eq_true, Option.isNone_iff_eq_none] at houtput
    simp [houtput]
  · rw [Bool.and_eq_true, Bool.not_eq_true'] at hexposed
    simp [hexposed]
  · have hsome : p.isOutput = true → p.outputType.isSome = true := by
      simpa [Option.isSome_iff_ne_none] using houtput
    have hexposable : p.isExposed = true → p.kind.isExposable = true := by simpa using hexposed
    constructor
    · exact fun h => ⟨hsome, hexposable, (Except.ok.inj h).symm⟩
    · rintro ⟨-, -, rfl⟩
      rfl

end Pin

namespace Spelling

/-- The metadata that are spelled. -/
def entries (s : Spelling) : Metadata := Metadata.parse (String.ofList s.metadata)

/-- The pin that is spelled, without what its type says of it. -/
def untyped (s : Spelling) (comment : String) : Pin where
  name := String.ofList s.name
  declaredType := String.ofList s.typeName
  kind := .scalar
  qualifier := s.qualifier
  metadata := s.entries
  tooltip := Tooltip.find (String.ofList s.name) comment
  defaultText := String.ofList s.default

/-- What a spelling resolves to, with all that is checked before. -/
inductive Resolves (s : Spelling) (comment : String) : Resolution → Prop
  | context (htype : String.ofList s.typeName ∈ contextTypes)
    (hname : String.ofList s.name = "Parameters") : s.Resolves comment {}
  | sampler (htype : String.ofList s.typeName = "SamplerState")
    (hname : "Sampler".toList <:+ s.name) : s.Resolves comment {}
  | matrix (htype : String.ofList s.typeName = "float4x4") (hqualifier : s.qualifier ≠ .output)
    (hdefault : s.default = []) (hexposed : s.entries.has exposeKey = true) :
    s.Resolves comment (matrixResolution (s.qualifier = .const) (String.ofList s.name) s.entries
      (Tooltip.find (String.ofList s.name) comment))
  | pin {k : PinKind} (hkind : pinKind? (String.ofList s.typeName) = some k)
    (hdefault : s.default ≠ [] →
      isValue (String.ofList s.typeName) (String.ofList s.default) = true)
    (houtput : s.qualifier = .output → (outputType? (String.ofList s.typeName)).isSome = true)
    (hexposed : s.entries.has exposeKey = true → k.isExposable = true) :
    s.Resolves comment { pins := [(s.untyped comment).ofType k] }

theorem typeName_ne_of_pinKind? {typeName : String} {k : PinKind} (h : pinKind? typeName = some k) :
    typeName ∉ contextTypes ∧ typeName ≠ "SamplerState" ∧ typeName ≠ "float4x4" := by
  have hnone : ∀ t ∈ "SamplerState" :: "float4x4" :: contextTypes, pinKind? t = none := by decide
  have hother : ∀ t ∈ "SamplerState" :: "float4x4" :: contextTypes, typeName ≠ t := by
    rintro t ht rfl
    rw [hnone _ ht] at h
    cases h
  simp only [List.forall_mem_cons] at hother
  exact ⟨fun hmem => hother.2.2 _ hmem rfl, hother.1, hother.2.1⟩

variable {s : Spelling} {comment : String} {r : Resolution}

theorem hasDefault_untyped : (s.untyped comment).hasDefault = true ↔ s.default ≠ [] := by
  simp [Pin.hasDefault, untyped, String.ext_iff]

theorem untyped_untyped (s : Spelling) (comment : String) : (s.untyped comment).Untyped :=
  ⟨rfl, rfl, rfl⟩

theorem typed_untyped {k : PinKind} (hkind : pinKind? (String.ofList s.typeName) = some k)
    (hdefault : s.default ≠ [] →
      isValue (String.ofList s.typeName) (String.ofList s.default) = true) :
    (s.untyped comment).typed = .ok ((s.untyped comment).ofType k) :=
  (Pin.typed_eq_ok_iff (s.untyped_untyped comment)).2
    ⟨fun hd => hdefault (hasDefault_untyped.1 hd), k, hkind, rfl⟩

theorem checked_ofType {k : PinKind}
    (houtput : s.qualifier = .output → (outputType? (String.ofList s.typeName)).isSome = true)
    (hexposed : s.entries.has exposeKey = true → k.isExposable = true) :
    ((s.untyped comment).ofType k).checked = .ok ((s.untyped comment).ofType k) :=
  Pin.checked_eq_ok_iff.2
    ⟨fun ho => houtput (by simpa [Pin.isOutput, Pin.ofType, untyped] using ho), hexposed, rfl⟩

/-- A spelling resolves exactly if it passes the checks that it needs. -/
theorem resolve_eq_ok_iff : s.resolve comment = .ok r ↔ s.Resolves comment r := by
  constructor
  · intro h
    unfold resolve at h
    simp only [] at h
    split_ifs at h with hcontext hsampler hsuffix hmatrix houtput hdefault hexposed
    · obtain rfl := Except.ok.inj h
      exact .context hcontext.1 hcontext.2
    · obtain rfl := Except.ok.inj h
      exact .sampler hsampler (List.isSuffixOf_iff_suffix.1 hsuffix)
    · obtain rfl := Except.ok.inj h
      exact .matrix hmatrix houtput (by simpa using hdefault) (by simpa [entries] using hexposed)
    · split at h
      · cases h
      · rename_i p htyped
        obtain ⟨hdefault, k, hkind, rfl⟩ := (Pin.typed_eq_ok_iff (s.untyped_untyped comment)).1 htyped
        split at h
        · cases h
        · rename_i q hchecked
          obtain ⟨houtput, hexposed, rfl⟩ := Pin.checked_eq_ok_iff.1 hchecked
          obtain rfl := Except.ok.inj h
          refine .pin hkind (fun hd => hdefault (hasDefault_untyped.2 hd)) (fun hq => ?_) hexposed
          exact houtput (by simp [Pin.isOutput, Pin.ofType, untyped, hq])
  · intro h
    unfold resolve
    cases h with
    | context htype hname => exact if_pos ⟨htype, hname⟩
    | sampler htype hname =>
      have hcontext : String.ofList s.typeName ∉ contextTypes := by
        rw [htype]
        decide
      simp only []
      rw [if_neg fun h => hcontext h.1, if_pos htype, if_pos (List.isSuffixOf_iff_suffix.2 hname)]
    | matrix htype hqualifier hdefault hexposed =>
      have hother : String.ofList s.typeName ∉ contextTypes
          ∧ String.ofList s.typeName ≠ "SamplerState" := by
        rw [htype]
        decide
      simp only []
      rw [if_neg fun h => hother.1 h.1, if_neg hother.2, if_pos htype, if_neg hqualifier,
        if_neg (by simp [hdefault]), if_neg]
      · rfl
      · simpa [entries] using hexposed
    | @pin k hkind hdefault houtput hexposed =>
      obtain ⟨hcontext, hsampler, hmatrix⟩ := typeName_ne_of_pinKind? hkind
      have htyped : (s.untyped comment).typed = _ := typed_untyped hkind hdefault
      simp only []
      rw [if_neg fun h => hcontext h.1, if_neg hsampler, if_neg hmatrix]
      split
      · rename_i e herror
        cases htyped.symm.trans herror
      · rename_i p hp
        obtain rfl := Except.ok.inj (htyped.symm.trans hp)
        rw [checked_ofType houtput hexposed]

end Spelling

/-- An argument resolves exactly if it is read with a type and a name and its spelling resolves. -/
theorem resolveArgument_eq_ok_iff {raw comment : String} {r : Resolution} :
    resolveArgument raw comment = .ok r ↔ ∃ s : Spelling, Spelling.read? raw.toList = some s
      ∧ (s.typeName ≠ [] ∧ s.name ≠ []) ∧ s.Resolves comment r := by
  unfold resolveArgument
  cases hread : Spelling.read? raw.toList with
  | none => simp
  | some s =>
    simp only [Option.some.injEq, exists_eq_left', ← Spelling.resolve_eq_ok_iff]
    split_ifs with hempty
    · simp [← not_or, hempty]
    · rw [not_or] at hempty
      simp [hempty]

end ShaderGraph
