import ShaderGraph.Proofs.Declarations
import ShaderGraph.Proofs.MetadataText

/-!
# What is true of every resolved pin

What a generator takes for granted of the pins that it is given follows from the checks that their
arguments have passed, whatever the text of an argument is.
-/

namespace ShaderGraph

open Text

/-- What is true of a pin, be it an argument or a part of one. -/
structure Pin.Invariants (p : Pin) : Prop where
  /-- an output is an argument, and of a type that a code node can give back -/
  output : p.isOutput = true → p.isInternal = false ∧ p.outputType.isSome = true
    ∧ p.declaredType ∈ ["float", "float2", "float3", "float4"]
  exposed : p.isExposed = true → p.kind = .scalar ∨ p.kind = .vector4 ∨ p.kind.isTexture = true
  defaultVector : p.defaultVector.isSome = true
    ↔ p.defaultText ≠ "" ∧ p.kind ∈ [.scalar, .vector2, .vector3, .vector4]
  defaultBool : p.defaultBool = true → p.declaredType = "bool" ∧ p.defaultText = "true"
  noDefault : p.kind.isTexture = true ∨ p.kind = .materialAttributes →
    p.defaultText = "" ∧ p.defaultVector = none ∧ p.defaultBool = false

/-- A pin that is an argument by itself. -/
structure Pin.Standalone (p : Pin) : Prop where
  whole : p.isInternal = false
  name : IsOneWord p.name.toList
  type : p.declaredType = "bool" ∨ p.declaredType ∈ typeTable.keys
  kind : pinKind? p.declaredType = some p.kind
  outputType : p.outputType = outputType? p.declaredType

/-- The rows of a matrix, of which its declaration is made. -/
structure Resolution.IsMatrix (r : Resolution) (base : String) : Prop where
  word : IsOneWord base.toList
  names : r.pins.map (·.name) = [base ++ "0", base ++ "1", base ++ "2", base ++ "3"]
  rows : ∀ p ∈ r.pins, p.isInternal = true ∧ p.isExposed = true ∧ p.qualifier = .const
    ∧ p.kind = .vector4 ∧ p.defaultText = "" ∧ p.defaultVector = none ∧ p.defaultBool = false
  declaration : ∃ isConst : Bool, r.declaration = (if isConst then "const " else "")
    ++ "float4x4 " ++ base ++ " = float4x4(" ++ ", ".intercalate (r.pins.map (·.bindingName))
    ++ ");\n"

theorem isExposable_iff {k : PinKind} :
    k.isExposable = true ↔ k = .scalar ∨ k = .vector4 ∨ k.isTexture = true := by
  cases k <;> decide

theorem mem_of_isSome_outputType? {typeName : String} (h : (outputType? typeName).isSome = true) :
    typeName ∈ ["float", "float2", "float3", "float4"] := by
  obtain ⟨t, ht⟩ := Option.isSome_iff_exists.1 h
  obtain ⟨info, hinfo, houtput⟩ := Option.bind_eq_some_iff.1 ht
  exact (typeTable_spec hinfo).2 (by rw [houtput]; rfl)

/-- A value has components exactly if its type is one of numbers or vectors. -/
theorem isSome_vector?_iff {typeName text : String} {k : PinKind} (hkind : pinKind? typeName = some k)
    (hvalue : text ≠ "" → isValue typeName text = true) : (vector? typeName text).isSome = true
      ↔ text ≠ "" ∧ k ∈ [.scalar, .vector2, .vector3, .vector4] := by
  unfold pinKind? at hkind
  split_ifs at hkind with hbool
  · obtain rfl := Option.some.inj hkind
    rw [hbool, vector?_bool]
    simp
  · obtain ⟨info, hinfo, rfl⟩ := Option.map_eq_some_iff.1 hkind
    rw [isValue, if_neg hbool] at hvalue
    rw [← (typeTable_spec hinfo).1]
    constructor
    · intro hsome
      refine ⟨?_, ?_⟩
      · rintro rfl
        rw [vector?_empty] at hsome
        cases hsome
      · rw [vector?, hinfo, Option.bind_some, Pin.readVector?] at hsome
        exact Option.isSome_of_isSome_bind hsome
    · exact fun h => hvalue h.1

theorem noDefault_of_kind {typeName text : String} {k : PinKind} (hkind : pinKind? typeName = some k)
    (hk : k.isTexture = true ∨ k = .materialAttributes)
    (hvalue : text ≠ "" → isValue typeName text = true) :
    text = "" ∧ vector? typeName text = none ∧ (typeName = "bool" && text = "true" : Bool) = false := by
  have hbool : typeName ≠ "bool" := by
    rintro rfl
    obtain rfl := Option.some.inj (pinKind?_bool.symm.trans hkind)
    simp [PinKind.isTexture] at hk
  have hnone : k ∉ [.scalar, .vector2, .vector3, .vector4] := by
    revert hk
    cases k <;> decide
  have hvector : ¬(vector? typeName text).isSome = true := fun hsome =>
    hnone ((isSome_vector?_iff hkind hvalue).1 hsome).2
  refine ⟨?_, by simpa using hvector, by simp [hbool]⟩
  by_contra htext
  have hsome := hvalue htext
  rw [isValue, if_neg hbool] at hsome
  exact hvector hsome

theorem matrixResolution_isMatrix {name : String} {metadata : Metadata} (hname : IsOneWord name.toList)
    (hexposed : metadata.has exposeKey = true) (isConst : Bool) (tooltip : String) :
    (matrixResolution isConst name metadata tooltip).IsMatrix name where
  word := hname
  names := rfl
  rows p hp := by
    obtain ⟨i, -, rfl⟩ := List.mem_map.1 hp
    exact ⟨rfl, hexposed, rfl, rfl, rfl, rfl, rfl⟩
  declaration := ⟨isConst, rfl⟩

theorem Resolution.IsMatrix.invariants {base : String} {r : Resolution} (h : r.IsMatrix base) :
    ∀ p ∈ r.pins, p.Invariants := by
  intro p hp
  obtain ⟨-, -, hqualifier, hkind, htext, hvector, hbool⟩ := h.rows p hp
  refine ⟨?_, ?_, ?_, ?_, ?_⟩
  · simp [Pin.isOutput, hqualifier]
  · simp [hkind]
  · simp [hvector, htext]
  · simp [hbool]
  · simp [hkind, PinKind.isTexture]

namespace Spelling

variable {s : Spelling} {comment : String} {k : PinKind}

theorem standalone_ofType (hname : IsOneWord s.name)
    (hkind : pinKind? (String.ofList s.typeName) = some k) :
    ((s.untyped comment).ofType k).Standalone where
  whole := rfl
  name := by simpa [Pin.ofType, untyped] using hname
  type := exists_pinKind?_iff.1 ⟨k, hkind⟩
  kind := hkind
  outputType := rfl

theorem invariants_ofType (hkind : pinKind? (String.ofList s.typeName) = some k)
    (hdefault : s.default ≠ [] →
      isValue (String.ofList s.typeName) (String.ofList s.default) = true)
    (houtput : s.qualifier = .output → (outputType? (String.ofList s.typeName)).isSome = true)
    (hexposed : s.entries.has exposeKey = true → k.isExposable = true) :
    ((s.untyped comment).ofType k).Invariants := by
  have htext : String.ofList s.default ≠ "" ↔ s.default ≠ [] := by simp [String.ext_iff]
  have hvector := isSome_vector?_iff hkind fun hd => hdefault (htext.1 hd)
  refine ⟨fun hq => ?_, fun he => isExposable_iff.1 (hexposed he), hvector, fun hb => ?_, fun hk => ?_⟩
  · have hsome := houtput (by simpa [Pin.isOutput, Pin.ofType, untyped] using hq)
    exact ⟨rfl, hsome, mem_of_isSome_outputType? hsome⟩
  · rwa [Pin.ofType, Bool.and_eq_true, decide_eq_true_eq, decide_eq_true_eq] at hb
  · exact noDefault_of_kind hkind hk fun hd => hdefault (htext.1 hd)

end Spelling

/-- What an argument resolves to satisfies the invariants, whatever its text is. -/
theorem invariants_of_resolveArgument {raw comment : String} {r : Resolution}
    (h : resolveArgument raw comment = .ok r) : (∀ p ∈ r.pins, p.Invariants)
      ∧ (r = {} ∨ (∃ p, r = { pins := [p] } ∧ p.Standalone) ∨ ∃ base, r.IsMatrix base) := by
  obtain ⟨s, hread, ⟨-, hne⟩, hresolves⟩ := resolveArgument_eq_ok_iff.1 h
  have hname : IsOneWord s.name := ⟨hne, Spelling.named_of_read? hread⟩
  cases hresolves with
  | context | sampler => exact ⟨fun p hp => absurd hp List.not_mem_nil, .inl rfl⟩
  | matrix _ _ _ hexposed =>
    rw [← String.toList_ofList (l := s.name)] at hname
    have hmatrix := matrixResolution_isMatrix hname hexposed (s.qualifier = .const)
      (Tooltip.find (String.ofList s.name) comment)
    exact ⟨hmatrix.invariants, .inr (.inr ⟨_, hmatrix⟩)⟩
  | @pin k hkind hdefault houtput hexposed =>
    refine ⟨fun p hp => ?_, .inr (.inl ⟨_, rfl, Spelling.standalone_ofType hname hkind⟩)⟩
    obtain rfl := List.mem_singleton.1 hp
    exact Spelling.invariants_ofType hkind hdefault houtput hexposed

theorem invariants_of_exposed_matrix : ∃ r, resolveArgument "[Expose] const float4x4 World" "" = .ok r
    ∧ r.pins.length = 4 ∧ (∀ p ∈ r.pins, p.Invariants)
    ∧ (r = {} ∨ (∃ p, r = { pins := [p] } ∧ p.Standalone) ∨ ∃ base, r.IsMatrix base) := by
  have h : resolveArgument "[Expose] const float4x4 World" ""
      = .ok (matrixResolution true "World" [("Expose", "")] "") := by decide +kernel
  exact ⟨_, h, rfl, invariants_of_resolveArgument h⟩

end ShaderGraph
