import Mathlib.Data.List.Forall2
import Mathlib.Data.Prod.Basic
import ShaderGraph.Graph.Record
import ShaderGraph.Proofs.OrderedMap

/-!
# Artifacts read back

The document of an artifact is read as the record it was written from, with every field of every
part in its place and with every tree (`Artifact.ofJson_toJson_record`). No two artifacts have one
record, so nothing of an artifact is lost in it (`Artifact.record_injective`).
-/

namespace ShaderGraph

open Json

theorem ok_bind {ε α β : Type} (a : α) (f : α → Except ε β) : (Except.ok a >>= f) = f a := rfl

theorem mapM_eq_ok {ε α β : Type} {f : α → Except ε β} {as : List α} {bs : List β}
    (h : List.Forall₂ (fun a b => f a = .ok b) as bs) : as.mapM f = .ok bs := by
  induction h with
  | nil => rfl
  | cons ha _ ih =>
    rw [List.mapM_cons, ha, ih]
    rfl

namespace Json

/-- The items of a written array are read one by one. -/
theorem elementsBy_map {α : Type} {f : Json → Except DocumentError α} {write : α → Json}
    {xs : List α} (h : ∀ x ∈ xs, f (write x) = .ok x) :
    (array (xs.map write)).elementsBy f = .ok xs := by
  refine mapM_eq_ok ?_
  rw [List.forall₂_map_left_iff, List.forall₂_same]
  exact h

/-- An object that has the fields of a record, each once and in order, is read as it is. -/
theorem recordFields_object {fs : List RecordField} {ms : OrderedMap String Json}
    (hkeys : OrderedMap.keys ms = fs.map (·.name)) (hms : (OrderedMap.keys ms).Nodup) :
    recordFields fs (object ms) = .ok ms := by
  have hknown : (ms.all fun p => fs.any (·.name == p.1)) = true := by
    rw [List.all_eq_true]
    intro p hp
    obtain ⟨f, hf, hname⟩ := List.mem_map.1 (hkeys ▸ List.mem_map_of_mem hp : p.1 ∈ fs.map (·.name))
    exact List.any_eq_true.2 ⟨f, hf, by simp [hname]⟩
  have hpaired : ∀ (gs : List RecordField) (ns : OrderedMap String Json),
      OrderedMap.keys ns = gs.map (·.name) → ns ⊆ ms →
        List.Forall₂ (fun f p => f.name = p.1 ∧ p ∈ ms) gs ns := by
    intro gs
    induction gs with
    | nil =>
      intro ns hns _
      obtain rfl : ns = [] := List.map_eq_nil_iff.1 hns
      exact .nil
    | cons f gs ih =>
      intro ns hns hsub
      obtain ⟨p, ns, rfl, hp, hns⟩ := List.map_eq_cons_iff.1 hns
      obtain ⟨hmem, hsub⟩ := List.cons_subset.1 hsub
      exact .cons ⟨hp.symm, hmem⟩ (ih ns hns hsub)
  rw [recordFields, if_pos hknown]
  refine mapM_eq_ok ((hpaired fs ms hkeys (List.Subset.refl ms)).imp fun f p hp => ?_)
  rw [hp.1, OrderedMap.get?_of_mem hms hp.2]
  rfl

end Json

section

variable (n : InputNode) (p : ParameterNode) (o : OutputNode) (b : CodeBinding) (d : Define)

theorem InputNode.recordFields_fields : recordFields InputNode.fieldNames (.object n.fields) = .ok n.fields :=
  recordFields_object rfl (by simp [OrderedMap.keys, fields])

theorem ParameterNode.recordFields_fields :
    recordFields ParameterNode.fieldNames (.object p.fields) = .ok p.fields :=
  recordFields_object rfl (by simp [OrderedMap.keys, fields])

theorem OutputNode.recordFields_fields :
    recordFields OutputNode.fieldNames (.object o.fields) = .ok o.fields :=
  recordFields_object rfl (by simp [OrderedMap.keys, fields])

theorem CodeBinding.recordFields_fields :
    recordFields CodeBinding.fieldNames (.object b.fields) = .ok b.fields :=
  recordFields_object rfl (by simp [OrderedMap.keys, fields])

theorem Define.recordFields_fields : recordFields Define.fieldNames (.object d.fields) = .ok d.fields :=
  recordFields_object rfl (by simp [OrderedMap.keys, fields])

end

theorem TableRecord.ofJson_toJson (t : TableRecord) : ofJson t.toJson = .ok t := by
  have hfields : recordFields fieldNames t.toJson
      = .ok [("inputs", t.inputs), ("outputs", t.outputs), ("parameters", t.parameters)] :=
    recordFields_object rfl (by simp [OrderedMap.keys])
  rw [ofJson, hfields]
  rfl

theorem DecisionTree.ofJson_toJson : ∀ t : DecisionTree Json, ofJson t.toJson = .ok t
  | leaf w => by
    simp [toJson, ofJson, OrderedMap.get?, leafOfJson, require, int, toInteger]
  | switch pin t f => by
    simp [toJson, ofJson, OrderedMap.get?, ofMember, ofJson_toJson t, ofJson_toJson f]

theorem VariantRecord.ofJson_toJson_record (v : Variant) : ofJson v.record.toJson = .ok v.record := by
  have hbindings : elementsBy (recordFields CodeBinding.fieldNames) (.array (v.record.bindings.map .object))
      = .ok v.record.bindings := by
    refine elementsBy_map fun b hb => ?_
    obtain ⟨b, -, rfl⟩ := List.mem_map.1 hb
    exact b.recordFields_fields
  have houtputs : elementsBy twoParts (.array (v.record.additionalOutputs.map fun o => .array [o.1, o.2]))
      = .ok v.record.additionalOutputs :=
    elementsBy_map fun _ _ => rfl
  have hvalues : keyedValues (.object (v.record.boolValues.map fun p => (keyText p.1, p.2)))
      = .ok v.record.boolValues := by
    simp [keyedValues, Variant.record, keyText]
  simp [ofJson, toJson, require, OrderedMap.get?, ok_bind, hvalues, hbindings, houtputs]

theorem ArtifactRecord.treesOfJson_toJson (ts : OrderedMap String (DecisionTree Json)) :
    treesOfJson (.object (ts.map fun p => (p.1, p.2.toJson))) = .ok ts := by
  refine mapM_eq_ok ?_
  rw [List.forall₂_map_left_iff, List.forall₂_same]
  intro p _
  rw [DecisionTree.ofJson_toJson]
  rfl

theorem ArtifactRecord.elementsBy_fields {α : Type} {fs : List RecordField} {fields : α → Fields}
    (h : ∀ x, recordFields fs (.object (fields x)) = .ok (fields x)) (xs : List α) :
    elementsBy (recordFields fs) (.array ((xs.map fields).map .object)) = .ok (xs.map fields) := by
  refine elementsBy_map fun x hx => ?_
  obtain ⟨x, -, rfl⟩ := List.mem_map.1 hx
  exact h x

/-- The document of an artifact is read as the record it was written from. -/
theorem Artifact.ofJson_toJson_record (a : Artifact) :
    ArtifactRecord.ofJson a.record.toJson = .ok a.record := by
  have hvariants : elementsBy VariantRecord.ofJson (.array (a.record.variants.map (·.toJson)))
      = .ok a.record.variants := by
    refine elementsBy_map fun v hv => ?_
    obtain ⟨v, -, rfl⟩ := List.mem_map.1 hv
    exact VariantRecord.ofJson_toJson_record v
  have hinputs : elementsBy (recordFields InputNode.fieldNames) (.array (a.record.inputs.map .object))
      = .ok a.record.inputs :=
    ArtifactRecord.elementsBy_fields InputNode.recordFields_fields a.inputs
  have hparameters : elementsBy (recordFields ParameterNode.fieldNames)
      (.array (a.record.parameters.map .object)) = .ok a.record.parameters :=
    ArtifactRecord.elementsBy_fields ParameterNode.recordFields_fields a.parameters
  have houtputs : elementsBy (recordFields OutputNode.fieldNames)
      (.array (a.record.outputs.map .object)) = .ok a.record.outputs :=
    ArtifactRecord.elementsBy_fields OutputNode.recordFields_fields a.outputs
  have hdefines : elementsBy (recordFields Define.fieldNames)
      (.array (a.record.additionalDefines.map .object)) = .ok a.record.additionalDefines :=
    ArtifactRecord.elementsBy_fields Define.recordFields_fields a.additionalDefines
  have htrees := ArtifactRecord.treesOfJson_toJson a.record.outputTrees
  have htable := TableRecord.ofJson_toJson a.record.identifiers
  simp [ArtifactRecord.ofJson, ArtifactRecord.toJson, require, memberOr, member?, OrderedMap.get?,
    ArtifactRecord.partsOf, elements, elements?, ok_bind, hinputs, hparameters, houtputs, hvariants,
    htrees, hdefines, htable]

/-! ## Nothing is lost in a record -/

namespace Json

theorem string_injective : Function.Injective string := fun _ _ => string.inj

theorem optional_injective {α : Type} {f : α → Json} (hf : Function.Injective f)
    (hnull : ∀ a, f a ≠ null) : Function.Injective (optional f)
  | none, none, _ => rfl
  | some _, some _, h => congrArg some (hf h)
  | none, some b, h => absurd h.symm (hnull b)
  | some a, none, h => absurd h (hnull a)

theorem number_injective : Function.Injective number := fun _ _ => number.inj

theorem optional_numbers_injective :
    Function.Injective (optional fun v : List Number => array (v.map number)) :=
  optional_injective (fun _ _ h => number_injective.list_map (array.inj h)) fun _ h => nomatch h

theorem bool_injective : Function.Injective bool := fun _ _ => bool.inj

theorem int_injective : Function.Injective int := fun _ _ h => Number.whole.inj (number.inj h)

end Json

theorem InputNode.fields_injective : Function.Injective InputNode.fields := by
  rintro ⟨⟩ ⟨⟩ h
  have hbool := optional_injective bool_injective fun _ h => nomatch h
  simp only [fields, List.cons.injEq, Prod.mk.injEq, true_and, and_true, string.injEq,
    int_injective.eq_iff, optional_numbers_injective.eq_iff, hbool.eq_iff] at h
  simpa only [InputNode.mk.injEq] using h

theorem ParameterNode.fields_injective : Function.Injective ParameterNode.fields := by
  rintro ⟨⟩ ⟨⟩ h
  simp only [fields, List.cons.injEq, Prod.mk.injEq, true_and, and_true, string.injEq,
    int_injective.eq_iff, optional_numbers_injective.eq_iff] at h
  simpa only [ParameterNode.mk.injEq] using h

theorem OutputNode.fields_injective : Function.Injective OutputNode.fields := by
  rintro ⟨⟩ ⟨⟩ h
  simp only [fields, List.cons.injEq, Prod.mk.injEq, true_and, and_true, string.injEq,
    int_injective.eq_iff] at h
  simpa only [OutputNode.mk.injEq] using h

theorem CodeBinding.fields_injective : Function.Injective CodeBinding.fields := by
  rintro ⟨⟩ ⟨⟩ h
  simp only [fields, List.cons.injEq, Prod.mk.injEq, true_and, and_true, string.injEq] at h
  simpa only [CodeBinding.mk.injEq] using h

theorem Define.fields_injective : Function.Injective Define.fields := by
  rintro ⟨⟩ ⟨⟩ h
  simp only [fields, List.cons.injEq, Prod.mk.injEq, true_and, and_true, string.injEq] at h
  simpa only [Define.mk.injEq] using h

theorem Variant.record_injective : Function.Injective Variant.record := by
  rintro ⟨⟩ ⟨⟩ h
  have hvalues : Function.Injective fun p : String × Bool => (string p.1, Json.bool p.2) :=
    string_injective.prodMap bool_injective
  have houtputs : Function.Injective fun o : String × String => (string o.1, string o.2) :=
    string_injective.prodMap string_injective
  simp only [record, VariantRecord.mk.injEq, int_injective.eq_iff, string.injEq,
    hvalues.list_map.eq_iff, CodeBinding.fields_injective.list_map.eq_iff,
    houtputs.list_map.eq_iff] at h
  simpa only [Variant.mk.injEq] using h

theorem IdentifierTable.record_injective : Function.Injective IdentifierTable.record := by
  rintro ⟨⟩ ⟨⟩ h
  simp only [record, TableRecord.mk.injEq, object.injEq] at h
  simpa only [IdentifierTable.mk.injEq] using h

theorem DecisionTree.map_injective {α β : Type} {f : α → β} (hf : Function.Injective f) :
    Function.Injective (map f)
  | leaf _, leaf _, h => by
    rw [leaf.inj h]
  | switch _ t u, switch _ t' u', h => by
    obtain ⟨hpin, ht, hu⟩ := switch.inj h
    rw [hf hpin, map_injective hf ht, map_injective hf hu]
  | leaf _, switch .., h => nomatch h
  | switch .., leaf _, h => nomatch h

/-- No two artifacts have one record. -/
theorem Artifact.record_injective : Function.Injective Artifact.record := by
  rintro ⟨⟩ ⟨⟩ h
  have htrees : Function.Injective fun p : String × DecisionTree String => (p.1, p.2.map string) :=
    Function.injective_id.prodMap (DecisionTree.map_injective string_injective)
  have hindex := optional_injective int_injective fun _ h => nomatch h
  simp only [record, ArtifactRecord.mk.injEq, string.injEq, string_injective.list_map.eq_iff,
    InputNode.fields_injective.list_map.eq_iff, ParameterNode.fields_injective.list_map.eq_iff,
    OutputNode.fields_injective.list_map.eq_iff, Variant.record_injective.list_map.eq_iff,
    htrees.list_map.eq_iff, Define.fields_injective.list_map.eq_iff, hindex.eq_iff,
    IdentifierTable.record_injective.eq_iff] at h
  simpa only [Artifact.mk.injEq] using h

end ShaderGraph
