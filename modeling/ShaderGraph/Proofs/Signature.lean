import Mathlib.Data.List.Forall2
import ShaderGraph.Proofs.Resolves

/-!
# The pins of a signature

An argument resolves to no pin, to the rows of a matrix or to one pin that has been typed and
checked, and every pin of a signature comes from one of its arguments. So a pin that chooses between
variants is never part of a matrix.
-/

namespace ShaderGraph

namespace Pin

/-- What typing can make of a pin: `bool` is told apart from the types of the table. -/
theorem typed_cases {p q : Pin} (h : p.typed = .ok q) :
    (p.declaredType = "bool" ∧ ∃ b, q = { p with kind := .staticBool, defaultBool := b })
    ∨ ∃ info v, typeTable.get? p.declaredType = some info
      ∧ q = { p with kind := info.kind, outputType := info.output, defaultVector := v } := by
  unfold typed at h
  simp only [] at h
  split_ifs at h with hbool
  · exact Or.inl ⟨hbool, true, (Except.ok.inj h).symm⟩
  · exact Or.inl ⟨hbool, p.defaultBool, (Except.ok.inj h).symm⟩
  · exact Or.inl ⟨hbool, p.defaultBool, (Except.ok.inj h).symm⟩
  · split at h
    · cases h
    · rename_i info hinfo
      split at h
      · cases h
      · rename_i v _
        exact Or.inr ⟨info, some v, hinfo, (Except.ok.inj h).symm⟩
  · split at h
    · cases h
    · rename_i info hinfo
      exact Or.inr ⟨info, p.defaultVector, hinfo, (Except.ok.inj h).symm⟩

end Pin

/-- What an argument with a name can resolve to. -/
inductive Resolution.From (name : String) : Resolution → Prop
  | none : From name {}
  | matrix (isConst : Bool) (metadata : Metadata) (tooltip : String) :
    From name (matrixResolution isConst name metadata tooltip)
  | pin {p q : Pin} (hname : p.name = name) (hpart : p.isInternal = false)
    (houtput : p.outputType = .none) (htyped : p.typed = .ok q) (hchecked : q.checked = .ok q) :
    From name { pins := [q] }

theorem Spelling.Resolves.from {s : Spelling} {comment : String} {r : Resolution}
    (h : s.Resolves comment r) : r.From (String.ofList s.name) := by
  cases h with
  | context | sampler => exact .none
  | matrix => exact .matrix _ _ _
  | pin hkind hdefault houtput hexposed =>
    exact .pin (p := s.untyped comment) rfl rfl rfl (typed_untyped hkind hdefault)
      (checked_ofType houtput hexposed)

theorem resolveArgument_from {raw comment : String} {r : Resolution}
    (h : resolveArgument raw comment = .ok r) :
    ∃ s, Spelling.read? raw.toList = some s ∧ r.From (String.ofList s.name) := by
  obtain ⟨s, hread, -, hresolves⟩ := resolveArgument_eq_ok_iff.1 h
  exact ⟨s, hread, hresolves.from⟩

namespace Signature

/-- A signature that is made of what its arguments resolve to, in their order. -/
structure MadeOf (t : Signature) (rs : List Resolution) : Prop where
  inputs : t.inputs = (rs.flatMap (·.pins)).filter fun p => !p.isOutput
  outputs : t.outputs = (rs.flatMap (·.pins)).filter fun p => p.isOutput
  declarations : t.declarations = String.join (rs.map (·.declaration))

theorem MadeOf.extend {s : Signature} {rs : List Resolution} (h : s.MadeOf rs) (r : Resolution) :
    (s.extend r).MadeOf (rs ++ [r]) := by
  refine ⟨?_, ?_, ?_⟩ <;> simp [Signature.extend, h.inputs, h.outputs, h.declarations]

/-- What the arguments to come resolve to is added to what is there. -/
theorem exists_resolutions_of_extendAll {comment : String} {t : Signature} :
    ∀ {raws : List String} {s : Signature} {before : List Resolution}, s.MadeOf before →
      s.extendAll comment raws = .ok t →
      ∃ rs, List.Forall₂ (fun raw r => resolveArgument raw comment = .ok r) raws rs
        ∧ t.MadeOf (before ++ rs)
  | [], s, before, hs, h => by
    cases h
    exact ⟨[], .nil, by rwa [List.append_nil]⟩
  | raw :: raws, s, before, hs, h => by
    unfold extendAll at h
    split at h
    · cases h
    · rename_i r hr
      obtain ⟨rs, hrs, ht⟩ := exists_resolutions_of_extendAll (hs.extend r) h
      exact ⟨r :: rs, .cons hr hrs, by rwa [List.append_assoc] at ht⟩

end Signature

theorem ShaderFunction.exists_resolutions {f : ShaderFunction} {s : Signature}
    (h : f.signature = .ok s) :
    ∃ rs, List.Forall₂ (fun raw r => resolveArgument raw f.comment = .ok r) f.arguments rs
      ∧ s.MadeOf rs := by
  unfold ShaderFunction.signature at h
  split_ifs at h
  have hstart : Signature.MadeOf {} [] := ⟨rfl, rfl, rfl⟩
  exact Signature.exists_resolutions_of_extendAll hstart h

theorem exists_left_of_forall₂ {α β : Type} {R : α → β → Prop} {as : List α} {bs : List β}
    (h : List.Forall₂ R as bs) {b : β} (hb : b ∈ bs) : ∃ a ∈ as, R a b := by
  induction h with
  | nil => cases hb
  | cons hab _ ih =>
    rcases List.mem_cons.1 hb with rfl | hb
    · exact ⟨_, List.mem_cons_self, hab⟩
    · obtain ⟨a, ha, hab⟩ := ih hb
      exact ⟨a, List.mem_cons_of_mem _ ha, hab⟩

/-- Every pin comes from an argument. -/
theorem exists_argument_of_mem {f : ShaderFunction} {s : Signature} (h : f.signature = .ok s)
    {p : Pin} (hp : p ∈ s.inputs ∨ p ∈ s.outputs) :
    ∃ raw r, resolveArgument raw f.comment = .ok r ∧ p ∈ r.pins := by
  obtain ⟨rs, hrs, hmade⟩ := f.exists_resolutions h
  rw [hmade.inputs, hmade.outputs] at hp
  have hpin : p ∈ rs.flatMap (·.pins) :=
    hp.elim (fun hp => (List.mem_filter.1 hp).1) fun hp => (List.mem_filter.1 hp).1
  obtain ⟨r, hr, hpr⟩ := List.mem_flatMap.1 hpin
  obtain ⟨raw, -, hraw⟩ := exists_left_of_forall₂ hrs hr
  exact ⟨raw, r, hraw, hpr⟩

end ShaderGraph
