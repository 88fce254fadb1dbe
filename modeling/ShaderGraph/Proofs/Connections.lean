import ShaderGraph.Proofs.Declarations
import ShaderGraph.Proofs.Variants

/-!
# The parts of an artifact fit together

The nodes, code nodes and trees of an artifact are made apart from each other and refer to each
other by name and number: a switch to an input node, a leaf to a variant, a binding to the node that
is its source, and the declarations of a variant to its bindings. All of them are made from the
pins of one signature, so what is referred to is there.
-/

namespace ShaderGraph

open Text

/-- The pins of the switches of a tree. -/
def DecisionTree.pins {α : Type} : DecisionTree α → List α
  | leaf _ => []
  | switch pin t e => pin :: (t.pins ++ e.pins)

theorem DecisionTree.mem_of_mem_pins_block {α : Type} {pin : α} :
    ∀ {ps : List α} {j : Nat}, pin ∈ (block ps j).pins → pin ∈ ps
  | [], _, h => h
  | p :: ps, j, h => by
    rw [block, pins] at h
    rcases List.mem_cons.1 h with rfl | h
    · exact List.mem_cons_self
    · exact List.mem_cons_of_mem _
        ((List.mem_append.1 h).elim mem_of_mem_pins_block mem_of_mem_pins_block)

theorem DecisionTree.mem_of_mem_pins {α : Type} {pin : α} {ps : List α}
    (h : pin ∈ (ofPins ps).pins) : pin ∈ ps := by
  rw [ofPins_eq_block] at h
  exact List.mem_reverse.1 (mem_of_mem_pins_block h)

/-- The parts of the artifact of a function refer to parts that are there. -/
structure Artifact.Connected (a : Artifact) (f : ShaderFunction) (s : Signature)
    (context : GenerationContext) : Prop where
  /-- the pins are those of the arguments, in their order -/
  declared : ∃ rs, List.Forall₂ (fun raw r => resolveArgument raw f.comment = .ok r) f.arguments rs
    ∧ s.MadeOf rs
  /-- each input that is not exposed has an input node, in the order of the pins -/
  inputs : a.inputs.map (fun n => (n.pinName, n.kind))
    = (s.inputs.filter fun p => !p.isExposed).map fun p => (p.name, p.kind.label)
  /-- each exposed input has a parameter node, in the order of the pins -/
  parameters : a.parameters.map (fun n => (n.parameterName, n.kind))
    = (s.inputs.filter fun p => p.isExposed).map fun p => (p.name, p.kind.label)
  outputs : a.outputs.map (·.name) = s.outputs.map (·.name)
  inputPriorities : a.inputs.map (·.sortPriority) = (List.range a.inputs.length).map Int.ofNat
  outputPriorities : a.outputs.map (·.sortPriority) = (List.range a.outputs.length).map Int.ofNat
  /-- there is a variant for each assignment of the bool inputs -/
  variants : a.variants.map (·.index) = (List.range (2 ^ s.boolInputs.length)).map Int.ofNat
  /-- the outputs have trees, and nothing else has -/
  trees : ∀ name, name ∈ OrderedMap.keys a.outputTrees ↔ name ∈ a.outputs.map (·.name)
  switches : ∀ t ∈ a.outputTrees, ∀ pin ∈ t.2.pins,
    ∃ n ∈ a.inputs, n.pinName = pin ∧ n.kind = PinKind.staticBool.label
  leaves : ∀ t ∈ a.outputTrees, ∀ w ∈ t.2.leaves, ∃ v ∈ a.variants, v.index = w
  /-- a variant has all outputs, each with the type that its declared type has as an output -/
  additionalOutputs : ∀ v ∈ a.variants, List.Forall₂ (fun o p => o.1 = p.name
      ∧ ∃ info t, OrderedMap.get? typeTable p.declaredType = some info ∧ info.output = some t
        ∧ o.2 = t.label) v.additionalOutputs s.outputs
  sources : ∀ v ∈ a.variants, ∀ b ∈ v.bindings, (∃ n ∈ a.inputs, n.pinName = b.source)
    ∨ (∃ n ∈ a.parameters, n.parameterName = b.source)
    ∨ ∃ n : Nat, a.texCoordinateIndex = some n ∧ b.source = "TexCoord[" ++ toString n ++ "]"
  code : ∀ v ∈ a.variants,
    v.code = Code.ofFunction f (Code.declarations s v.boolValues) a.fingerprint context
  /-- what the declarations of a variant receive is bound, and a sampler belongs to a texture that
  is bound -/
  bound : ∀ v ∈ a.variants, ∀ w ∈ Code.usedWords (Code.declarations s v.boolValues).toList,
    "INTERNAL_IN_".toList <+: w → (∃ b ∈ v.bindings, w = b.name.toList)
      ∨ ∃ p ∈ s.inputs, p.kind.isTexture = true ∧ (⟨p.bindingName, p.name⟩ : CodeBinding) ∈ v.bindings
        ∧ w = (p.bindingName ++ "Sampler").toList

namespace Artifact

variable {f : ShaderFunction} {s : Signature} {tag : String} {context : GenerationContext}
  {t : IdentifierTable} {n : Option Nat}

theorem exists_input {p : Pin} (hp : p ∈ s.inputs) (he : p.isExposed = false) :
    ∃ node ∈ (withIdentifiers f s tag context t n).inputs,
      node.pinName = p.name ∧ node.kind = p.kind.label := by
  have hmem : p ∈ s.hiddenInputs := List.mem_filter.2 ⟨hp, by rw [he]; rfl⟩
  obtain ⟨i, hi, rfl⟩ := List.getElem_of_mem hmem
  exact ⟨_, List.mem_mapIdx.2 ⟨i, hi, rfl⟩, rfl, rfl⟩

theorem exists_parameter {p : Pin} (hp : p ∈ s.inputs) (he : p.isExposed = true) :
    ∃ node ∈ (withIdentifiers f s tag context t n).parameters, node.parameterName = p.name :=
  ⟨p.parameterNode t, List.mem_map_of_mem (List.mem_filter.2 ⟨hp, he⟩), rfl⟩

theorem mem_variants {v : Variant} (hv : v ∈ (withIdentifiers f s tag context t n).variants) :
    ∃ w < 2 ^ s.boolInputs.length, v = variant f s tag context n w := by
  obtain ⟨w, hw, rfl⟩ := List.mem_map.1 hv
  exact ⟨w, List.mem_range.1 hw, rfl⟩

theorem exists_variant {w : Nat} (hw : w < 2 ^ s.boolInputs.length) :
    ∃ v ∈ (withIdentifiers f s tag context t n).variants, v.index = w :=
  ⟨variant f s tag context n w, List.mem_map_of_mem (List.mem_range.2 hw), rfl⟩

theorem mem_outputTrees {tree : String × DecisionTree String}
    (ht : tree ∈ (withIdentifiers f s tag context t n).outputTrees) :
    tree.2 = DecisionTree.ofPins s.boolNames := by
  obtain ⟨p, -, rfl⟩ := List.mem_map.1 (OrderedMap.mem_of_mem_ofPairs ht)
  rfl

theorem forall₂_additionalOutputs (hs : f.signature = .ok s) :
    List.Forall₂ (fun o p => o.1 = p.name ∧ ∃ info t, OrderedMap.get? typeTable p.declaredType
      = some info ∧ info.output = some t ∧ o.2 = t.label) s.additionalOutputs s.outputs := by
  obtain ⟨rs, -, hmade⟩ := f.exists_resolutions hs
  have houtput : ∀ p ∈ s.outputs, ∃ info t, OrderedMap.get? typeTable p.declaredType = some info
      ∧ info.output = some t ∧ p.outputType = some t := by
    intro p hp
    have hp' := hp
    rw [hmade.outputs] at hp'
    exact (resolved_of_mem hs (.inr hp)).output (List.mem_filter.1 hp').2
  unfold Signature.additionalOutputs
  revert houtput
  induction s.outputs with
  | nil => exact fun _ => .nil
  | cons p ps ih =>
    intro houtput
    obtain ⟨info, t, hinfo, ht, hpt⟩ := houtput p List.mem_cons_self
    rw [List.filterMap_cons, hpt]
    exact .cons ⟨rfl, info, t, hinfo, ht, rfl⟩ (ih fun q hq => houtput q (List.mem_cons_of_mem _ hq))

/-- The inputs that are not bool are bound. -/
theorem mem_bindings {p : Pin} (hp : p ∈ s.inputs) (hkind : p.kind ≠ .staticBool) :
    (⟨p.bindingName, p.name⟩ : CodeBinding) ∈ s.bindings n :=
  List.mem_append_left _
    (List.mem_map_of_mem (List.mem_filter.2 ⟨hp, bne_iff_ne.2 hkind⟩))

theorem map_sortPriority_mapIdx {α β : Type} (priority : β → Int) (g : Nat → α → β)
    (hg : ∀ i a, priority (g i a) = i) (as : List α) :
    (as.mapIdx g).map priority = (List.range (as.mapIdx g).length).map Int.ofNat := by
  refine List.ext_getElem (by simp) fun i h₁ h₂ => ?_
  simp [hg]

theorem map_name_outputs :
    (withIdentifiers f s tag context t n).outputs.map (·.name) = s.outputs.map (·.name) := by
  refine List.ext_getElem (by simp [withIdentifiers]) fun i h₁ h₂ => ?_
  simp [withIdentifiers, Pin.outputNode]

theorem connected_withIdentifiers (hs : f.signature = .ok s) :
    (withIdentifiers f s tag context t n).Connected f s context where
  declared := f.exists_resolutions hs
  inputs := by
    refine List.ext_getElem (by simp [withIdentifiers, Signature.hiddenInputs]) fun i h₁ h₂ => ?_
    simp [withIdentifiers, Signature.hiddenInputs, Pin.inputNode]
  parameters := by
    simp [withIdentifiers, Signature.exposedInputs, Pin.parameterNode]
  outputs := map_name_outputs
  inputPriorities :=
    map_sortPriority_mapIdx InputNode.sortPriority (fun i (p : Pin) => p.inputNode i t)
      (fun _ _ => rfl) _
  outputPriorities :=
    map_sortPriority_mapIdx OutputNode.sortPriority (fun i (p : Pin) => p.outputNode i t)
      (fun _ _ => rfl) _
  variants := by
    rw [withIdentifiers, List.map_map]
    rfl
  trees name := by
    rw [map_name_outputs, withIdentifiers, OrderedMap.mem_keys_ofPairs, List.map_map]
    rfl
  switches tree ht pin hpin := by
    rw [mem_outputTrees ht] at hpin
    obtain ⟨p, hp, rfl⟩ := List.mem_map.1 (DecisionTree.mem_of_mem_pins hpin)
    obtain ⟨hin, hkind⟩ := List.mem_filter.1 hp
    have hbool : p.kind = .staticBool := eq_of_beq hkind
    obtain ⟨node, hnode, hname, hlabel⟩ :=
      exists_input hin ((resolved_of_mem hs (.inl hin)).hidden hbool)
    exact ⟨node, hnode, hname, by rw [hlabel, hbool]⟩
  leaves tree ht w hw := by
    rw [mem_outputTrees ht, DecisionTree.leaves_ofPins] at hw
    obtain ⟨i, hi, rfl⟩ := List.mem_map.1 hw
    have hlen : s.boolNames.length = s.boolInputs.length := List.length_map _
    exact exists_variant (hlen ▸ List.mem_range.1 hi)
  additionalOutputs v hv := by
    obtain ⟨w, -, rfl⟩ := mem_variants hv
    exact forall₂_additionalOutputs hs
  sources v hv b hb := by
    obtain ⟨w, -, rfl⟩ := mem_variants hv
    rcases List.mem_append.1 hb with hb | hb
    · obtain ⟨p, hp, rfl⟩ := List.mem_map.1 hb
      have hin := (List.mem_filter.1 hp).1
      cases he : p.isExposed with
      | false =>
        obtain ⟨node, hnode, hname, -⟩ := exists_input hin he
        exact .inl ⟨node, hnode, hname⟩
      | true => exact .inr (.inl (exists_parameter hin he))
    · obtain ⟨k, hk, rfl⟩ := Option.map_eq_some_iff.1 (Option.mem_toList.1 hb)
      refine .inr (.inr ⟨k, ?_, rfl⟩)
      rw [withIdentifiers, hk]
      rfl
  code v hv := by
    obtain ⟨w, -, rfl⟩ := mem_variants hv
    rfl
  bound v hv w hw hbinding := by
    obtain ⟨i, -, rfl⟩ := mem_variants hv
    cases (Code.usesOnly_declarations hs _).allowed_of_mem hw with
    | unbound h => exact absurd hbinding h
    | binding hp hkind => exact .inl ⟨_, mem_bindings hp hkind, rfl⟩
    | @sampler p hp hkind =>
      have hbool : p.kind ≠ .staticBool := fun h => by
        rw [h] at hkind
        cases hkind
      exact .inr ⟨p, hp, hkind, mem_bindings hp hbool, rfl⟩

end Artifact

end ShaderGraph
