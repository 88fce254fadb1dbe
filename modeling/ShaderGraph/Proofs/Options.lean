import ShaderGraph.Project.Basic
import ShaderGraph.Proofs.Fingerprint
import ShaderGraph.Proofs.FlowStyle

/-!
# What a fingerprint tells about options

The options of a library enter a fingerprint as a page in flow style, from which they can be read
again. So a function has the same fingerprint under two configurations only if the options that are
written on the page are the same, and compiler errors point at the function under both or neither.
-/

namespace ShaderGraph

open Text Yaml

namespace Library

/-- The signs of some defines. -/
def definesSigns (defines : List Define) : List Sign :=
  (defines.map fun d => .opening :: Sign.texts [d.name, d.value] ++ [.closing]).flatten

theorem definesSigns_append_closing_inj : ∀ {ds ds' : List Define} {ts ts' : List Sign},
    definesSigns ds ++ .closing :: ts = definesSigns ds' ++ .closing :: ts' → ds = ds' ∧ ts = ts'
  | [], [], _, _, h => ⟨rfl, (List.cons.inj h).2⟩
  | [], _ :: _, _, _, h => nomatch (List.cons.inj h).1
  | _ :: _, [], _, _, h => nomatch (List.cons.inj h).1
  | ⟨name, value⟩ :: ds, ⟨name', value'⟩ :: ds', ts, ts', h => by
    simp only [definesSigns, Sign.texts, List.map_cons, List.map_nil, List.flatten_cons,
      List.cons_append, List.nil_append, List.cons.injEq, true_and, Sign.scalar.injEq,
      String.toList_inj] at h
    obtain ⟨rfl, rfl, htail⟩ := h
    obtain ⟨hds, hts⟩ := definesSigns_append_closing_inj htail
    exact ⟨congrArg (_ :: ·) hds, hts⟩

theorem writes_defines (defines : List Define) :
    Writes 3 (.sequence (defines.map fun d => .texts [d.name, d.value]))
      (.opening :: definesSigns defines ++ [.closing]) := by
  refine writes_sequence ?_
  rw [List.forall₂_map_left_iff, List.forall₂_map_right_iff]
  exact List.forall₂_same.2 fun d _ => writes_texts [d.name, d.value]

/-- What can be read of the options of a library. -/
theorem signs_metadata (l : Library) :
    (FlowReader.read {} l.metadata.toList).signs
      = .opening :: .scalar "additional_defines".toList
        :: .opening :: (definesSigns l.additionalDefines ++ .closing
        :: .scalar "categories".toList
        :: .opening :: (Sign.texts l.categories ++ .closing
        :: .scalar "include_file_paths".toList
        :: .opening :: (Sign.texts l.includeFilePaths ++ [.closing, .closing]))) := by
  have hfields : List.Forall₂ (fun f => Writes 3 f.2)
      [("additional_defines",
          .sequence (l.additionalDefines.map fun d => .texts [d.name, d.value])),
        ("categories", .texts l.categories), ("include_file_paths", .texts l.includeFilePaths)]
      [.opening :: definesSigns l.additionalDefines ++ [.closing],
        .opening :: Sign.texts l.categories ++ [.closing],
        .opening :: Sign.texts l.includeFilePaths ++ [.closing]] :=
    .cons (writes_defines l.additionalDefines) (.cons ((writes_texts l.categories).mono (by decide))
      (.cons ((writes_texts l.includeFilePaths).mono (by decide)) .nil))
  have hkeys : ∀ name ∈ ["additional_defines", "categories", "include_file_paths"],
      isSimpleKey (.text name) = true := by decide +kernel
  rw [metadata, read_renderFlow (by decide) (by decide) hfields fun f hf => hkeys f.1 ?_]
  · simp [Sign.fields]
  · simpa using List.mem_map_of_mem (f := Prod.fst) hf

/-- The options that are written out can be read again. -/
theorem options_eq_of_metadata_eq {l l' : Library} (h : l.metadata = l'.metadata) :
    l.additionalDefines = l'.additionalDefines ∧ l.categories = l'.categories
      ∧ l.includeFilePaths = l'.includeFilePaths := by
  have hsigns := l.signs_metadata
  rw [h, l'.signs_metadata] at hsigns
  simp only [List.cons.injEq, true_and] at hsigns
  obtain ⟨hdefines, htail⟩ := definesSigns_append_closing_inj hsigns
  simp only [List.cons.injEq, true_and] at htail
  obtain ⟨hcategories, htail⟩ := Sign.texts_append_closing_inj htail
  simp only [List.cons.injEq, true_and] at htail
  exact ⟨hdefines.symm, hcategories.symm, (Sign.texts_append_closing_inj htail).1.symm⟩

end Library

namespace Fingerprint

theorem toList_toString_ne_nil {n : Int} (h : 0 ≤ n) : (toString n).toList ≠ [] := by
  obtain ⟨m, rfl⟩ := Int.eq_ofNat_of_zero_le h
  change (Nat.repr m).toList ≠ []
  rw [Nat.toList_repr]
  exact List.ne_nil_of_length_pos Nat.length_toDigits_pos

/-- A function whose surroundings are the same has the same digested text under the same options
only. -/
theorem options_eq_of_content_eq {f : ShaderFunction} (hf : f.Scanned) {dependencies : String}
    {accurateErrors accurateErrors' : Bool} {options options' : String}
    (h : content f dependencies accurateErrors options
      = content f dependencies accurateErrors' options') :
    accurateErrors = accurateErrors' ∧ options = options' := by
  have hline : ∀ b : Bool, ' ' ∉ (if b then toString f.startLine else "").toList := by
    intro b
    split_ifs
    · exact blank_not_mem_toString hf.startLine
    · simp
  have hlists := congrArg String.toList h
  rw [toList_content, toList_content, List.cons_inj_right, List.cons_inj_right] at hlists
  obtain ⟨hlines, hrest⟩ := append_cons_inj_of_not_mem (hline _) (hline _) hlists
  rw [List.append_cancel_left_eq, List.cons_inj_right, List.append_cancel_right_eq,
    String.toList_inj] at hrest
  refine ⟨?_, hrest⟩
  have hne := toList_toString_ne_nil hf.startLine
  cases accurateErrors <;> cases accurateErrors'
  · rfl
  · exact absurd hlines.symm hne
  · exact absurd hlines hne
  · rfl

end Fingerprint

end ShaderGraph
