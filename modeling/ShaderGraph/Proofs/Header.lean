import ShaderGraph.Proofs.Occurrences
import ShaderGraph.Update.Library

/-!
# Fingerprints in headers

A fingerprint is looked for in the whole header of an artifact. It is one line, and all fingerprints
have the same length, so it is the last line of the header or stands in a line with a name.
-/

namespace ShaderGraph

open Text

namespace Text

theorem isSome_cutAt? {p : List Char} : ∀ {cs : List Char}, (cutAt? p cs).isSome = true ↔ p <:+: cs
  | [] => by
    cases h : dropLiteral? p [] with
    | none =>
      have hp : p ≠ [] := by
        rintro rfl
        cases h
      simp [cutAt?, h, hp]
    | some r =>
      obtain ⟨rfl, -⟩ := List.append_eq_nil_iff.1 (dropLiteral?_eq_some_iff.1 h).symm
      simp [cutAt?, h]
  | c :: cs => by
    rw [cutAt?, List.infix_cons_iff]
    cases h : dropLiteral? p (c :: cs) with
    | none =>
      have hp : ¬ p <+: c :: cs := by
        rintro ⟨r, hr⟩
        rw [dropLiteral?_eq_some_iff.2 hr.symm] at h
        cases h
      simp [hp, isSome_cutAt?]
    | some r =>
      have hp : p <+: c :: cs := ⟨r, (dropLiteral?_eq_some_iff.1 h).symm⟩
      simp [hp]

theorem contains_iff {s p : String} : contains s p = true ↔ p.toList <:+: s.toList := isSome_cutAt?

end Text

namespace Fingerprint

theorem lineFeed_not_mem_hash (text : String) : '\n' ∉ (Digest.hash text).toList := by
  have hdigit : ∀ n < 16, Digest.upperDigit n ≠ '\n' := by decide
  have hword : ∀ w, '\n' ∉ Digest.hexWord w := by
    intro w hmem
    obtain ⟨k, -, hk⟩ := List.mem_map.1 hmem
    exact hdigit _ (Nat.mod_lt _ (by decide)) hk
  simp [Digest.hash, Digest.fold, hword]

/-- A tag is one line. -/
theorem lineFeed_not_mem_ofFunction (f : ShaderFunction) (dependencies : String)
    (accurateErrors : Bool) (options : String) :
    '\n' ∉ (ofFunction f dependencies accurateErrors options).toList := by
  have hmark : '\n' ∉ mark.toList := by decide
  simp [ofFunction, hmark, lineFeed_not_mem_hash]

theorem length_ofFunction (f : ShaderFunction) (dependencies : String) (accurateErrors : Bool)
    (options : String) :
    (ofFunction f dependencies accurateErrors options).toList.length = mark.toList.length + 32 := by
  rw [ofFunction, String.toList_append, List.length_append, Digest.length_hash]

end Fingerprint

theorem Artifact.toList_header (context : GenerationContext) (tag : String) :
    (header context tag).toList = ("DO NOT MODIFY THIS\nAutogenerated from " ++ context.sourceFile
      ++ "\nLibrary " ++ context.libraryName).toList ++ ("\n".toList ++ tag.toList) := by
  unfold header
  rw [String.toList_append, String.toList_append, List.append_assoc]

theorem Artifact.contains_header_self (context : GenerationContext) (tag : String) :
    contains (header context tag) tag = true := by
  rw [contains_iff, toList_header, ← List.append_assoc]
  exact (List.suffix_append _ _).isInfix

/-- A header tells the tag that it ends with, and no other one but by the names in it. -/
theorem Artifact.contains_header {context : GenerationContext} {u v : UpdateInputs}
    {f g : ShaderFunction} (h : contains (header context (v.tag g)) (u.tag f) = true) :
    v.tag g = u.tag f ∨ contains (header context "") (u.tag f) = true := by
  rw [contains_iff, toList_header] at h
  rw [contains_iff, toList_header]
  rcases infix_or_infix_of_not_mem (Fingerprint.lineFeed_not_mem_ofFunction _ _ _ _) h with h | h
  · exact .inr (h.trans (List.prefix_append _ _).isInfix)
  · have hlength : (u.tag f).toList.length = (v.tag g).toList.length := by
      rw [UpdateInputs.tag, UpdateInputs.tag, Fingerprint.length_ofFunction,
        Fingerprint.length_ofFunction]
    exact .inl (String.toList_inj.1 (h.eq_of_length hlength).symm)

/-- What the names in a header tell, the header tells with any tag. -/
theorem Artifact.contains_header_of_names {context : GenerationContext} {text : String}
    (h : contains (header context "") text = true) (tag : String) :
    contains (header context tag) text = true := by
  rw [contains_iff, toList_header, String.toList_empty, List.append_nil] at h
  rw [contains_iff, toList_header, ← List.append_assoc]
  exact h.trans (List.prefix_append _ _).isInfix

/-- Short names leave no room for a tag in a header. -/
theorem Artifact.contains_header_of_short {context : GenerationContext} {u : UpdateInputs}
    {f : ShaderFunction} (hs : context.sourceFile.toList.length < 24)
    (hl : context.libraryName.toList.length < 35) :
    contains (header context "") (u.tag f) = false := by
  rw [Bool.eq_false_iff]
  intro h
  have hheader : (header context "").toList
      = "DO NOT MODIFY THIS".toList ++ '\n' :: (("Autogenerated from ".toList
        ++ context.sourceFile.toList) ++ '\n' :: (("Library ".toList ++ context.libraryName.toList)
        ++ '\n' :: [])) := by
    have hfirst : "DO NOT MODIFY THIS\nAutogenerated from ".toList
        = "DO NOT MODIFY THIS".toList ++ '\n' :: "Autogenerated from ".toList := by decide
    have hsecond : "\nLibrary ".toList = '\n' :: "Library ".toList := by decide
    have hthird : "\n".toList = ['\n'] := by decide
    unfold header
    simp only [String.toList_append, hfirst, hsecond, hthird, String.toList_empty, List.append_assoc,
      List.cons_append, List.append_nil]
  have hlength : (u.tag f).toList.length = 43 := Fingerprint.length_ofFunction ..
  have hline := Fingerprint.lineFeed_not_mem_ofFunction f u.dependencies u.context.accurateErrors
    u.options
  -- a tag is longer than any of the four lines
  have hlong : ∀ {line : List Char}, (u.tag f).toList <:+: line → 43 ≤ line.length := fun h =>
    hlength ▸ h.length_le
  rw [contains_iff, hheader] at h
  rcases infix_or_infix_of_not_mem hline h with h | h
  · exact absurd (hlong h) (by decide)
  rcases infix_or_infix_of_not_mem hline h with h | h
  · have := hlong h
    rw [List.length_append] at this
    have : "Autogenerated from ".toList.length = 19 := rfl
    omega
  rcases infix_or_infix_of_not_mem hline h with h | h
  · have := hlong h
    rw [List.length_append] at this
    have : "Library ".toList.length = 8 := rfl
    omega
  · exact absurd (hlong h) (by decide)

end ShaderGraph
