import ShaderGraph.Proofs.SpelledPin
import ShaderGraph.Proofs.TrailingBlank

/-!
# Blanks around an argument

Blanks in front of an argument never matter, and those behind it do not matter to any argument that
becomes a pin. An argument that ends in the sign of a missing default value is refused, but with
blanks behind it it is the argument without the sign, since the blanks are a default value that is
dropped. And an argument that is dropped although its text could go on with a name is refused if
blanks follow. So the outcome is the same exactly if neither happens (`resolveArgument_padded_iff`).
-/

namespace ShaderGraph

open Text WrittenPin

namespace Spelling

variable {cs x y : List Char} {s : Spelling} {comment : String} {r : Resolution}

/-! ## What is read -/

theorem readQualified?_congr {cs' : List Char} (hs : s.Proper) (h : dropBlanks cs = dropBlanks cs')
    (hread : readQualified? cs = some s) : readQualified? cs' = some s := by
  obtain ⟨p, hp, rfl, rfl⟩ := (readQualified?_eq_some_iff hs.type).1 hread
  exact hp.readQualified? hs.type h.symm

/-- Blanks in front of an argument do not matter. -/
theorem read?_blanks_append (hs : s.Proper) (hx : ∀ c ∈ x, isBlank c = true) (cs : List Char) :
    read? (x ++ cs) = some s ↔ read? cs = some s := by
  have hboth := dropBlanks_append hx cs
  by_cases hopen : ∃ r, dropBlanks cs = '[' :: r
  · obtain ⟨r, hr⟩ := hopen
    rw [read?_of_opening hr, read?_of_opening (hboth.trans hr)]
  · have hcs : ∀ r, dropBlanks cs ≠ '[' :: r := fun r hr => hopen ⟨r, hr⟩
    rw [read?_of_no_opening hcs, read?_of_no_opening (by rwa [hboth])]
    exact ⟨readQualified?_congr hs hboth, readQualified?_congr hs hboth.symm⟩

/-- Behind one blank others do not matter. -/
theorem read?_append_blanks (hs : s.Proper) : ∀ {y : List Char} (cs : List Char) {c : Char},
    isBlank c = true → (∀ d ∈ y, isBlank d = true) →
      (read? (cs ++ [c] ++ y) = some s ↔ read? (cs ++ [c]) = some s)
  | [], cs, c, _, _ => by rw [List.append_nil]
  | d :: y, cs, c, hc, hy => by
    rw [List.forall_mem_cons] at hy
    have hmore := read?_append_blanks hs (cs ++ [c]) hy.1 hy.2
    rw [List.append_assoc _ [d], List.singleton_append] at hmore
    rw [hmore]
    exact read?_append_of_not hs hy.1 (not_endsInSign_of_blank hc) (not_endsBeforeName_of_blank hc)

/-- The reading that ends the metadata before the last bracket has a bracket in its default value. -/
theorem mem_default_of_readBracketed? {t : List Char} (ht : ']' ∉ t) (hnone : readQualified? t = none) :
    ∀ {m before : List Char}, readBracketed? before (m ++ ']' :: t) = some s → ']' ∈ s.default
  | [], before, h => by
    rw [List.nil_append, readBracketed?_cons, readBracketed?_of_not_mem ht, hnone] at h
    cases h
  | d :: m, before, h => by
    rw [List.cons_append, readBracketed?_cons, Option.or_eq_some_iff] at h
    rcases h with h | ⟨-, h⟩
    · exact mem_default_of_readBracketed? ht hnone h
    · split_ifs at h
      obtain ⟨s', hs', rfl⟩ := Option.map_eq_some_iff.1 h
      obtain ⟨p, hp, hrest, rfl⟩ := exists_of_readQualified? hs'
      have hlead := hp.not_mem_lead (c := ']') (by simp)
      have hmem : ']' ∈ p.rest := by simp [hrest]
      rw [rest_eq, List.mem_append, or_iff_right hlead, defaultText] at hmem
      cases hd : p.default with
      | none => simp [hd] at hmem
      | some d =>
        obtain ⟨a, b, hblank, htrim⟩ := exists_trimChars d
        rw [List.forall_mem_append] at hblank
        have ha : ']' ∉ a := fun h => absurd (hblank.1 _ h) (by decide)
        have hb : ']' ∉ b := fun h => absurd (hblank.2 _ h) (by decide)
        rw [hd, htrim] at hmem
        simpa [spelling, hd, ha, hb] using hmem

/-- An argument whose default value has no bracket is read up to its end. -/
theorem not_ends_of_read? (h : read? cs = some s) (hs : ']' ∉ s.default) :
    ¬EndsInSign cs ∧ ¬EndsBeforeName cs := by
  have hbracketed {a m t : List Char} (ha : ∀ c ∈ a, isBlank c = true) (ht : ']' ∉ t)
      (hnone : readQualified? t = none) : cs ≠ a ++ '[' :: (m ++ ']' :: t) := by
    rintro rfl
    rw [read?_of_opening (dropBlanks_opening ha _)] at h
    exact hs (mem_default_of_readBracketed? ht hnone h)
  constructor
  · rintro ⟨a, m, t, ha, hsigned, hcs⟩
    have hnone := readQualified?_of_signed hsigned
    cases m with
    | none =>
      have hwhole := hsigned.append_blanks ha
      have hopen := hwhole.not_mem (c := '[') (by simp)
      rw [hcs, bracketed, List.nil_append, read?_of_no_opening (dropBlanks_ne_opening hopen),
        readQualified?_of_signed hwhole] at h
      cases h
    | some m =>
      refine hbracketed ha (hsigned.not_mem (by simp)) hnone (m := m) ?_
      simpa [bracketed] using hcs
  · rintro ⟨a, m, t, ha, hheaded, hcs⟩
    have hnone : readQualified? t = none := by
      obtain ⟨p, -, -, hnone⟩ := hheaded
      exact hnone
    exact hbracketed ha (hheaded.not_mem (by simp)) hnone hcs

/-! ## What an argument resolves to -/

/-- What resolves has a type that is no qualifier. -/
theorem Resolves.type (h : s.Resolves comment r) : s.typeName ∉ otherWords := by
  have hwords : ∀ w ∈ otherWords, String.ofList w ∉ contextTypes
      ∧ String.ofList w ≠ "SamplerState" ∧ String.ofList w ≠ "float4x4"
      ∧ pinKind? (String.ofList w) = none := by decide
  intro hmem
  obtain ⟨hcontext, hsampler, hmatrix, hnone⟩ := hwords _ hmem
  cases h with
  | context htype => exact hcontext htype
  | sampler htype => exact hsampler htype
  | matrix htype => exact hmatrix htype
  | pin hkind =>
    rw [hnone] at hkind
    cases hkind

/-- What becomes a pin has a default value without brackets. -/
theorem Resolves.not_mem_default (h : s.Resolves comment r) (hpins : r.pins ≠ []) :
    ']' ∉ s.default := by
  cases h with
  | context | sampler => exact absurd rfl hpins
  | matrix _ _ hdefault => simp [hdefault]
  | pin _ hdefault =>
    by_cases hnil : s.default = []
    · simp [hnil]
    · have hvalue := isValue_trim (hdefault hnil)
      rw [trim, String.toList_ofList, ← isDefault_eq_isValue] at hvalue
      exact (selfContained_of_isDefault hvalue).closing

end Spelling

open Spelling

variable {comment : String} {r : Resolution}

theorem resolveArgument_eq_ok_iff_proper {raw : String} : resolveArgument raw comment = .ok r
    ↔ ∃ s : Spelling, s.Proper ∧ read? raw.toList = some s ∧ s.Resolves comment r := by
  rw [resolveArgument_eq_ok_iff]
  constructor
  · rintro ⟨s, hread, ⟨-, hname⟩, hresolves⟩
    exact ⟨s, ⟨hresolves.type, hname⟩, hread, hresolves⟩
  · rintro ⟨s, hs, hread, hresolves⟩
    have htype : s.typeName ≠ [] := fun hnil => hs.type (by simp [hnil, otherWords])
    exact ⟨s, hread, ⟨htype, hs.name⟩, hresolves⟩

theorem resolveArgument_congr {raw raw' : String}
    (h : ∀ s : Spelling, s.Proper → (read? raw.toList = some s ↔ read? raw'.toList = some s)) :
    resolveArgument raw comment = .ok r ↔ resolveArgument raw' comment = .ok r := by
  rw [resolveArgument_eq_ok_iff_proper, resolveArgument_eq_ok_iff_proper]
  constructor
  · rintro ⟨s, hs, hread, hresolves⟩
    exact ⟨s, hs, (h s hs).1 hread, hresolves⟩
  · rintro ⟨s, hs, hread, hresolves⟩
    exact ⟨s, hs, (h s hs).2 hread, hresolves⟩

/-! ## Padded arguments -/

theorem toList_padded (x raw y : String) :
    (x ++ raw ++ y).toList = x.toList ++ (raw.toList ++ y.toList) := by
  rw [String.toList_append, String.toList_append, List.append_assoc]

/-- An argument without its last character. -/
def shortened (raw : String) : String := String.ofList raw.toList.dropLast

section Padded

variable {x y raw : String} (hx : ∀ c ∈ x.toList, isBlank c = true)
  (hy : ∀ c ∈ y.toList, isBlank c = true)

include hx

theorem resolveArgument_padded_of_empty (hempty : y = "") :
    resolveArgument (x ++ raw ++ y) comment = .ok r ↔ resolveArgument raw comment = .ok r := by
  refine resolveArgument_congr fun s hs => ?_
  rw [toList_padded, hempty, read?_blanks_append hs hx]
  simp

include hy

/-- Only the first blank behind an argument can matter. -/
theorem exists_read?_padded (hne : y ≠ "") (raw : String) : ∃ c, isBlank c = true
    ∧ ∀ s : Spelling, s.Proper →
      (read? (x ++ raw ++ y).toList = some s ↔ read? (raw.toList ++ [c]) = some s) := by
  obtain ⟨c, b, hcb⟩ := List.exists_cons_of_ne_nil fun hnil => hne (String.toList_eq_nil_iff.1 hnil)
  rw [hcb, List.forall_mem_cons] at hy
  refine ⟨c, hy.1, fun s hs => ?_⟩
  rw [toList_padded, hcb, read?_blanks_append hs hx, ← List.singleton_append, ← List.append_assoc]
  exact read?_append_blanks hs _ hy.1 hy.2

theorem resolveArgument_padded_of_not (hsign : ¬EndsInSign raw.toList)
    (hname : ¬EndsBeforeName raw.toList) :
    resolveArgument (x ++ raw ++ y) comment = .ok r ↔ resolveArgument raw comment = .ok r := by
  by_cases hempty : y = ""
  · exact resolveArgument_padded_of_empty hx hempty
  · obtain ⟨c, hc, hread⟩ := exists_read?_padded hx hy hempty raw
    exact resolveArgument_congr fun s hs => (hread s hs).trans (read?_append_of_not hs hc hsign hname)

theorem resolveArgument_padded_of_sign (hne : y ≠ "") (h : EndsInSign raw.toList) :
    resolveArgument (x ++ raw ++ y) comment = .ok r
      ↔ resolveArgument (shortened raw) comment = .ok r := by
  obtain ⟨c, hc, hread⟩ := exists_read?_padded hx hy hne raw
  refine resolveArgument_congr fun s hs => (hread s hs).trans ?_
  rw [shortened, String.toList_ofList]
  exact read?_append_of_sign hs hc h

theorem resolveArgument_padded_of_name (hne : y ≠ "") (h : EndsBeforeName raw.toList) :
    resolveArgument (x ++ raw ++ y) comment ≠ .ok r := by
  obtain ⟨c, hc, hread⟩ := exists_read?_padded hx hy hne raw
  intro hok
  obtain ⟨s, hs, hpadded, -⟩ := resolveArgument_eq_ok_iff_proper.1 hok
  exact read?_append_of_name hs hc h ((hread s hs).1 hpadded)

/-- Blanks around an argument do not matter, unless they follow the sign of a missing default value
or the place of a missing name and change the outcome there. They never do if the argument becomes
a pin. -/
theorem resolveArgument_padded_iff (raw comment : String) :
    ((∀ r, resolveArgument (x ++ raw ++ y) comment = .ok r ↔ resolveArgument raw comment = .ok r)
      ↔ y = "" ∨ (EndsInSign raw.toList → ∀ r, resolveArgument (shortened raw) comment = .ok r
          ↔ resolveArgument raw comment = .ok r)
        ∧ (EndsBeforeName raw.toList → ∀ r, resolveArgument raw comment ≠ .ok r))
    ∧ ∀ r, resolveArgument raw comment = .ok r → r.pins ≠ [] →
      resolveArgument (x ++ raw ++ y) comment = .ok r := by
  constructor
  · by_cases hempty : y = ""
    · exact iff_of_true (fun r => resolveArgument_padded_of_empty hx hempty) (.inl hempty)
    · rw [or_iff_right hempty]
      by_cases hsign : EndsInSign raw.toList
      · have hname := hsign.not_endsBeforeName
        simp only [resolveArgument_padded_of_sign hx hy hempty hsign, hsign, hname, true_implies,
          false_implies, and_true]
      · by_cases hname : EndsBeforeName raw.toList
        · simp only [resolveArgument_padded_of_name hx hy hempty hname, hsign, hname, true_implies,
            false_implies, true_and, false_iff]
        · simp only [resolveArgument_padded_of_not hx hy hsign hname, hsign, hname, false_implies,
            and_self, implies_true]
  · intro r hok hpins
    obtain ⟨s, -, hread, hresolves⟩ := resolveArgument_eq_ok_iff_proper.1 hok
    obtain ⟨hsign, hname⟩ := not_ends_of_read? hread (hresolves.not_mem_default hpins)
    exact (resolveArgument_padded_of_not hx hy hsign hname).2 hok

end Padded

/-- A parameter without a default value. -/
def exposedScalar : Pin where
  name := "A"
  declaredType := "float"
  kind := .scalar
  metadata := [("Expose", "")]
  outputType := some .float1

theorem resolveArgument_padded_of_exposedScalar :
    (∀ r, resolveArgument ("\n" ++ "[Expose] float A" ++ " \t") "" = .ok r
      ↔ resolveArgument "[Expose] float A" "" = .ok r)
    ∧ resolveArgument ("\n" ++ "[Expose] float A" ++ " \t") "" = .ok { pins := [exposedScalar] } := by
  have hresolved : resolveArgument "[Expose] float A" "" = .ok { pins := [exposedScalar] } := by
    decide +kernel
  have hread : read? "[Expose] float A".toList
      = some { metadata := "Expose".toList, typeName := "float".toList, name := ['A'] } := by
    decide +kernel
  obtain ⟨hsign, hname⟩ := not_ends_of_read? hread (by simp)
  obtain ⟨hiff, hpins⟩ := resolveArgument_padded_iff (x := "\n") (y := " \t") (by decide) (by decide)
    "[Expose] float A" ""
  exact ⟨hiff.2 (.inr ⟨fun h => absurd h hsign, fun h => absurd h hname⟩),
    hpins _ hresolved (by simp)⟩

/-- A blank behind a sign makes an argument of what is none. -/
theorem not_forall_padded : ¬∀ x y raw comment : String, (∀ c ∈ x.toList, isBlank c = true) →
    (∀ c ∈ y.toList, isBlank c = true) → ∀ r, resolveArgument (x ++ raw ++ y) comment = .ok r
      ↔ resolveArgument raw comment = .ok r := by
  have hevaluated : resolveArgument ("" ++ "[Expose] float A=" ++ " ") "" = .ok { pins := [exposedScalar] }
      ∧ resolveArgument "[Expose] float A=" ""
        = .error (.argumentSyntax "[Expose] float A=") := by decide +kernel
  intro hclaim
  have hplain := (hclaim "" " " "[Expose] float A=" "" (by decide) (by decide) _).1 hevaluated.1
  rw [hevaluated.2] at hplain
  cases hplain

end ShaderGraph
