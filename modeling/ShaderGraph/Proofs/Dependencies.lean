import Mathlib.Data.List.Basic
import ShaderGraph.Fingerprint

/-!
# What the digests of dependencies tell

For the includes and the defines of a file there is one digest after the other, of every text of an
include and of every name and value of a define. All digests have the same length, so they tell the
texts in their order, unless two texts have the same digest. They do not tell where the includes
end: the names and values of the first defines may as well be the texts of the last includes
(`ofDependencies_eq_iff_of_not_collides`).
-/

namespace ShaderGraph

/-- The texts of some defines, each name before its value. -/
def Define.texts (defines : List Define) : List String := defines.flatMap fun d => [d.name, d.value]

namespace Define

@[simp]
theorem texts_nil : texts [] = [] := rfl

@[simp]
theorem texts_cons (d : Define) (ds : List Define) :
    texts (d :: ds) = d.name :: d.value :: texts ds := rfl

theorem texts_append (ds es : List Define) : texts (ds ++ es) = texts ds ++ texts es :=
  List.flatMap_append

theorem length_texts : ∀ ds : List Define, (texts ds).length = 2 * ds.length
  | [] => rfl
  | d :: ds => by
    rw [texts_cons, List.length_cons, List.length_cons, length_texts ds, List.length_cons]
    omega

/-- If the texts of some defines end in those of others, the defines do, and what stands before
those is the texts of defines too. -/
theorem exists_texts_of_append_eq : ∀ {ds es : List Define} {ss : List String},
    texts ds = ss ++ texts es → ∃ moved, ss = texts moved ∧ ds = moved ++ es
  | [], [], [], _ => ⟨[], rfl, rfl⟩
  | [], e :: es, ss, h => by simp at h
  | [], [], s :: ss, h => by simp at h
  | d :: ds, es, [], h => by
    -- nothing stands before: the two lists have the same texts, so the same defines
    cases es with
    | nil => simp at h
    | cons e es =>
      obtain ⟨name, value⟩ := d
      obtain ⟨name', value'⟩ := e
      simp only [texts_cons, List.nil_append, List.cons.injEq] at h
      obtain ⟨rfl, rfl, hrest⟩ := h
      have hrest : texts ds = [] ++ texts es := hrest
      obtain ⟨moved, hnil, hds⟩ := exists_texts_of_append_eq hrest
      cases moved with
      | nil => exact ⟨[], rfl, congrArg _ hds⟩
      | cons m moved => simp at hnil
  | d :: ds, es, [s], h => by
    -- the texts of defines are even in number
    have hlength := congrArg List.length h
    simp only [List.length_append, length_texts, List.length_cons, List.length_nil] at hlength
    omega
  | d :: ds, es, s :: t :: ss, h => by
    simp only [texts_cons, List.cons_append, List.cons.injEq] at h
    obtain ⟨rfl, rfl, hrest⟩ := h
    obtain ⟨moved, rfl, rfl⟩ := exists_texts_of_append_eq hrest
    exact ⟨d :: moved, rfl, rfl⟩

end Define

namespace Fingerprint

variable {includes includes' : List String} {defines defines' : List Define}

/-- The texts that are digested for the dependencies of a file, in order. -/
def dependencyTexts (includes : List String) (defines : List Define) : List String :=
  includes ++ Define.texts defines

/-- Two different texts, one of each list, have the same digest. -/
def Collides (ss ts : List String) : Prop :=
  ∃ s ∈ ss, ∃ t ∈ ts, s ≠ t ∧ Digest.hash s = Digest.hash t

/-- Some defines, at least one, are defines of one file and includes of the other: their names and
values are the texts of its last includes. -/
def Regrouped (includes includes' : List String) (defines defines' : List Define) : Prop :=
  ∃ moved, moved ≠ [] ∧ includes' = includes ++ Define.texts moved ∧ defines = moved ++ defines'

theorem ofDependencies_eq_join (includes : List String) (defines : List Define) :
    ofDependencies includes defines
      = String.join ((dependencyTexts includes defines).map Digest.hash) := by
  have hdefines : String.join (defines.map fun d => Digest.hash d.name ++ Digest.hash d.value)
      = String.join ((Define.texts defines).map Digest.hash) := by
    induction defines with
    | nil => rfl
    | cons d ds ih =>
      simp only [List.map_cons, Define.texts_cons, String.join_cons, ih, String.append_assoc]
  rw [ofDependencies, dependencyTexts, List.map_append, String.join_append, hdefines]

theorem join_hash_ne (t : String) (ts : List String) :
    String.join ((t :: ts).map Digest.hash) ≠ "" := by
  intro h
  have hlength := congrArg (fun s => s.toList.length) h
  rw [List.map_cons, String.join_cons, String.toList_append, List.length_append,
    Digest.length_hash] at hlength
  simp at hlength

/-- Digests one after the other can be told apart again. -/
theorem map_hash_eq_of_join_eq : ∀ {ss ts : List String},
    String.join (ss.map Digest.hash) = String.join (ts.map Digest.hash) →
      ss.map Digest.hash = ts.map Digest.hash
  | [], [], _ => rfl
  | [], t :: ts, h => absurd h.symm (join_hash_ne t ts)
  | s :: ss, [], h => absurd h (join_hash_ne s ss)
  | s :: ss, t :: ts, h => by
    have hlists := congrArg String.toList h
    rw [List.map_cons, List.map_cons, String.join_cons, String.join_cons, String.toList_append,
      String.toList_append] at hlists
    obtain ⟨hfirst, hrest⟩ := List.append_inj hlists
      ((Digest.length_hash s).trans (Digest.length_hash t).symm)
    rw [List.map_cons, List.map_cons, String.toList_inj.1 hfirst,
      map_hash_eq_of_join_eq (String.toList_inj.1 hrest)]

theorem eq_or_collides_of_map_hash_eq : ∀ {ss ts : List String},
    ss.map Digest.hash = ts.map Digest.hash → ss = ts ∨ Collides ss ts
  | [], [], _ => .inl rfl
  | [], t :: ts, h => by simp at h
  | s :: ss, [], h => by simp at h
  | s :: ss, t :: ts, h => by
    rw [List.map_cons, List.map_cons, List.cons.injEq] at h
    by_cases hst : s = t
    · rcases eq_or_collides_of_map_hash_eq h.2 with rfl | ⟨a, ha, b, hb, hab⟩
      · exact .inl (hst ▸ rfl)
      · exact .inr ⟨a, List.mem_cons_of_mem _ ha, b, List.mem_cons_of_mem _ hb, hab⟩
    · exact .inr ⟨s, List.mem_cons_self, t, List.mem_cons_self, hst, h.1⟩

/-- The texts of the dependencies tell the includes and the defines, up to where the includes
end. -/
theorem dependencyTexts_eq_iff :
    dependencyTexts includes defines = dependencyTexts includes' defines' ↔
      (includes = includes' ∧ defines = defines') ∨ Regrouped includes includes' defines defines'
        ∨ Regrouped includes' includes defines' defines := by
  constructor
  · intro h
    rcases List.append_eq_append_iff.1 h with
      ⟨more, hincludes, hdefines⟩ | ⟨more, hincludes, hdefines⟩
    · obtain ⟨moved, rfl, hmoved⟩ := Define.exists_texts_of_append_eq hdefines
      by_cases hnil : moved = []
      · subst hnil
        exact .inl ⟨by simp [hincludes], hmoved⟩
      · exact .inr (.inl ⟨moved, hnil, hincludes, hmoved⟩)
    · obtain ⟨moved, rfl, hmoved⟩ := Define.exists_texts_of_append_eq hdefines
      by_cases hnil : moved = []
      · subst hnil
        exact .inl ⟨by simp [hincludes], hmoved.symm⟩
      · exact .inr (.inr ⟨moved, hnil, hincludes, hmoved⟩)
  · rintro (⟨rfl, rfl⟩ | ⟨moved, -, rfl, rfl⟩ | ⟨moved, -, rfl, rfl⟩)
    · rfl
    · rw [dependencyTexts, dependencyTexts, Define.texts_append, List.append_assoc]
    · rw [dependencyTexts, dependencyTexts, Define.texts_append, List.append_assoc]

/-- Unless two of the digested texts have the same digest, files have the same digests of their
dependencies exactly if their includes and their defines are the same, or if some first defines of
one are the last includes of the other. So they are the same if there are as many includes. -/
theorem ofDependencies_eq_iff_of_not_collides
    (hfree : ¬Collides (dependencyTexts includes defines) (dependencyTexts includes' defines')) :
    (ofDependencies includes defines = ofDependencies includes' defines' ↔
        (includes = includes' ∧ defines = defines') ∨ Regrouped includes includes' defines defines'
          ∨ Regrouped includes' includes defines' defines)
      ∧ (ofDependencies includes defines = ofDependencies includes' defines' →
        includes.length = includes'.length ∨ defines.length = defines'.length →
          includes = includes' ∧ defines = defines') := by
  have hiff : ofDependencies includes defines = ofDependencies includes' defines' ↔
      dependencyTexts includes defines = dependencyTexts includes' defines' := by
    rw [ofDependencies_eq_join, ofDependencies_eq_join]
    refine ⟨fun h => ?_, fun h => by rw [h]⟩
    exact (eq_or_collides_of_map_hash_eq (map_hash_eq_of_join_eq h)).resolve_right hfree
  refine ⟨hiff.trans dependencyTexts_eq_iff, fun h hlengths => ?_⟩
  have hpos : ∀ {moved : List Define}, moved ≠ [] → 0 < moved.length := List.length_pos_of_ne_nil
  rcases dependencyTexts_eq_iff.1 (hiff.1 h) with
    hsame | ⟨moved, hne, rfl, rfl⟩ | ⟨moved, hne, rfl, rfl⟩
  · exact hsame
  · have := hpos hne
    simp only [List.length_append, Define.length_texts] at hlengths
    omega
  · have := hpos hne
    simp only [List.length_append, Define.length_texts] at hlengths
    omega

end Fingerprint

namespace IncludedDefine

open Fingerprint

/-- Two includes with the texts `N` and `1`, or one define of `N` as `1`. -/
def includes : List String := ["N", "1"]

def defines : List Define := [⟨"N", "1"⟩]

theorem dependencyTexts_eq : dependencyTexts includes [] = dependencyTexts [] defines := rfl

theorem not_collides :
    ¬Collides (dependencyTexts includes []) (dependencyTexts [] defines) := by
  have hne : Digest.hash "N" ≠ Digest.hash "1" := by decide +kernel
  rintro ⟨s, hs, t, ht, hst, hhash⟩
  rw [← dependencyTexts_eq] at ht
  simp only [dependencyTexts, includes, Define.texts_nil, List.append_nil, List.mem_cons,
    List.not_mem_nil, or_false] at hs ht
  rcases hs with rfl | rfl <;> rcases ht with rfl | rfl
  · exact hst rfl
  · exact hne hhash
  · exact hne hhash.symm
  · exact hst rfl

theorem ofDependencies_eq_iff_of_included :
    ¬Collides (dependencyTexts includes []) (dependencyTexts [] defines)
      ∧ (ofDependencies includes [] = ofDependencies [] defines ↔
        (includes = [] ∧ [] = defines) ∨ Regrouped includes [] [] defines
          ∨ Regrouped [] includes defines []) :=
  ⟨not_collides, (ofDependencies_eq_iff_of_not_collides not_collides).1⟩

/-- Digests that are the same tell neither the includes nor the defines, though no two texts have
the same digest. -/
theorem not_forall_separated :
    ¬∀ includes includes' : List String, ∀ defines defines' : List Define,
    ofDependencies includes defines = ofDependencies includes' defines' →
      Collides (dependencyTexts includes defines) (dependencyTexts includes' defines')
        ∨ (includes = includes' ∧ defines = defines') := by
  intro h
  have hsame : ofDependencies includes [] = ofDependencies [] defines := by
    rw [ofDependencies_eq_join, ofDependencies_eq_join, dependencyTexts_eq]
  rcases h includes [] [] defines hsame with hcollides | ⟨hincludes, -⟩
  · exact not_collides hcollides
  · exact absurd hincludes (List.cons_ne_nil _ _)

end IncludedDefine

end ShaderGraph
