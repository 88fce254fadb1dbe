import Mathlib.Data.List.Nodup
import Mathlib.Data.List.Perm.Basic
import ShaderGraph.Proofs.Connections
import ShaderGraph.Proofs.Sorts

/-!
# What the code of a variant declares

The declarations before the body of a variant are read line by line, each as the type and the name
before its equals sign. They declare the matrices, and then each other input with its name and type,
after the sampler of a texture. An argument that is a sampler is not declared by itself: it is
declared exactly once if there is a texture that it is named after, and any other argument is unless
it is named so too (`declared_once_iff`).
-/

namespace ShaderGraph

open Text

theorem Text.words_of_isOneWord {w : List Char} (hw : IsOneWord w) : words w = [w] := by
  rw [words, runs_of_all hw.word, List.filter_singleton]
  simp [hw.ne_nil]

namespace Code

/-! ## Reading declarations -/

/-- The type and the name that a line declares: the two words before its equals sign. -/
def declarationOf? (line : List Char) : Option (List Char × List Char) :=
  match (words (line.takeWhile (· ≠ '='))).reverse with
  | name :: type :: _ => some (type, name)
  | _ => none

/-- The types and the names that a text declares, in order. -/
def declared (cs : List Char) : List (List Char × List Char) :=
  (pieces '\n' cs).filterMap declarationOf?

/-- The types that a text declares a name with. -/
def typesOf (name cs : List Char) : List (List Char) :=
  ((declared cs).filter (·.2 = name)).map (·.1)

/-- A text of declarations, which others may follow. -/
def Declares (d : List Char) (ds : List (List Char × List Char)) : Prop :=
  ∀ rest, declared (d ++ rest) = ds ++ declared rest

namespace Declares

variable {d d' : List Char} {ds ds' : List (List Char × List Char)}

theorem nil : Declares [] [] := fun _ => rfl

theorem append (h : Declares d ds) (h' : Declares d' ds') : Declares (d ++ d') (ds ++ ds') := by
  intro rest
  rw [List.append_assoc, h, h', List.append_assoc]

theorem declared_eq (h : Declares d ds) : declared d = ds := by
  have hrest := h []
  rwa [List.append_nil, show declared [] = [] from rfl, List.append_nil] at hrest

theorem flatMap {α β : Type} {R : α → β → Prop} {g : α → List (List Char × List Char)}
    {text : β → List Char} (hg : ∀ a b, R a b → Declares (text b) (g a)) {as : List α} {bs : List β}
    (h : List.Forall₂ R as bs) : Declares (bs.flatMap text) (as.flatMap g) := by
  induction h with
  | nil => exact nil
  | cons hab _ ih => exact (hg _ _ hab).append ih

/-- One line declares one name. -/
theorem assignment {isConst : Bool} {type name value : String} (htype : IsOneWord type.toList)
    (hname : IsOneWord name.toList) (hvalue : '\n' ∉ value.toList) :
    Declares (assignment isConst type name value).toList [(type.toList, name.toList)] := by
  intro rest
  generalize hconst : (if isConst then "const " else "").toList = const
  have hfront : (∀ c ∈ const, c ≠ '=' ∧ c ≠ '\n')
      ∧ ∃ ws, words (const ++ type.toList) = ws ++ [type.toList] := by
    subst hconst
    cases isConst with
    | false => exact ⟨by decide, [], words_of_isOneWord htype⟩
    | true =>
      refine ⟨by decide, ["const".toList], ?_⟩
      have hsplit := words_append_cons (c := ' ') (by decide) "const".toList type.toList
      rwa [words_of_isOneWord htype] at hsplit
  obtain ⟨hconst', ws, hwords⟩ := hfront
  let left := const ++ type.toList ++ ' ' :: (name.toList ++ ' ' :: [])
  have hleft : ∀ c ∈ left, c ≠ '=' ∧ c ≠ '\n' := by
    have hblank : ' ' ≠ '=' ∧ ' ' ≠ '\n' := by decide
    simp only [left, List.mem_append, List.mem_cons, List.not_mem_nil, or_false]
    rintro c ((hc | hc) | rfl | hc | rfl)
    · exact hconst' c hc
    · exact not_break_of_isWord (htype.word c hc)
    · exact hblank
    · exact not_break_of_isWord (hname.word c hc)
    · exact hblank
  have hline : (Code.assignment isConst type name value).toList ++ rest
      = (left ++ '=' :: ' ' :: (value.toList ++ [';'])) ++ '\n' :: rest := by
    simp [Code.assignment, left, ← hconst]
  have hbreak : '\n' ∉ left ++ '=' :: ' ' :: (value.toList ++ [';']) := by
    simpa [hvalue] using fun h => (hleft _ h).2 rfl
  have htake : (left ++ '=' :: ' ' :: (value.toList ++ [';'])).takeWhile (· ≠ '=') = left := by
    rw [List.takeWhile_append_of_pos fun c hc => decide_eq_true (hleft c hc).1]
    simp
  have hread : words left = ws ++ [type.toList] ++ [name.toList] := by
    rw [words_append_cons (by decide), words_append_cons (by decide), hwords,
      words_of_isOneWord hname]
    rfl
  unfold declared
  rw [hline, pieces_append_cons, pieces_of_not_mem hbreak, List.singleton_append,
    List.filterMap_cons, declarationOf?, htake, hread]
  simp

end Declares

end Code

/-! ## What arguments are declared as -/

/-- The type and the name that an input is declared with, after those of its sampler. -/
def Pin.declared (p : Pin) : List (List Char × List Char) :=
  if p.kind.isTexture then
    [("SamplerState".toList, p.name.toList ++ "Sampler".toList),
      (p.declaredType.toList, p.name.toList)]
  else [(p.declaredType.toList, p.name.toList)]

namespace Code

theorem declares_inputDeclaration {p : Pin} (htype : IsOneWord p.declaredType.toList)
    (hname : IsOneWord p.name.toList) : Declares (inputDeclaration p).toList p.declared := by
  have hbinding : '\n' ∉ p.bindingName.toList := fun h =>
    absurd (isWord_bindingName hname.word _ h) (by decide)
  have hcall : ∀ g : String, (∀ c ∈ g.toList, isWord c = true) → Declares
      (assignment p.isConst p.declaredType p.name (call g p.bindingName)).toList
        [(p.declaredType.toList, p.name.toList)] := fun g hg =>
    .assignment htype hname (not_mem_call hg hbinding)
  rw [inputDeclaration_eq, Pin.declared]
  split_ifs with htexture hattributes
  · have hsampler : IsOneWord (p.name ++ "Sampler").toList := by
      rw [String.toList_append]
      exact ⟨by simp [hname.ne_nil], isWord_append hname.word (by decide)⟩
    have hbreak : '\n' ∉ (p.bindingName ++ "Sampler").toList := by
      simp [hbinding]
    rw [String.toList_append, ← String.toList_append (s := p.name)]
    exact .append (.assignment (by decide) hsampler hbreak) (hcall "" (by simp))
  · exact hcall "" (by simp)
  · exact hcall _ htype.word

theorem declares_declaration {p : Pin} (values : BoolValues) (hpart : p.isInternal = false)
    (htype : IsOneWord p.declaredType.toList) (hname : IsOneWord p.name.toList)
    (hbool : p.kind = .staticBool → p.declaredType = "bool") :
    Declares (declaration values p).toList p.declared := by
  have hvalue : ∀ b : Bool, '\n' ∉ (if b then "true" else "false").toList := by decide
  have hvisible : ¬ p.isInternal = true := by simp [hpart]
  unfold declaration
  rw [if_neg hvisible]
  by_cases hkind : p.kind = .staticBool
  · have htexture : p.kind.isTexture = false := by rw [hkind]; rfl
    rw [if_pos hkind, constant_eq, Pin.declared, htexture, hbool hkind]
    exact .assignment (by decide) hname (hvalue _)
  · rw [if_neg hkind]
    exact declares_inputDeclaration htype hname

end Code

namespace ArgumentSort

/-- The sorts that are declared under their own names. -/
def isDeclared : ArgumentSort → Bool
  | matrix | constant | texture | value => true
  | context | sampler | output => false

end ArgumentSort

namespace Spelling

def matrices (x : Spelling) : List (List Char × List Char) :=
  if x.sort = .matrix then [(x.typeName, x.name)] else []

def locals (x : Spelling) : List (List Char × List Char) :=
  if x.sort.isDeclared ∧ x.sort ≠ .matrix then [(x.typeName, x.name)] else []

def samplers (x : Spelling) : List (List Char × List Char) :=
  x.sampled.map ("SamplerState".toList, ·)

variable {x : Spelling} {r : Resolution}

theorem IsNamed.declares_matrices (hx : x.IsNamed) (hr : r.Suits x) :
    Code.Declares r.declaration.toList x.matrices := by
  cases hr with
  | dropped hsort =>
    have hnone : x.matrices = [] := if_neg (by rcases hsort with h | h <;> simp [h])
    rw [hnone]
    exact .nil
  | pin hsort =>
    have hnone : x.matrices = [] := if_neg (by rw [hsort, Pin.sort]; split_ifs <;> simp)
    rw [hnone]
    exact .nil
  | matrix hsort hexposed isConst tooltip =>
    have hname : ∀ c ∈ (String.ofList x.name).toList, isWord c = true := by
      rw [String.toList_ofList]
      exact hx.name.word
    have hrows := (Resolution.From.matrix isConst (Metadata.parse (String.ofList x.metadata))
      tooltip).resolved hname
    have hbreak : '\n' ∉ (", ".intercalate (((List.range 4).map (Pin.row (String.ofList x.name)
        (Metadata.parse (String.ofList x.metadata)) tooltip)).map (·.bindingName))).toList := by
      rw [String.toList_intercalate]
      intro hmem
      rcases Code.mem_or_of_mem_intercalate hmem with hmem | ⟨l, hl, hmem⟩
      · exact absurd hmem (by decide)
      · obtain ⟨b, hb, rfl⟩ := List.mem_map.1 hl
        obtain ⟨p, hp, rfl⟩ := List.mem_map.1 hb
        exact absurd (isWord_bindingName (hrows p hp).name _ hmem) (by decide)
    have htype := x.sort_spec
    rw [hsort] at htype
    have hself : x.matrices = [("float4x4".toList, (String.ofList x.name).toList)] := by
      rw [matrices, if_pos hsort, ← htype, String.toList_ofList, String.toList_ofList]
    rw [Code.matrixResolution_declaration, hself]
    refine .assignment (by decide) ?_ (Code.not_mem_call (by decide) hbreak)
    rw [String.toList_ofList]
    exact hx.name

/-- An input is declared with its type and its name, and a texture with a sampler before it. -/
theorem IsNamed.declares_locals (hx : x.IsNamed) (hr : r.Suits x) (values : BoolValues) :
    Code.Declares ((r.pins.filter fun p => !p.isOutput).flatMap fun p =>
      (Code.declaration values p).toList) (x.samplers ++ x.locals) := by
  cases hr with
  | dropped hsort =>
    have hnone : x.samplers ++ x.locals = [] := by
      rcases hsort with h | h <;> simp [samplers, locals, sampled, h, ArgumentSort.isDeclared]
    rw [hnone]
    exact .nil
  | matrix hsort =>
    have hnone : x.samplers ++ x.locals = [] := by simp [samplers, locals, sampled, hsort]
    rw [hnone, List.flatMap_eq_nil_iff.2]
    · exact .nil
    · intro p hp
      obtain ⟨i, -, rfl⟩ := List.mem_map.1 (List.mem_filter.1 hp).1
      rfl
  | @pin p hsort hname htype hpart =>
    by_cases houtput : p.isOutput = true
    · have hnone : x.samplers ++ x.locals = [] := by
        simp [samplers, locals, sampled, hsort, Pin.sort, houtput, ArgumentSort.isDeclared]
      rw [hnone, List.filter_singleton, houtput]
      exact .nil
    · have hkind : x.sort = if p.kind = .staticBool then .constant
          else if p.kind.isTexture then .texture else .value := by simp [hsort, Pin.sort, houtput]
      have hself : x.samplers ++ x.locals = p.declared := by
        rw [samplers, sampled, locals, hkind, Pin.declared, hname, htype]
        by_cases hbool : p.kind = .staticBool
        · simp [hbool, PinKind.isTexture, ArgumentSort.isDeclared]
        · by_cases htexture : p.kind.isTexture = true <;>
            simp [hbool, htexture, ArgumentSort.isDeclared]
      have hspec := x.sort_spec
      have hinput : [p].filter (fun p => !p.isOutput) = [p] := by simp [houtput]
      rw [hself, hinput, List.flatMap_singleton]
      refine Code.declares_declaration values hpart (by simpa [htype] using hx.type)
        (by simpa [hname] using hx.name) fun hbool => ?_
      rw [hkind, if_pos hbool] at hspec
      rw [htype]
      exact hspec

end Spelling

/-- What the declarations of a variant declare, in order. -/
theorem declares_declarations {f : ShaderFunction} {s : Signature} (h : f.signature = .ok s)
    (values : BoolValues) : Code.Declares (Code.declarations s values).toList
      (f.spellings.flatMap (·.matrices) ++ f.spellings.flatMap fun x => x.samplers ++ x.locals) := by
  obtain ⟨-, rs, hrs, hmade⟩ := f.exists_suits h
  rw [Code.declarations, hmade.declarations, hmade.inputs, String.toList_append, String.toList_join,
    String.toList_join, List.flatMap_map, List.flatMap_map, List.filter_flatMap, List.flatMap_assoc]
  exact (Code.Declares.flatMap (fun x r hx => hx.1.declares_matrices hx.2) hrs).append
    (Code.Declares.flatMap (fun x r hx => hx.1.declares_locals hx.2 values) hrs)

/-! ## How often a name is declared -/

theorem flatMap_eq_of_only {α β : Type} {g : α → List β} {a : α} : ∀ {l : List α}, l.Nodup → a ∈ l →
    (∀ b ∈ l, g b ≠ [] → b = a) → l.flatMap g = g a
  | b :: l, hl, ha, h => by
    obtain ⟨hb, hl⟩ := List.nodup_cons.1 hl
    rw [List.flatMap_cons]
    have hrest : ∀ c ∈ l, g c ≠ [] → c = a := fun c hc => h c (List.mem_cons_of_mem _ hc)
    rcases List.mem_cons.1 ha with rfl | ha
    · have hnone : l.flatMap g = [] := List.flatMap_eq_nil_iff.2 fun c hc => by
        by_contra hne
        exact hb (hrest c hc hne ▸ hc)
      rw [hnone, List.append_nil]
    · have hnone : g b = [] := by
        by_contra hne
        exact hb (h b List.mem_cons_self hne ▸ ha)
      rw [hnone, List.nil_append, flatMap_eq_of_only hl ha hrest]

variable {f : ShaderFunction} {s : Signature} {x : Spelling}

/-- The types that a name is declared with: those of samplers that have it, and those of arguments
that have it. -/
theorem typesOf_perm (h : f.signature = .ok s) (values : BoolValues) (name : List Char) :
    (Code.typesOf name (Code.declarations s values).toList).Perm
      ((f.spellings.flatMap fun y => if name ∈ y.sampled then ["SamplerState".toList] else [])
        ++ f.spellings.flatMap fun y =>
          if y.name = name ∧ y.sort.isDeclared then [y.typeName] else []) := by
  have hsamplers : ∀ y : Spelling, ((y.samplers.filter (·.2 = name)).map (·.1))
      = if name ∈ y.sampled then ["SamplerState".toList] else [] := by
    intro y
    rw [Spelling.samplers, Spelling.sampled]
    generalize y.name ++ "Sampler".toList = n
    generalize "SamplerState".toList = type
    by_cases htexture : y.sort = .texture
    · by_cases hname : name = n <;> simp [htexture, hname, eq_comm]
    · simp [htexture]
  have hown : ∀ y : Spelling, (((y.matrices ++ y.locals).filter (·.2 = name)).map (·.1))
      = if y.name = name ∧ y.sort.isDeclared then [y.typeName] else [] := by
    intro y
    rw [Spelling.matrices, Spelling.locals]
    by_cases hname : y.name = name <;> cases y.sort <;> simp [hname, ArgumentSort.isDeclared]
  have hperm : (Code.declared (Code.declarations s values).toList).Perm
      (f.spellings.flatMap (·.samplers) ++ f.spellings.flatMap fun y => y.matrices ++ y.locals) := by
    rw [(declares_declarations h values).declared_eq]
    calc f.spellings.flatMap (·.matrices) ++ f.spellings.flatMap (fun y => y.samplers ++ y.locals)
      _ |>.Perm (f.spellings.flatMap (·.matrices)
          ++ (f.spellings.flatMap (·.samplers) ++ f.spellings.flatMap (·.locals))) :=
        (List.flatMap_append_perm ..).symm.append_left _
      _ |>.Perm (f.spellings.flatMap (·.samplers)
          ++ (f.spellings.flatMap (·.matrices) ++ f.spellings.flatMap (·.locals))) := by
        rw [← List.append_assoc, ← List.append_assoc]
        exact List.perm_append_comm.append_right _
      _ |>.Perm _ := (List.flatMap_append_perm ..).append_left _
  have hfiltered := (hperm.filter (·.2 = name)).map (·.1)
  rw [List.filter_append, List.map_append, List.filter_flatMap, List.filter_flatMap,
    List.map_flatMap, List.map_flatMap] at hfiltered
  unfold Code.typesOf
  simpa only [hsamplers, hown] using hfiltered

theorem Spelling.mem_sampled {name : List Char} :
    name ∈ x.sampled ↔ x.sort = .texture ∧ name = x.name ++ "Sampler".toList := by
  rw [sampled]
  split_ifs with h <;> simp [h]

/-- Whether there is a texture whose sampler has the name of an argument. -/
def ShaderFunction.NamesSampler (f : ShaderFunction) (x : Spelling) : Prop :=
  ∃ t ∈ f.spellings, t.sort = .texture ∧ x.name = t.name ++ "Sampler".toList

instance (f : ShaderFunction) (x : Spelling) : Decidable (f.NamesSampler x) :=
  inferInstanceAs (Decidable (∃ t ∈ f.spellings, _))

theorem namesSampler_iff : f.NamesSampler x ↔ ∃ t ∈ f.spellings, x.name ∈ t.sampled := by
  simp only [ShaderFunction.NamesSampler, Spelling.mem_sampled]

section

variable (h : f.signature = .ok s) (hnames : (f.spellings.map (·.name)).Nodup) (hx : x ∈ f.spellings)
include h hnames hx

/-- Among arguments with different names, a name is declared for its argument and for the texture
whose sampler it is. -/
theorem typesOf_perm_of_nodup (values : BoolValues) :
    (Code.typesOf x.name (Code.declarations s values).toList).Perm
      ((if f.NamesSampler x then ["SamplerState".toList] else [])
        ++ if x.sort.isDeclared then [x.typeName] else []) := by
  have hsamplers : (f.spellings.flatMap fun y =>
      if x.name ∈ y.sampled then ["SamplerState".toList] else [])
      = if f.NamesSampler x then ["SamplerState".toList] else [] := by
    by_cases hex : f.NamesSampler x
    · obtain ⟨t, ht, htx⟩ := namesSampler_iff.1 hex
      rw [if_pos hex, flatMap_eq_of_only (hnames.of_map _) ht, if_pos htx]
      intro y hy hyx
      have hyx' : x.name ∈ y.sampled := by
        by_contra hno
        exact hyx (if_neg hno)
      rw [Spelling.mem_sampled] at htx hyx'
      exact List.inj_on_of_nodup_map hnames hy ht
        (List.append_cancel_right (hyx'.2.symm.trans htx.2))
    · rw [if_neg hex]
      exact List.flatMap_eq_nil_iff.2 fun y hy => if_neg fun hyx =>
        hex (namesSampler_iff.2 ⟨y, hy, hyx⟩)
  have hown : (f.spellings.flatMap fun y =>
      if y.name = x.name ∧ y.sort.isDeclared then [y.typeName] else [])
      = if x.sort.isDeclared then [x.typeName] else [] := by
    rw [flatMap_eq_of_only (hnames.of_map _) hx]
    · simp
    · intro y hy hyx
      by_contra hne
      exact hyx (if_neg fun hc => hne (List.inj_on_of_nodup_map hnames hy hx hc.1))
  rw [← hsamplers, ← hown]
  exact typesOf_perm h values x.name

theorem mem_outputs_iff : String.ofList x.name ∈ s.outputs.map (·.name) ↔ x.sort = .output := by
  rw [f.map_name_outputs h, List.mem_flatMap]
  constructor
  · rintro ⟨y, hy, hyx⟩
    split_ifs at hyx with hsort
    · have hname := String.ofList_injective (List.mem_singleton.1 hyx)
      rwa [List.inj_on_of_nodup_map hnames hx hy hname]
    · cases hyx
  · exact fun hsort => ⟨x, hx, by simp [hsort]⟩

end

theorem map_fst_additionalOutputs (h : f.signature = .ok s) :
    s.additionalOutputs.map (·.1) = s.outputs.map (·.name) := by
  refine List.forall₂_eq_eq_eq ▸ List.forall₂_map_left_iff.2 (List.forall₂_map_right_iff.2 ?_)
  exact (Artifact.forall₂_additionalOutputs h).imp fun _ _ ho => ho.1

/-- The name of an argument is that of an additional output, or else it is declared exactly once. -/
def Variant.IntroducesOnce (v : Variant) (declarations : String) (x : Spelling) : Prop :=
  if String.ofList x.name ∈ v.additionalOutputs.map (·.1) then
    Code.typesOf x.name declarations.toList = []
  else (Code.typesOf x.name declarations.toList).length = 1

instance (v : Variant) (declarations : String) (x : Spelling) :
    Decidable (v.IntroducesOnce declarations x) :=
  inferInstanceAs (Decidable (if String.ofList x.name ∈ v.additionalOutputs.map (·.1) then
    Code.typesOf x.name declarations.toList = []
    else (Code.typesOf x.name declarations.toList).length = 1))

theorem not_namesSampler_of_context (hx : x.sort = .context) : ¬ f.NamesSampler x := by
  rintro ⟨t, -, -, ht⟩
  have hspec := x.sort_spec
  rw [hx] at hspec
  have hname : x.name = "Parameters".toList := by rw [← hspec.2, String.toList_ofList]
  have hsuffix : "Sampler".toList <:+ "Parameters".toList := ⟨t.name, by rw [← ht, hname]⟩
  exact absurd hsuffix (by decide)

section

variable {v : Variant}
  (houtput : String.ofList x.name ∈ v.additionalOutputs.map (·.1) ↔ x.sort = .output)
  {declarations : String}
  (htypes : (Code.typesOf x.name declarations.toList).Perm
    ((if f.NamesSampler x then ["SamplerState".toList] else [])
      ++ if x.sort.isDeclared then [x.typeName] else []))
include houtput htypes

theorem introducesOnce_iff (hx : x.sort ≠ .context) :
    v.IntroducesOnce declarations x ↔ (x.sort = .sampler ↔ f.NamesSampler x) := by
  have hlength : (Code.typesOf x.name declarations.toList).length
      = (if f.NamesSampler x then 1 else 0) + if x.sort.isDeclared then 1 else 0 := by
    rw [htypes.length_eq, List.length_append]
    split_ifs <;> rfl
  simp only [Variant.IntroducesOnce, houtput, ← List.length_eq_zero_iff, hlength]
  cases hsort : x.sort
  case context => exact absurd hsort hx
  all_goals by_cases hsampler : f.NamesSampler x <;> simp [hsampler, ArgumentSort.isDeclared]

theorem type_eq_of_introducesOnce (h : v.IntroducesOnce declarations x) :
    ∀ type ∈ Code.typesOf x.name declarations.toList, type = x.typeName := by
  intro type htype
  rcases List.mem_append.1 (htypes.mem_iff.1 htype) with hmem | hmem <;> split_ifs at hmem with hif
  · -- the sampler of a texture is declared, so the argument is a sampler
    have hcontext : x.sort ≠ .context := fun hx => not_namesSampler_of_context hx hif
    have hspec := x.sort_spec
    rw [((introducesOnce_iff houtput htypes hcontext).1 h).2 hif] at hspec
    rw [List.mem_singleton.1 hmem, ← hspec, String.toList_ofList]
  · exact absurd hmem List.not_mem_nil
  · exact List.mem_singleton.1 hmem
  · exact absurd hmem List.not_mem_nil

end

/-- Every argument but the parameters of a material is an additional output of a variant or is
declared exactly once in its code, and not both, if and only if exactly those arguments are samplers
that are named after textures. An argument that is declared once is declared with its own type. -/
theorem declared_once_iff (hs : f.signature = .ok s) (hnames : (f.spellings.map (·.name)).Nodup)
    {tag : String} {context : GenerationContext} {earlier : Option IdentifierTable}
    {supply : Supply} {a : Artifact}
    (ha : (Artifact.generate f s tag context earlier supply).1 = .ok a) {v : Variant}
    (hv : v ∈ a.variants) :
    f.spellings.length = f.arguments.length
    ∧ v.code = Code.ofFunction f (Code.declarations s v.boolValues) tag context
    ∧ ((∀ x ∈ f.spellings, x.sort ≠ .context →
          v.IntroducesOnce (Code.declarations s v.boolValues) x)
        ↔ ∀ x ∈ f.spellings, x.sort = .sampler ↔ f.NamesSampler x)
    ∧ ∀ x ∈ f.spellings, v.IntroducesOnce (Code.declarations s v.boolValues) x →
      ∀ type ∈ Code.typesOf x.name (Code.declarations s v.boolValues).toList, type = x.typeName := by
  obtain ⟨n, -, rfl⟩ := Artifact.exists_of_generate_eq_ok ha
  have houtput : ∀ x ∈ f.spellings,
      (String.ofList x.name ∈ v.additionalOutputs.map (·.1) ↔ x.sort = .output) := by
    intro x hx
    obtain ⟨w, -, rfl⟩ := Artifact.mem_variants hv
    rw [← mem_outputs_iff hs hnames hx, ← map_fst_additionalOutputs hs]
    rfl
  have htypes := fun x hx => typesOf_perm_of_nodup hs hnames (x := x) hx v.boolValues
  refine ⟨(f.exists_suits hs).1, (Artifact.connected_withIdentifiers hs).code v hv,
    ⟨fun h x hx => ?_, fun h x hx hcontext => ?_⟩, fun x hx =>
      type_eq_of_introducesOnce (houtput x hx) (htypes x hx)⟩
  · by_cases hcontext : x.sort = .context
    · simp [hcontext, not_namesSampler_of_context hcontext]
    · exact (introducesOnce_iff (houtput x hx) (htypes x hx) hcontext).1 (h x hx hcontext)
  · exact (introducesOnce_iff (houtput x hx) (htypes x hx) hcontext).2 (h x hx)

/-- A function with an argument of each sort, the sampler among them being that of the texture. -/
theorem declared_once_iff_of_each_sort :
    let f : ShaderFunction :=
      { name := "Tint"
        arguments := ["bool Flip", " const float Gain", " Texture2D Map", " SamplerState MapSampler",
          " [Expose] const float4x4 World", " FMaterialPixelParameters Parameters",
          " out float3 Color"]
        body := " Color = Map.Sample(MapSampler, 0) * Gain; " }
    let context : GenerationContext := { sourceFile := "lib.hlsl" }
    ∃ s, f.signature = .ok s ∧ (f.spellings.map (·.name)).Nodup
      ∧ ∃ a, (Artifact.generate f s "TAG" context none .counting).1 = .ok a
        ∧ ∃ v ∈ a.variants, ∀ x ∈ f.spellings, x.sort ≠ .context →
          v.IntroducesOnce (Code.declarations s v.boolValues) x := by
  intro f context
  have hevaluated : f.signature.isOk = true ∧ (f.spellings.map (·.name)).Nodup
      ∧ (∀ x ∈ f.spellings, x.sort = .sampler ↔ f.NamesSampler x)
      ∧ TexCoordinate.highest f.body = .ok none := by
    decide +kernel
  obtain ⟨hok, hnames, hsamplers, hhighest⟩ := hevaluated
  cases hs : f.signature with
  | error e =>
    rw [hs] at hok
    cases hok
  | ok s =>
    have ha : (Artifact.generate f s "TAG" context none .counting).1 = .ok _ :=
      congrArg Prod.fst (Artifact.generate_eq_ok hhighest)
    obtain ⟨v, hv, -⟩ : ∃ v ∈ (Artifact.withIdentifiers f s "TAG" context
        (s.naming none .counting).table none).variants, v.index = ((0 : Nat) : Int) :=
      Artifact.exists_variant (Nat.two_pow_pos _)
    exact ⟨s, rfl, hnames, _, ha, v, hv, (declared_once_iff hs hnames ha hv).2.2.1.2 hsamplers⟩

namespace LoneSampler

/-- `SamplerState LinearSampler`, with no texture that it could be the sampler of -/
def alone : ShaderFunction :=
  { name := "F", arguments := ["SamplerState LinearSampler", " out float R"], body := " R = 1; " }

/-- A value that has the name of a sampler. -/
def twice : ShaderFunction :=
  { name := "F", arguments := ["Texture2D Tex", " float TexSampler", " out float R"]
    body := " R = TexSampler; " }

/-- That every argument of a function is introduced once, in whatever is generated for it. -/
def IntroducesAllOnce (f : ShaderFunction) : Prop :=
  ∀ (s : Signature) (tag : String) (context : GenerationContext)
    (earlier : Option IdentifierTable) (supply : Supply) (a : Artifact) (v : Variant),
    f.signature = .ok s → (f.spellings.map (·.name)).Nodup →
    (Artifact.generate f s tag context earlier supply).1 = .ok a → v ∈ a.variants →
    ∀ x ∈ f.spellings, x.sort ≠ .context → v.IntroducesOnce (Code.declarations s v.boolValues) x

/-- A sampler without a texture is not declared, and a value that is named as the sampler of a texture
is declared twice. -/
theorem not_forall_declared_once : ¬ IntroducesAllOnce alone ∧ ¬ IntroducesAllOnce twice := by
  have hevaluated : ∀ f ∈ [alone, twice], (f.spellings.map (·.name)).Nodup
      ∧ TexCoordinate.highest f.body = .ok none
      ∧ f.signature.toOption.any (fun s => decide (∃ x ∈ f.spellings, x.sort ≠ .context
        ∧ ¬ (Artifact.variant f s "" default none 0).IntroducesOnce
          (Code.declarations s (Artifact.variant f s "" default none 0).boolValues) x)) = true := by
    decide +kernel
  have hnot : ∀ f ∈ [alone, twice], ¬ IntroducesAllOnce f := by
    intro f hf h
    obtain ⟨hnames, hhighest, hbad⟩ := hevaluated f hf
    cases hs : f.signature with
    | error e =>
      rw [hs] at hbad
      cases hbad
    | ok s =>
      rw [hs] at hbad
      obtain ⟨x, hx, hcontext, hnot⟩ := of_decide_eq_true hbad
      exact hnot (h s "" default none .counting _ _ hs hnames
        (congrArg Prod.fst (Artifact.generate_eq_ok hhighest))
        (List.mem_map_of_mem (List.mem_range.2 (Nat.two_pow_pos _))) x hx hcontext)
  exact ⟨hnot alone (by simp), hnot twice (by simp)⟩

end LoneSampler

end ShaderGraph
