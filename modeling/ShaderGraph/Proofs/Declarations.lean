import Mathlib.Data.List.TakeWhile
import ShaderGraph.Graph.Code
import ShaderGraph.Proofs.OrderedMap
import ShaderGraph.Proofs.Signature

/-!
# The words that declarations use

The declarations before the body of a variant stand one to a line, each with the name that it
declares before an equals sign and the value after it. The words of the values are types, constants
and the names under which the pins are bound, of the rows of a matrix too, and for a texture the
name of its sampler: so no value needs a name that nothing is bound to.
-/

namespace ShaderGraph

open Text

/-! ## Words and lines of a text -/

namespace Text

/-- The longest texts without any other than word characters, which are empty between two others. -/
def runs : List Char → List (List Char)
  | [] => [[]]
  | c :: cs =>
    if isWord c then
      match runs cs with
      | [] => [[c]]
      | r :: rs => (c :: r) :: rs
    else [] :: runs cs

/-- The words of a text. -/
def words (cs : List Char) : List (List Char) := (runs cs).filter (· ≠ [])

theorem runs_append_cons {c : Char} (hc : isWord c = false) (b : List Char) :
    ∀ a, runs (a ++ c :: b) = runs a ++ runs b
  | [] => by simp [runs, hc]
  | d :: a => by
    have ih := runs_append_cons hc b a
    rw [List.cons_append, runs, runs, ih]
    split_ifs
    · cases ha : runs a with
      | nil =>
        cases a with
        | nil => cases ha
        | cons e a =>
          unfold runs at ha
          split_ifs at ha
          split at ha <;> cases ha
      | cons r rs => rfl
    · rfl

theorem words_append_cons {c : Char} (hc : isWord c = false) (a b : List Char) :
    words (a ++ c :: b) = words a ++ words b := by
  rw [words, runs_append_cons hc, List.filter_append, words, words]

theorem runs_of_all : ∀ {w : List Char}, (∀ c ∈ w, isWord c = true) → runs w = [w]
  | [], _ => rfl
  | c :: w, h => by
    rw [runs, if_pos (h c List.mem_cons_self),
      runs_of_all fun d hd => h d (List.mem_cons_of_mem _ hd)]

theorem mem_words_of_all {w v : List Char} (h : ∀ c ∈ w, isWord c = true) (hv : v ∈ words w) :
    v = w := by
  rw [words, runs_of_all h] at hv
  exact List.mem_singleton.1 (List.mem_filter.1 hv).1

theorem pieces_append_cons (sep : Char) (b : List Char) :
    ∀ a, pieces sep (a ++ sep :: b) = pieces sep a ++ pieces sep b
  | [] => by simp [pieces]
  | c :: a => by
    have ih := pieces_append_cons sep b a
    rw [List.cons_append, pieces, pieces, ih]
    split_ifs
    · rfl
    · cases ha : pieces sep a with
      | nil =>
        cases a with
        | nil => cases ha
        | cons e a =>
          unfold pieces at ha
          split_ifs at ha
          split at ha <;> cases ha
      | cons p ps => rfl

theorem pieces_of_not_mem {sep : Char} : ∀ {a : List Char}, sep ∉ a → pieces sep a = [a]
  | [], _ => rfl
  | c :: a, h => by
    rw [List.mem_cons, not_or] at h
    rw [pieces, if_neg (Ne.symm h.1), pieces_of_not_mem h.2]

end Text

/-! ## What declarations use -/

namespace Code

/-- The words of the values of declarations, which stand after the equals sign of each line. -/
def usedWords (cs : List Char) : List (List Char) :=
  (pieces '\n' cs).flatMap fun line => words (line.dropWhile (· ≠ '='))

/-- A text of declarations, which others may follow, whose words are allowed. -/
def UsesOnly (allowed : List Char → Prop) (d : List Char) : Prop :=
  ∀ rest, ∀ w ∈ usedWords (d ++ rest), allowed w ∨ w ∈ usedWords rest

namespace UsesOnly

variable {allowed : List Char → Prop} {d d' : List Char}

theorem nil : UsesOnly allowed [] := fun _ _ => Or.inr

theorem append (h : UsesOnly allowed d) (h' : UsesOnly allowed d') : UsesOnly allowed (d ++ d') := by
  intro rest w hw
  rw [List.append_assoc] at hw
  exact (h _ w hw).elim Or.inl (h' rest w)

theorem flatMap {α : Type} {g : α → List Char} : ∀ {as : List α},
    (∀ a ∈ as, UsesOnly allowed (g a)) → UsesOnly allowed (as.flatMap g)
  | [], _ => nil
  | a :: _, h => (h a List.mem_cons_self).append
      (flatMap fun b hb => h b (List.mem_cons_of_mem _ hb))

theorem allowed_of_mem (h : UsesOnly allowed d) {w : List Char} (hw : w ∈ usedWords d) :
    allowed w := by
  refine (h [] w (by rwa [List.append_nil])).resolve_right ?_
  exact List.not_mem_nil

/-- The declaration of a name uses the words of its value. -/
theorem assign {left value : List Char} (hleft : ∀ c ∈ left, c ≠ '=' ∧ c ≠ '\n')
    (hvalue : '\n' ∉ value) (hwords : ∀ w ∈ words value, allowed w) :
    UsesOnly allowed (left ++ " = ".toList ++ value ++ ";\n".toList) := by
  intro rest w hw
  have hline : left ++ " = ".toList ++ value ++ ";\n".toList ++ rest
      = (left ++ ' ' :: '=' :: ' ' :: (value ++ [';'])) ++ '\n' :: rest := by simp
  have hdrop : (left ++ ' ' :: '=' :: ' ' :: (value ++ [';'])).dropWhile (· ≠ '=')
      = '=' :: ' ' :: (value ++ [';']) := by
    rw [List.dropWhile_append_of_pos fun c hc => decide_eq_true (hleft c hc).1]
    rfl
  have hbreak : '\n' ∉ left ++ ' ' :: '=' :: ' ' :: (value ++ [';']) := by
    simpa [hvalue] using fun h => (hleft _ h).2 rfl
  have hsplit : words ('=' :: ' ' :: (value ++ [';'])) = words value := by
    have hequals := words_append_cons (c := '=') (by decide) [] (' ' :: (value ++ [';']))
    have hblank := words_append_cons (c := ' ') (by decide) [] (value ++ [';'])
    have hend := words_append_cons (c := ';') (by decide) value []
    simp only [List.nil_append] at hequals hblank
    rw [hequals, hblank, hend]
    simp [words, runs]
  unfold usedWords at hw ⊢
  rw [hline, pieces_append_cons, pieces_of_not_mem hbreak, List.singleton_append,
    List.flatMap_cons, hdrop, hsplit] at hw
  exact (List.mem_append.1 hw).imp_left (hwords w)

end UsesOnly

end Code

/-! ## How pins are written -/

namespace Spelling

/-- The name of an argument is made of word characters. -/
def Named (s : Spelling) : Prop := ∀ c ∈ s.name, isWord c = true

theorem named_of_readTyped? {q : Qualifier} {cs : List Char} {s : Spelling}
    (h : readTyped? q cs = some s) : s.Named := by
  unfold readTyped? at h
  simp only [] at h
  split at h
  · cases h
  · split_ifs at h
    obtain ⟨d, -, rfl⟩ := Option.map_eq_some_iff.1 h
    exact fun c hc => List.mem_takeWhile_imp hc

theorem named_of_readAfter? {word cs : List Char} {q : Qualifier} {s : Spelling}
    (h : readAfter? word q cs = some s) : s.Named := by
  unfold readAfter? at h
  split_ifs at h
  split at h
  · cases h
  · split_ifs at h
    split at h
    · rename_i h'
      cases h
      exact named_of_readTyped? h'
    · exact named_of_readTyped? h

theorem named_of_readQualified? {cs : List Char} {s : Spelling} (h : readQualified? cs = some s) :
    s.Named := by
  unfold readQualified? at h
  simp only [] at h
  split at h
  · rename_i h'
    cases h
    exact named_of_readAfter? h'
  · split at h
    · rename_i h'
      cases h
      exact named_of_readAfter? h'
    · split at h
      · rename_i h'
        cases h
        exact named_of_readTyped? h'
      · exact named_of_readTyped? h

theorem named_of_readBracketed? {s : Spelling} :
    ∀ {before cs : List Char}, readBracketed? before cs = some s → s.Named
  | _, [], h => by cases h
  | before, c :: cs, h => by
    unfold readBracketed? at h
    split at h
    · rename_i h'
      cases h
      exact named_of_readBracketed? h'
    · split_ifs at h
      obtain ⟨s', hs', rfl⟩ := Option.map_eq_some_iff.1 h
      exact named_of_readQualified? (s := s') hs'

theorem named_of_read? {cs : List Char} {s : Spelling} (h : read? cs = some s) : s.Named := by
  unfold read? at h
  split at h
  · exact named_of_readBracketed? h
  · exact named_of_readQualified? h

end Spelling

/-- A word that can stand in a declaration without being the name of a binding. -/
structure IsTypeName (w : List Char) : Prop where
  word : ∀ c ∈ w, isWord c = true
  unbound : ¬"INTERNAL_IN_".toList <+: w

instance (w : List Char) : Decidable (IsTypeName w) :=
  decidable_of_iff (w.all isWord = true ∧ "INTERNAL_IN_".toList.isPrefixOf w = false) <| by
    rw [List.all_eq_true, Bool.eq_false_iff, ne_eq, List.isPrefixOf_iff_prefix]
    exact ⟨fun h => ⟨h.1, h.2⟩, fun h => ⟨h.word, h.unbound⟩⟩

/-- What is certain of the pins of an argument. -/
structure Pin.Resolved (p : Pin) : Prop where
  name : ∀ c ∈ p.name.toList, isWord c = true
  type : IsTypeName p.declaredType.toList
  /-- a pin that chooses between variants is no parameter -/
  hidden : p.kind = .staticBool → p.isExposed = false
  /-- an output has the type that its declared type has as an output -/
  output : p.isOutput = true → ∃ info t, OrderedMap.get? typeTable p.declaredType = some info
    ∧ info.output = some t ∧ p.outputType = some t

theorem isTypeName_of_get? {name : String} {info : TypeInfo}
    (h : OrderedMap.get? typeTable name = some info) : IsTypeName name.toList := by
  have hall : ∀ k ∈ OrderedMap.keys typeTable, IsTypeName k.toList := by decide
  exact hall name (OrderedMap.isSome_get?.1 (by rw [h]; rfl))

theorem isWord_append {a b : List Char} (ha : ∀ c ∈ a, isWord c = true)
    (hb : ∀ c ∈ b, isWord c = true) : ∀ c ∈ a ++ b, isWord c = true := fun c hc =>
  (List.mem_append.1 hc).elim (ha c) (hb c)

theorem Resolution.From.resolved {name : String} {r : Resolution} (h : r.From name)
    (hname : ∀ c ∈ name.toList, isWord c = true) : ∀ p ∈ r.pins, p.Resolved := by
  cases h with
  | none => exact fun p hp => nomatch hp
  | matrix isConst metadata tooltip =>
    intro p hp
    obtain ⟨i, hi, rfl⟩ := List.mem_map.1 hp
    have hdigit : ∀ i ∈ List.range 4, ∀ c ∈ (toString i).toList, isWord c = true := by decide
    have htype : IsTypeName "float4".toList := by decide
    refine ⟨?_, htype, nofun, nofun⟩
    rw [Pin.row, String.toList_append]
    exact isWord_append hname (hdigit i hi)
  | @pin p q hp hpart hnone htyped hchecked =>
    intro q' hq'
    obtain rfl := List.mem_singleton.1 hq'
    obtain ⟨houtput, hexposed, -⟩ := Pin.checked_eq_ok_iff.1 hchecked
    have hhidden : q'.kind = .staticBool → q'.isExposed = false := by
      intro hkind
      rw [hkind] at hexposed
      exact Bool.eq_false_iff.2 fun he => absurd (hexposed he) (by decide)
    rcases Pin.typed_cases htyped with ⟨hbool, b, rfl⟩ | ⟨info, v, hinfo, rfl⟩
    · refine ⟨hp ▸ hname, ?_, hhidden, fun ho => ?_⟩
      · rw [show p.declaredType = "bool" from hbool]
        decide
      · have hsome := houtput ho
        rw [show p.outputType = .none from hnone] at hsome
        cases hsome
    · refine ⟨hp ▸ hname, isTypeName_of_get? hinfo, hhidden, fun ho => ?_⟩
      obtain ⟨t, ht⟩ := Option.isSome_iff_exists.1 (houtput ho)
      exact ⟨info, t, hinfo, ht, ht⟩

/-- What an argument resolves to comes from a name that is made of word characters. -/
theorem exists_from_of_resolveArgument {raw comment : String} {r : Resolution}
    (h : resolveArgument raw comment = .ok r) :
    ∃ name : String, (∀ c ∈ name.toList, isWord c = true) ∧ r.From name := by
  obtain ⟨spelling, hread, hfrom⟩ := resolveArgument_from h
  refine ⟨_, ?_, hfrom⟩
  rw [String.toList_ofList]
  exact Spelling.named_of_read? hread

theorem resolved_of_mem {f : ShaderFunction} {s : Signature} (h : f.signature = .ok s) {p : Pin}
    (hp : p ∈ s.inputs ∨ p ∈ s.outputs) : p.Resolved := by
  obtain ⟨raw, r, hr, hpr⟩ := exists_argument_of_mem h hp
  obtain ⟨name, hname, hfrom⟩ := exists_from_of_resolveArgument hr
  exact hfrom.resolved hname p hpr

/-! ## The declarations of a variant -/

theorem not_break_of_isWord {c : Char} (h : isWord c = true) : c ≠ '=' ∧ c ≠ '\n' := by
  constructor <;> rintro rfl <;> exact absurd h (by decide)

theorem isWord_bindingName {p : Pin} (h : ∀ c ∈ p.name.toList, isWord c = true) :
    ∀ c ∈ p.bindingName.toList, isWord c = true := by
  have hstart : ∀ c ∈ "INTERNAL_IN_".toList, isWord c = true := by decide
  rw [Pin.bindingName, String.toList_append]
  exact isWord_append hstart h

namespace Signature

/-- The words that the values of declarations may use: those that do not start as the names of
bindings do, the names of bindings, and for a texture the name of its sampler. -/
inductive Provides (s : Signature) : List Char → Prop
  | unbound {w : List Char} (h : ¬"INTERNAL_IN_".toList <+: w) : s.Provides w
  | binding {p : Pin} (hp : p ∈ s.inputs) (hkind : p.kind ≠ .staticBool) :
    s.Provides p.bindingName.toList
  | sampler {p : Pin} (hp : p ∈ s.inputs) (hkind : p.kind.isTexture = true) :
    s.Provides (p.bindingName ++ "Sampler").toList

end Signature

namespace Code

/-- A line that declares a name. -/
def assignment (isConst : Bool) (type name value : String) : String :=
  (if isConst then "const " else "") ++ type ++ " " ++ name ++ " = " ++ value ++ ";\n"

/-- A function, or none, and what it is applied to. -/
def call (function value : String) : String := function ++ "(" ++ value ++ ")"

theorem inputDeclaration_eq (p : Pin) : inputDeclaration p =
    if p.kind.isTexture then
      assignment p.isConst "SamplerState" (p.name ++ "Sampler") (p.bindingName ++ "Sampler")
        ++ assignment p.isConst p.declaredType p.name (call "" p.bindingName)
    else
      assignment p.isConst p.declaredType p.name
        (call (if p.kind = .materialAttributes then "" else p.declaredType) p.bindingName) := by
  unfold inputDeclaration assignment call
  simp only []
  split_ifs <;> refine String.toList_injective ?_ <;> simp

theorem constant_eq (name value : String) :
    "const bool " ++ name ++ " = " ++ value ++ ";\n" = assignment true "bool" name value := by
  refine String.toList_injective ?_
  simp [assignment]

theorem matrixResolution_declaration (isConst : Bool) (name : String) (metadata : Metadata)
    (tooltip : String) : (matrixResolution isConst name metadata tooltip).declaration
      = assignment isConst "float4x4" name (call "float4x4" (", ".intercalate
        (((List.range 4).map (Pin.row name metadata tooltip)).map (·.bindingName)))) := by
  refine String.toList_injective ?_
  simp [matrixResolution, assignment, call]

theorem usesOnly_assignment {allowed : List Char → Prop} {isConst : Bool}
    {type name value : String} (htype : ∀ c ∈ type.toList, isWord c = true)
    (hname : ∀ c ∈ name.toList, isWord c = true) (hvalue : '\n' ∉ value.toList)
    (hwords : ∀ w ∈ words value.toList, allowed w) :
    UsesOnly allowed (assignment isConst type name value).toList := by
  have hconst : ∀ c ∈ (if isConst then "const " else "").toList, c ≠ '=' ∧ c ≠ '\n' := by
    cases isConst <;> decide
  have hleft : ∀ c ∈ ((if isConst then "const " else "") ++ type ++ " " ++ name).toList,
      c ≠ '=' ∧ c ≠ '\n' := by
    intro c hc
    simp only [String.toList_append, List.mem_append] at hc
    rcases hc with ((hc | hc) | hc) | hc
    · exact hconst c hc
    · exact not_break_of_isWord (htype c hc)
    · revert c
      decide
    · exact not_break_of_isWord (hname c hc)
  have h := UsesOnly.assign hleft hvalue hwords
  rwa [← String.toList_append, ← String.toList_append, ← String.toList_append] at h

/-- The words of a call, whose value ends in no word of its own. -/
theorem mem_words_call {g x : String} (hg : ∀ c ∈ g.toList, isWord c = true) {w : List Char}
    (hw : w ∈ words (call g x).toList) : w = g.toList ∨ w ∈ words x.toList := by
  have htext : (call g x).toList = g.toList ++ '(' :: (x.toList ++ ')' :: []) := by simp [call]
  rw [htext, words_append_cons (by decide), words_append_cons (by decide)] at hw
  rcases List.mem_append.1 hw with hw | hw
  · exact Or.inl (mem_words_of_all hg hw)
  · exact Or.inr ((List.mem_append.1 hw).resolve_right (List.not_mem_nil (a := w)))

theorem not_mem_call {g x : String} (hg : ∀ c ∈ g.toList, isWord c = true)
    (hx : '\n' ∉ x.toList) : '\n' ∉ (call g x).toList := by
  have hbreak : '\n' ∉ g.toList := fun h => absurd (hg _ h) (by decide)
  simp [call, hbreak, hx]

/-- A pin is declared as a value of its type that is made of its binding. -/
theorem usesOnly_inputDeclaration {s : Signature} {p : Pin} (hp : p ∈ s.inputs) (h : p.Resolved)
    (hkind : p.kind ≠ .staticBool) : UsesOnly s.Provides (inputDeclaration p).toList := by
  have hbinding := isWord_bindingName h.name
  have hbreak : '\n' ∉ p.bindingName.toList := fun hn => absurd (hbinding _ hn) (by decide)
  have hcall : ∀ g : String, IsTypeName g.toList → UsesOnly s.Provides
      (assignment p.isConst p.declaredType p.name (call g p.bindingName)).toList := by
    intro g hg
    refine usesOnly_assignment h.type.word h.name (not_mem_call hg.word hbreak) fun w hw => ?_
    rcases mem_words_call hg.word hw with rfl | hw
    · exact .unbound hg.unbound
    · rw [mem_words_of_all hbinding hw]
      exact .binding hp hkind
  have hempty : IsTypeName "".toList := by decide
  rw [inputDeclaration_eq]
  split_ifs with htexture hattributes
  · have hsampled : ∀ name : String, (∀ c ∈ name.toList, isWord c = true) →
        ∀ c ∈ (name ++ "Sampler").toList, isWord c = true := fun name hname => by
      have hsuffix : ∀ c ∈ "Sampler".toList, isWord c = true := by decide
      rw [String.toList_append]
      exact isWord_append hname hsuffix
    rw [String.toList_append]
    refine .append (usesOnly_assignment (by decide) (hsampled _ h.name) ?_ fun w hw => ?_)
      (hcall "" hempty)
    · exact fun hn => absurd (hsampled _ hbinding _ hn) (by decide)
    · rw [mem_words_of_all (hsampled _ hbinding) hw]
      exact .sampler hp htexture
  · exact hcall "" hempty
  · exact hcall p.declaredType h.type

theorem usesOnly_declaration {s : Signature} {p : Pin} (hp : p ∈ s.inputs) (h : p.Resolved)
    (values : BoolValues) : UsesOnly s.Provides (declaration values p).toList := by
  have hconstant : ∀ b : Bool, '\n' ∉ (if b then "true" else "false").toList
      ∧ ∀ w ∈ words (if b then "true" else "false").toList, ¬"INTERNAL_IN_".toList <+: w := by
    decide
  unfold declaration
  by_cases hpart : p.isInternal
  · rw [if_pos hpart]
    exact .nil
  · rw [if_neg hpart]
    by_cases hbool : p.kind = .staticBool
    · obtain ⟨hbreak, hwords⟩ := hconstant ((OrderedMap.get? values p.name).getD false)
      rw [if_pos hbool, constant_eq]
      exact usesOnly_assignment (by decide) h.name hbreak fun w hw => .unbound (hwords w hw)
    · rw [if_neg hbool]
      exact usesOnly_inputDeclaration hp h hbool

theorem mem_or_of_mem_intercalate {sep : List Char} {c : Char} : ∀ {ls : List (List Char)},
    c ∈ sep.intercalate ls → c ∈ sep ∨ ∃ l ∈ ls, c ∈ l
  | [], hc => absurd hc List.not_mem_nil
  | [l], hc => Or.inr ⟨l, List.mem_singleton_self l, by rwa [List.intercalate_singleton] at hc⟩
  | l :: l' :: ls, hc => by
    rw [List.intercalate_cons_cons] at hc
    rcases List.mem_append.1 hc with hc | hc
    · rcases List.mem_append.1 hc with hc | hc
      · exact Or.inr ⟨l, List.mem_cons_self, hc⟩
      · exact Or.inl hc
    · exact (mem_or_of_mem_intercalate hc).imp_right fun ⟨k, hk, hck⟩ =>
        ⟨k, List.mem_cons_of_mem _ hk, hck⟩

/-- Values that stand in a list have no other words than their own. -/
theorem exists_of_mem_words_intercalate {w : List Char} : ∀ {ls : List (List Char)},
    w ∈ words (", ".toList.intercalate ls) → ∃ l ∈ ls, w ∈ words l
  | [], hw => absurd hw (List.not_mem_nil (a := w))
  | [l], hw => ⟨l, List.mem_singleton_self l, by rwa [List.intercalate_singleton] at hw⟩
  | l :: l' :: ls, hw => by
    have htext : ", ".toList.intercalate (l :: l' :: ls)
        = l ++ ',' :: ([] ++ ' ' :: ", ".toList.intercalate (l' :: ls)) := by
      rw [List.intercalate_cons_cons]
      simp
    rw [htext, words_append_cons (by decide), words_append_cons (by decide)] at hw
    rcases List.mem_append.1 hw with hw | hw
    · exact ⟨l, List.mem_cons_self, hw⟩
    · obtain ⟨k, hk, hw⟩ := exists_of_mem_words_intercalate hw
      exact ⟨k, List.mem_cons_of_mem _ hk, hw⟩

/-- A matrix is made of its rows, which are pins. -/
theorem usesOnly_matrix {s : Signature} {isConst : Bool} {name tooltip : String}
    {metadata : Metadata} (hname : ∀ c ∈ name.toList, isWord c = true)
    (hrows : ∀ p ∈ (matrixResolution isConst name metadata tooltip).pins, p ∈ s.inputs ∧ p.Resolved) :
    UsesOnly s.Provides (matrixResolution isConst name metadata tooltip).declaration.toList := by
  have hkind : ∀ p ∈ (matrixResolution isConst name metadata tooltip).pins, p.kind ≠ .staticBool := by
    intro p hp
    obtain ⟨i, -, rfl⟩ := List.mem_map.1 hp
    nofun
  have hbinding : ∀ l ∈ (((List.range 4).map (Pin.row name metadata tooltip)).map
      (·.bindingName)).map String.toList, (∀ c ∈ l, isWord c = true) ∧ s.Provides l := by
    intro l hl
    obtain ⟨b, hb, rfl⟩ := List.mem_map.1 hl
    obtain ⟨p, hp, rfl⟩ := List.mem_map.1 hb
    exact ⟨isWord_bindingName (hrows p hp).2.name, .binding (hrows p hp).1 (hkind p hp)⟩
  rw [matrixResolution_declaration]
  refine usesOnly_assignment (by decide) hname (not_mem_call (by decide) fun hbreak => ?_)
    fun w hw => ?_
  · rw [String.toList_intercalate] at hbreak
    rcases mem_or_of_mem_intercalate hbreak with hbreak | ⟨l, hl, hbreak⟩
    · exact absurd hbreak (by decide)
    · exact absurd ((hbinding l hl).1 _ hbreak) (by decide)
  · rcases mem_words_call (by decide) hw with rfl | hw
    · exact .unbound (by decide)
    · rw [String.toList_intercalate] at hw
      obtain ⟨l, hl, hw⟩ := exists_of_mem_words_intercalate hw
      rw [mem_words_of_all (hbinding l hl).1 hw]
      exact (hbinding l hl).2

/-- The values of all declarations of a variant are provided. -/
theorem usesOnly_declarations {f : ShaderFunction} {s : Signature} (h : f.signature = .ok s)
    (values : BoolValues) : UsesOnly s.Provides (declarations s values).toList := by
  obtain ⟨rs, hrs, hmade⟩ := f.exists_resolutions h
  rw [declarations, hmade.declarations, String.toList_append, String.toList_join,
    String.toList_join, List.flatMap_map, List.flatMap_map]
  refine .append (.flatMap fun r hr => ?_) (.flatMap fun p hp => ?_)
  · obtain ⟨raw, -, hraw⟩ := exists_left_of_forall₂ hrs hr
    obtain ⟨name, hname, hfrom⟩ := exists_from_of_resolveArgument hraw
    have hresolved := hfrom.resolved hname
    cases hfrom with
    | none => exact .nil
    | pin => exact .nil
    | matrix isConst metadata tooltip =>
      refine usesOnly_matrix hname fun p hp => ⟨?_, hresolved p hp⟩
      -- a row is never an output
      rw [hmade.inputs]
      refine List.mem_filter.2 ⟨List.mem_flatMap.2 ⟨_, hr, hp⟩, ?_⟩
      obtain ⟨i, -, rfl⟩ := List.mem_map.1 hp
      rfl
  · exact usesOnly_declaration hp (resolved_of_mem h (.inl hp)) values

end Code

end ShaderGraph
