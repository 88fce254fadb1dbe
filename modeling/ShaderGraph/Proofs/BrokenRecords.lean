import ShaderGraph.Proofs.Records
import ShaderGraph.Store.Documents

/-!
# Values that break the reading of an artifact

A document that lacks a member or has a value of the wrong type counts as missing, but some values
break its reading with an error that no one expects: trees that are no object, a leaf whose number is no
number, and what should be pairs but has other parts. Which ones do is told by the shape of the value
(`ArtifactRecord.isBroken_ofJson`).
-/

namespace ShaderGraph

open Json

/-! ## Readings -/

/-- Whether an error is a fault for the reader of a document, so that the document does not count as
missing. -/
def DocumentError.IsFatal (e : DocumentError) : Prop := (DocumentFault.content e).fault?.isSome = true

instance : DecidablePred DocumentError.IsFatal := fun e => by
  unfold DocumentError.IsFatal
  infer_instance

theorem DocumentError.not_isFatal_missingKey (key : String) : ¬(missingKey key).IsFatal := by
  simp [IsFatal, DocumentFault.fault?]

section

variable {α β : Type}

/-- Whether a reading ends with a value. -/
def IsRead (x : Except DocumentError α) : Prop := ∃ a, x = .ok a

/-- Whether a reading ends with a fatal error. -/
def IsBroken (x : Except DocumentError α) : Prop := ∃ e, x = .error e ∧ e.IsFatal

theorem isRead_ok (a : α) : IsRead (.ok a) := ⟨a, rfl⟩

theorem not_isBroken_ok (a : α) : ¬IsBroken (.ok a) := by
  rintro ⟨e, he, -⟩
  cases he

theorem isBroken_error_iff {e : DocumentError} :
    IsBroken (.error e : Except DocumentError α) ↔ e.IsFatal := by
  constructor
  · rintro ⟨e', he, hfatal⟩
    cases he
    exact hfatal
  · exact fun hfatal => ⟨e, rfl, hfatal⟩

theorem isBroken_bind {x : Except DocumentError α} {f : α → Except DocumentError β} :
    IsBroken (x >>= f) ↔ IsBroken x ∨ ∃ a, x = .ok a ∧ IsBroken (f a) := by
  cases x with
  | error e =>
    change IsBroken (Except.error e) ↔ _
    rw [isBroken_error_iff, isBroken_error_iff]
    simp
  | ok a =>
    rw [ok_bind]
    simp [not_isBroken_ok]

theorem isRead_bind {x : Except DocumentError α} {f : α → Except DocumentError β} :
    IsRead (x >>= f) ↔ ∃ a, x = .ok a ∧ IsRead (f a) := by
  cases x with
  | error e =>
    change IsRead (Except.error e) ↔ _
    simp [IsRead]
  | ok a =>
    rw [ok_bind]
    simp

theorem isBroken_map {x : Except DocumentError α} {f : α → β} : IsBroken (x.map f) ↔ IsBroken x := by
  cases x with
  | error e => exact isBroken_error_iff.trans isBroken_error_iff.symm
  | ok a => exact iff_of_false (not_isBroken_ok _) (not_isBroken_ok _)

theorem isRead_map {x : Except DocumentError α} {f : α → β} : IsRead (x.map f) ↔ IsRead x := by
  cases x with
  | error e => simp [IsRead, Except.map]
  | ok a => exact iff_of_true (isRead_ok _) (isRead_ok _)

/-- Whether an element of a list is bad and all before it are fine. -/
def BreaksAt (fine bad : α → Prop) (as : List α) : Prop :=
  ∃ before a after, as = before ++ a :: after ∧ (∀ b ∈ before, fine b) ∧ bad a

theorem not_breaksAt_nil (fine bad : α → Prop) : ¬BreaksAt fine bad [] := by
  rintro ⟨before, a, after, h, -⟩
  simp at h

theorem breaksAt_cons {fine bad : α → Prop} {a : α} {as : List α} :
    BreaksAt fine bad (a :: as) ↔ bad a ∨ fine a ∧ BreaksAt fine bad as := by
  constructor
  · rintro ⟨before, b, after, h, hfine, hbad⟩
    cases before with
    | nil => exact .inl ((List.cons.inj h).1 ▸ hbad)
    | cons c before =>
      obtain ⟨rfl, rfl⟩ := List.cons.inj h
      rw [List.forall_mem_cons] at hfine
      exact .inr ⟨hfine.1, before, b, after, rfl, hfine.2, hbad⟩
  · rintro (hbad | ⟨hfine, before, b, after, rfl, hbefore, hbad⟩)
    · exact ⟨[], a, as, rfl, by simp, hbad⟩
    · exact ⟨a :: before, b, after, rfl, List.forall_mem_cons.2 ⟨hfine, hbefore⟩, hbad⟩

/-- A reading of parts one after the other breaks at the first one that is not read, if that one
breaks. -/
theorem isBroken_foldlM {step : β → α → Except DocumentError β} {fine bad : α → Prop}
    (hfine : ∀ b a, IsRead (step b a) ↔ fine a) (hbad : ∀ b a, IsBroken (step b a) ↔ bad a) :
    ∀ {as : List α} {b : β}, IsBroken (as.foldlM step b) ↔ BreaksAt fine bad as
  | [], b => iff_of_false (not_isBroken_ok b) (not_breaksAt_nil fine bad)
  | a :: as, b => by
    rw [List.foldlM_cons, isBroken_bind, breaksAt_cons, hbad b a, ← hfine b a]
    refine or_congr_right ⟨?_, ?_⟩
    · rintro ⟨b', hb', hbroken⟩
      exact ⟨⟨b', hb'⟩, (isBroken_foldlM hfine hbad).1 hbroken⟩
    · rintro ⟨⟨b', hb'⟩, hbroken⟩
      exact ⟨b', hb', (isBroken_foldlM hfine hbad).2 hbroken⟩

theorem isBroken_mapM {f : α → Except DocumentError β} :
    ∀ {as : List α}, IsBroken (as.mapM f) ↔ BreaksAt (fun a => IsRead (f a)) (fun a => IsBroken (f a)) as
  | [] => iff_of_false (not_isBroken_ok _) (not_breaksAt_nil _ _)
  | a :: as => by
    rw [List.mapM_cons, isBroken_bind, breaksAt_cons, ← isBroken_mapM]
    refine or_congr_right ⟨?_, ?_⟩
    · rintro ⟨b, hb, hbroken⟩
      refine ⟨⟨b, hb⟩, (isBroken_bind.1 hbroken).resolve_right ?_⟩
      rintro ⟨bs, -, hbroken⟩
      exact not_isBroken_ok _ hbroken
    · rintro ⟨⟨b, hb⟩, hbroken⟩
      exact ⟨b, hb, isBroken_bind.2 (.inl hbroken)⟩

end

/-! ## Shapes -/

namespace Json

variable {α : Type}

theorem not_isBroken_mistyped : ¬IsBroken (.error .mistyped : Except DocumentError α) := by
  rw [isBroken_error_iff]
  decide

theorem not_isBroken_require (j : Json) (key : String) : ¬IsBroken (j.require key) := by
  unfold require
  split
  · split
    · exact not_isBroken_ok _
    · rw [isBroken_error_iff]
      exact DocumentError.not_isFatal_missingKey key
  · exact not_isBroken_mistyped

theorem not_isBroken_elements (j : Json) : ¬IsBroken j.elements := by
  unfold elements
  split
  · exact not_isBroken_ok _
  · exact not_isBroken_mistyped

/-- A value whose parts are read one by one breaks at its first part that is not read. -/
theorem isBroken_elementsBy {f : Json → Except DocumentError α} {j : Json} :
    IsBroken (j.elementsBy f) ↔ ∃ parts, j.elements? = some parts
      ∧ BreaksAt (fun p => IsRead (f p)) (fun p => IsBroken (f p)) parts := by
  unfold elementsBy
  cases j.elements? with
  | none => simp [not_isBroken_mistyped]
  | some parts => simp [isBroken_mapM]

theorem not_isBroken_recordFields (fields : List RecordField) (j : Json) :
    ¬IsBroken (recordFields fields j) := by
  unfold recordFields
  split
  · split_ifs
    · rw [isBroken_mapM]
      rintro ⟨-, f, -, -, -, hbroken⟩
      split at hbroken
      · exact not_isBroken_ok _ hbroken
      · exact not_isBroken_mistyped hbroken
    · exact not_isBroken_mistyped
  · exact not_isBroken_mistyped

/-- A value that is made of two parts. -/
def IsPaired (j : Json) : Prop := ∃ a b, j.elements? = some [a, b]

/-- A value that is made of parts, but not of two. -/
def IsUnpaired (j : Json) : Prop := ∃ parts, j.elements? = some parts ∧ parts.length ≠ 2

/-- A key with a value: two parts, of which the first has no parts that could change. -/
def IsEntry (j : Json) : Prop := ∃ k v, j.elements? = some [k, v] ∧ k.isFixed = true

theorem twoParts_eq_ok_iff {j a b : Json} : j.twoParts = .ok (a, b) ↔ j.elements? = some [a, b] := by
  unfold twoParts
  split <;> simp_all

theorem isRead_twoParts {j : Json} : IsRead j.twoParts ↔ j.IsPaired := by
  rw [IsRead, Prod.exists]
  simp only [twoParts_eq_ok_iff]
  rfl

theorem isBroken_twoParts {j : Json} : IsBroken j.twoParts ↔ j.IsUnpaired := by
  unfold twoParts IsUnpaired
  split
  · rename_i a b hparts
    simp [hparts, not_isBroken_ok]
  · rename_i parts hne hparts
    rw [hparts, isBroken_error_iff]
    refine iff_of_true (by decide) ⟨parts, rfl, fun hlength => ?_⟩
    obtain ⟨a, b, rfl⟩ := List.length_eq_two.1 hlength
    exact hne a b rfl
  · rename_i hnone
    simp [hnone, not_isBroken_mistyped]

/-- A value whose parts should be pairs, and the first one that is no pair has other parts. -/
def LacksPair (j : Json) : Prop := ∃ parts, j.elements? = some parts ∧ BreaksAt IsPaired IsUnpaired parts

theorem isBroken_elementsBy_twoParts {j : Json} : IsBroken (j.elementsBy twoParts) ↔ j.LacksPair := by
  rw [isBroken_elementsBy, LacksPair]
  simp only [isRead_twoParts, isBroken_twoParts]

/-- A value that is no object and whose parts should be keys with values, and the first one that is none
is no pair. -/
def LacksEntry (j : Json) : Prop :=
  (∀ ms, j ≠ .object ms) ∧ ∃ parts, j.elements? = some parts ∧ BreaksAt IsEntry IsUnpaired parts

theorem isBroken_keyedValues {j : Json} : IsBroken j.keyedValues ↔ j.LacksEntry := by
  unfold keyedValues LacksEntry
  split
  · simp [not_isBroken_ok]
  · rename_i hobject
    rw [isBroken_bind, or_iff_right (not_isBroken_elements j), elements]
    refine (and_iff_right_of_imp fun _ => hobject).symm.trans (and_congr_right fun _ => ?_)
    cases j.elements? with
    | none => simp
    | some parts =>
      simp only [Except.ok.injEq, exists_eq_left', Option.some.injEq]
      refine isBroken_foldlM (fun found part => ?_) fun found part => ?_
      · rw [isRead_bind, IsEntry, Prod.exists]
        refine exists₂_congr fun k v => ?_
        rw [twoParts_eq_ok_iff]
        refine and_congr_right fun _ => ?_
        by_cases hk : k.isFixed = true <;> simp [IsRead, hk, pure, Except.pure]
      · rw [isBroken_bind, ← isBroken_twoParts]
        refine or_iff_left ?_
        rintro ⟨⟨k, v⟩, -, hbroken⟩
        dsimp only at hbroken
        split_ifs at hbroken
        · exact not_isBroken_ok _ hbroken
        · exact not_isBroken_mistyped hbroken

end Json

/-! ## Parts of artifacts -/

/-- A value that tells a number by a text that spells none, or is no finite number. -/
def Json.IsNoInteger (j : Json) : Prop :=
  (∃ s, j = .string s ∧ integerOfText? s = none) ∨ ∃ x, j = .number (.real x) ∧ x.truncate? = none

theorem Json.toInteger_eq_error_iff {j : Json} :
    (∃ e, j.toInteger = .error e ∧ e ≠ .mistyped) ↔ j.IsNoInteger := by
  unfold toInteger IsNoInteger
  cases j with
  | number n =>
    cases n with
    | whole i => simp
    | real x =>
      cases hx : x.truncate? with
      | some i => simp [hx]
      | none => by_cases hnan : x.isNan = true <;> simp [hx, hnan]
  | string s => cases hs : integerOfText? s <;> simp [hs]
  | null => simp
  | bool b => simp
  | array items => simp
  | object ms => simp

theorem Json.sizeOf_lt_of_get? {ms : List (String × Json)} {key : String} {v : Json}
    (h : OrderedMap.get? ms key = some v) : sizeOf v < sizeOf (Json.object ms) := by
  obtain ⟨p, hp, rfl⟩ := Option.map_eq_some_iff.1 h
  have hmem := List.sizeOf_lt_of_mem (List.mem_of_find?_eq_some hp)
  obtain ⟨k, w⟩ := p
  simp only [Prod.mk.sizeOf_spec, Json.object.sizeOf_spec] at hmem ⊢
  omega

namespace DecisionTree

theorem ofMember_eq (key : String) : ∀ ms : List (String × Json), ofMember key ms
    = match OrderedMap.get? ms key with
      | some v => ofJson v
      | none => .error (.missingKey key)
  | [] => by
    rw [ofMember]
    rfl
  | (k, v) :: ms => by
    rw [ofMember, ofMember_eq key ms, OrderedMap.get?, OrderedMap.get?, List.find?_cons]
    by_cases hk : k = key <;> simp [hk]

theorem isBroken_leafOfJson {j : Json} :
    IsBroken (leafOfJson j) ↔ ∃ v, j.require "variant" = .ok v ∧ v.IsNoInteger := by
  unfold leafOfJson
  cases hv : j.require "variant" with
  | error e =>
    simp only [reduceCtorEq, false_and, exists_false, iff_false]
    exact fun ⟨e', he, hfatal⟩ => not_isBroken_require j "variant" ⟨e, hv, by cases he; exact hfatal⟩
  | ok v =>
    simp only [Except.ok.injEq, exists_eq_left']
    rw [← toInteger_eq_error_iff]
    rcases v.toInteger with (_ | _ | _) | i
    · simp [not_isBroken_mistyped]
    · exact iff_of_true ⟨_, rfl, by decide⟩ ⟨_, rfl, by decide⟩
    · exact iff_of_true ⟨_, rfl, by decide⟩ ⟨_, rfl, by decide⟩
    · simp [not_isBroken_ok]

/-- A tree whose reading breaks: the first leaf that is not read has a number that is none. -/
inductive Breaks : Json → Prop
  | leaf {ms : List (String × Json)} {v : Json} (hswitch : OrderedMap.get? ms "switch" = none)
    (hv : OrderedMap.get? ms "variant" = some v) (h : v.IsNoInteger) : Breaks (.object ms)
  | onTrue {ms : List (String × Json)} {pin t : Json} (hswitch : OrderedMap.get? ms "switch" = some pin)
    (ht : OrderedMap.get? ms "true" = some t) (h : Breaks t) : Breaks (.object ms)
  | onFalse {ms : List (String × Json)} {pin t f : Json}
    (hswitch : OrderedMap.get? ms "switch" = some pin) (ht : OrderedMap.get? ms "true" = some t)
    (hread : IsRead (ofJson t)) (hf : OrderedMap.get? ms "false" = some f) (h : Breaks f) :
    Breaks (.object ms)

variable {ms : List (String × Json)} {key : String}

theorem ofMember_eq_ok_iff {t : DecisionTree Json} :
    ofMember key ms = .ok t ↔ ∃ v, OrderedMap.get? ms key = some v ∧ ofJson v = .ok t := by
  rw [ofMember_eq]
  cases OrderedMap.get? ms key <;> simp

theorem isBroken_ofMember :
    IsBroken (ofMember key ms) ↔ ∃ v, OrderedMap.get? ms key = some v ∧ IsBroken (ofJson v) := by
  rw [ofMember_eq]
  cases OrderedMap.get? ms key with
  | none => simp [isBroken_error_iff, DocumentError.not_isFatal_missingKey]
  | some v => simp

theorem ofJson_of_switch {pin : Json} (h : OrderedMap.get? ms "switch" = some pin) :
    ofJson (.object ms) = do
      let t ← ofMember "true" ms
      let f ← ofMember "false" ms
      return switch pin t f := by
  rw [ofJson, h]
  cases ofMember "true" ms with
  | error e => rfl
  | ok t => cases ofMember "false" ms <;> rfl

/-- The parts of a switch are read one after the other. -/
theorem isBroken_of_switch {pin : Json} (h : OrderedMap.get? ms "switch" = some pin) :
    IsBroken (ofJson (.object ms)) ↔ ∃ t, OrderedMap.get? ms "true" = some t ∧ (IsBroken (ofJson t)
      ∨ IsRead (ofJson t) ∧ ∃ f, OrderedMap.get? ms "false" = some f ∧ IsBroken (ofJson f)) := by
  rw [ofJson_of_switch h, isBroken_bind, isBroken_ofMember]
  constructor
  · rintro (⟨t, ht, hbroken⟩ | ⟨t', ht', hbroken⟩)
    · exact ⟨t, ht, .inl hbroken⟩
    · obtain ⟨t, ht, hread⟩ := ofMember_eq_ok_iff.1 ht'
      rw [isBroken_bind, isBroken_ofMember] at hbroken
      refine ⟨t, ht, .inr ⟨⟨t', hread⟩, hbroken.resolve_right ?_⟩⟩
      rintro ⟨f, -, hbroken⟩
      exact not_isBroken_ok _ hbroken
  · rintro ⟨t, ht, hbroken | ⟨⟨t', hread⟩, hbroken⟩⟩
    · exact .inl ⟨t, ht, hbroken⟩
    · exact .inr ⟨t', ofMember_eq_ok_iff.2 ⟨t, ht, hread⟩,
        isBroken_bind.2 (.inl (isBroken_ofMember.2 hbroken))⟩

theorem isBroken_of_leaf (h : OrderedMap.get? ms "switch" = none) :
    IsBroken (ofJson (.object ms)) ↔ ∃ v, OrderedMap.get? ms "variant" = some v ∧ v.IsNoInteger := by
  rw [ofJson, h, isBroken_leafOfJson, require]
  cases OrderedMap.get? ms "variant" <;> simp

theorem not_isBroken_of_not_object {j : Json} (h : ∀ ms, j ≠ .object ms) : ¬IsBroken (ofJson j) := by
  have hleaf : ofJson j = leafOfJson j := by
    cases j with
    | object ms => exact absurd rfl (h ms)
    | _ => rw [ofJson]; simp
  rw [hleaf, isBroken_leafOfJson]
  rintro ⟨v, hv, -⟩
  unfold require at hv
  split at hv
  · exact h _ rfl
  · cases hv

theorem isBroken_of_breaks {j : Json} (h : Breaks j) : IsBroken (ofJson j) := by
  induction h with
  | leaf hswitch hv h => exact (isBroken_of_leaf hswitch).2 ⟨_, hv, h⟩
  | onTrue hswitch ht _ ih => exact (isBroken_of_switch hswitch).2 ⟨_, ht, .inl ih⟩
  | onFalse hswitch ht hread hf _ ih =>
    exact (isBroken_of_switch hswitch).2 ⟨_, ht, .inr ⟨hread, _, hf, ih⟩⟩

theorem breaks_of_isBroken (j : Json) (h : IsBroken (ofJson j)) : Breaks j := by
  by_cases hobject : ∃ ms, j = .object ms
  · obtain ⟨ms, rfl⟩ := hobject
    cases hswitch : OrderedMap.get? ms "switch" with
    | none =>
      obtain ⟨v, hv, hnone⟩ := (isBroken_of_leaf hswitch).1 h
      exact .leaf hswitch hv hnone
    | some pin =>
      obtain ⟨t, ht, hbroken | ⟨hread, f, hf, hbroken⟩⟩ := (isBroken_of_switch hswitch).1 h
      · have hsmaller := sizeOf_lt_of_get? ht
        exact .onTrue hswitch ht (breaks_of_isBroken t hbroken)
      · have hsmaller := sizeOf_lt_of_get? hf
        exact .onFalse hswitch ht hread hf (breaks_of_isBroken f hbroken)
  · exact absurd h (not_isBroken_of_not_object fun ms hms => hobject ⟨ms, hms⟩)
termination_by sizeOf j

theorem isBroken_ofJson {j : Json} : IsBroken (ofJson j) ↔ Breaks j :=
  ⟨breaks_of_isBroken j, isBroken_of_breaks⟩

end DecisionTree

/-- A variant whose reading breaks: its bool values or its outputs are no pairs. -/
def VariantRecord.Breaks (j : Json) : Prop :=
  IsRead (j.require "index") ∧ ∃ values, j.require "bool_values" = .ok values ∧ (values.LacksEntry
    ∨ IsRead values.keyedValues ∧ IsRead (j.require "code")
      ∧ ∃ bindings, j.require "bindings" = .ok bindings
        ∧ IsRead (bindings.elementsBy (recordFields CodeBinding.fieldNames))
        ∧ ∃ outputs, j.require "additional_outputs" = .ok outputs ∧ outputs.LacksPair)

theorem VariantRecord.isBroken_ofJson {j : Json} : IsBroken (ofJson j) ↔ Breaks j := by
  have hbindings : ∀ b : Json, ¬IsBroken (b.elementsBy (recordFields CodeBinding.fieldNames)) := by
    intro b
    rw [isBroken_elementsBy]
    rintro ⟨-, -, -, p, -, -, -, hbroken⟩
    exact not_isBroken_recordFields _ p hbroken
  unfold ofJson Breaks
  simp only [isBroken_bind, not_isBroken_require, false_or, isBroken_keyedValues,
    isBroken_elementsBy_twoParts, hbindings, not_isBroken_ok, pure, Except.pure, and_false, exists_false,
    or_false, exists_and_right, IsRead]

namespace ArtifactRecord

/-- Trees whose reading breaks: they are no object, or the first one that is not read breaks. -/
def TreesBreak (j : Json) : Prop :=
  (∀ ms, j ≠ .object ms) ∨ ∃ ms, j = .object ms
    ∧ BreaksAt (fun p => IsRead (DecisionTree.ofJson p.2)) (fun p => DecisionTree.Breaks p.2) ms

theorem isBroken_treesOfJson {j : Json} : IsBroken (treesOfJson j) ↔ TreesBreak j := by
  unfold treesOfJson TreesBreak
  rw [isBroken_bind]
  cases j with
  | object ms =>
    simp [members, not_isBroken_ok, isBroken_mapM, isBroken_map, isRead_map, DecisionTree.isBroken_ofJson]
  | _ => simp [members, isBroken_error_iff]; decide

/-- A document whose reading as an artifact breaks: all before its variants is read, and then one of the
variants or the trees break. -/
def Breaks (j : Json) : Prop :=
  (IsRead (j.require "name") ∧ IsRead (j.require "fingerprint") ∧ IsRead (j.require "comment"))
    ∧ IsRead (j.memberOr "categories" (.array [])).elements
    ∧ (IsRead (partsOf j "inputs" InputNode.fieldNames)
      ∧ IsRead (partsOf j "parameters" ParameterNode.fieldNames)
      ∧ IsRead (partsOf j "outputs" OutputNode.fieldNames))
    ∧ ((∃ variants, (j.memberOr "variants" (.array [])).elements? = some variants
        ∧ BreaksAt (fun v => IsRead (VariantRecord.ofJson v)) VariantRecord.Breaks variants)
      ∨ IsRead ((j.memberOr "variants" (.array [])).elementsBy VariantRecord.ofJson)
        ∧ TreesBreak (j.memberOr "output_trees" (.object [])))

theorem isBroken_ofJson {j : Json} : IsBroken (ofJson j) ↔ Breaks j := by
  have hparts : ∀ key fields, ¬IsBroken (partsOf j key fields) := by
    intro key fields
    rw [partsOf, isBroken_elementsBy]
    rintro ⟨-, -, -, p, -, -, -, hbroken⟩
    exact not_isBroken_recordFields _ p hbroken
  have hvariants : ∀ vs : Json, IsBroken (vs.elementsBy VariantRecord.ofJson) ↔ ∃ variants,
      vs.elements? = some variants
        ∧ BreaksAt (fun v => IsRead (VariantRecord.ofJson v)) VariantRecord.Breaks variants := by
    intro vs
    rw [isBroken_elementsBy]
    simp only [VariantRecord.isBroken_ofJson]
  have htable : ∀ t : Json, ¬IsBroken (TableRecord.ofJson t) := by
    intro t
    unfold TableRecord.ofJson
    simp only [isBroken_bind, not_isBroken_recordFields, false_or, pure, Except.pure, not_isBroken_ok,
      and_false, exists_false, not_false_eq_true]
  unfold ofJson Breaks
  simp only [isBroken_bind, not_isBroken_require, not_isBroken_elements, hparts, hvariants, htable,
    isBroken_treesOfJson, false_or, not_isBroken_ok, pure, Except.pure, and_false, exists_false,
    or_false, exists_and_right, IsRead, and_assoc]

end ArtifactRecord

end ShaderGraph
