import Mathlib.Data.List.Nodup
import Mathlib.Data.List.Perm.Basic
import ShaderGraph.Proofs.Sorts
import ShaderGraph.Proofs.Versions

/-!
# Names that clash

A code node receives its inputs under names made from those of the arguments, and an argument that
is a matrix or a texture makes more of them: its name with a digit for each row, and its name with
`Sampler` behind it. Among arguments with different names, the names that are made so differ from
each other, so what can clash is an argument with a name that another one makes
(`bindings_and_identifiers_nodup_iff`).
-/

namespace ShaderGraph

open Text

/-! ## Names that arguments make -/

namespace ArgumentSort

/-- What an argument has put behind its name, for the rows of a matrix and for the sampler of a
texture. -/
def suffixes : ArgumentSort → List (List Char)
  | matrix => (List.range 4).map fun i => (toString i).toList
  | texture => ["Sampler".toList]
  | context | sampler | output | constant | value => []

/-- The sorts that are bound under their own names. -/
def isBound : ArgumentSort → Bool
  | texture | value => true
  | context | sampler | matrix | output | constant => false

/-- The sorts that become an input of the same name. -/
def isInput : ArgumentSort → Bool
  | constant | texture | value => true
  | context | sampler | matrix | output => false

/-- A suffix is told by its last character. -/
theorem eq_of_getLast? (s t : ArgumentSort) : ∀ u ∈ s.suffixes, ∀ w ∈ t.suffixes,
    u.getLast? = w.getLast? → u = w := by
  cases s <;> cases t <;> decide

theorem nodup_suffixes (s : ArgumentSort) : s.suffixes.Nodup ∧ [] ∉ s.suffixes := by
  cases s <;> decide

end ArgumentSort

namespace Spelling

/-- The names that an argument makes besides its own. -/
def derived (x : Spelling) : List (List Char) := x.sort.suffixes.map (x.name ++ ·)

/-- The name of an argument, if it counts. -/
def own (counts : Spelling → Bool) (x : Spelling) : List (List Char) :=
  if counts x then [x.name] else []

/-- The names that an argument makes, if they count. -/
def made (counts : Spelling → Bool) (x : Spelling) : List (List Char) :=
  if counts x then x.derived else []

theorem nodup_derived (x : Spelling) : x.derived.Nodup :=
  x.sort.nodup_suffixes.1.map fun _ _ h => List.append_cancel_left h

/-- A name is made of one name only. -/
theorem name_eq_of_mem_derived {x y : Spelling} {name : List Char} (hx : name ∈ x.derived)
    (hy : name ∈ y.derived) : x.name = y.name := by
  obtain ⟨u, hu, rfl⟩ := List.mem_map.1 hx
  obtain ⟨w, hw, hname⟩ := List.mem_map.1 hy
  have hne : ∀ {s : ArgumentSort} {u : List Char}, u ∈ s.suffixes → u ≠ [] := by
    rintro s _ hu rfl
    exact s.nodup_suffixes.2 hu
  have hlast : w.getLast? = u.getLast? := by
    have h := congrArg List.getLast? hname
    simpa only [List.getLast?_append_of_ne_nil _ (hne hu),
      List.getLast?_append_of_ne_nil _ (hne hw)] using h
  rw [ArgumentSort.eq_of_getLast? _ _ w hw u hu hlast] at hname
  exact (List.append_cancel_right hname).symm

section

variable {xs : List Spelling} (hnames : (xs.map (·.name)).Nodup)
include hnames

theorem nodup_own (counts : Spelling → Bool) : (xs.flatMap (own counts)).Nodup := by
  refine List.nodup_flatMap.2 ⟨fun x _ => ?_, (List.pairwise_map.1 hnames).imp fun hne => ?_⟩
  · rw [own]
    split_ifs <;> simp
  · intro name hx hy
    rw [own] at hx hy
    split_ifs at hx hy <;> simp_all

theorem nodup_made (counts : Spelling → Bool) : (xs.flatMap (made counts)).Nodup := by
  refine List.nodup_flatMap.2 ⟨fun x _ => ?_, (List.pairwise_map.1 hnames).imp fun hne => ?_⟩
  · rw [made]
    split_ifs
    · exact x.nodup_derived
    · exact List.nodup_nil
  · intro name hx hy
    rw [made] at hx hy
    split_ifs at hx hy
    · exact hne (name_eq_of_mem_derived hx hy)
    all_goals simp_all

/-- Names of arguments and names that arguments make differ unless an argument has a name that one
makes. -/
theorem nodup_own_append_made (counts countsMade : Spelling → Bool) :
    (xs.flatMap (own counts) ++ xs.flatMap (made countsMade)).Nodup
      ↔ ∀ x ∈ xs, counts x → ∀ y ∈ xs, countsMade y → x.name ∉ y.derived := by
  rw [List.nodup_append]
  constructor
  · rintro ⟨-, -, hdisjoint⟩ x hx hcx y hy hcy hmem
    have hown : x.name ∈ xs.flatMap (own counts) :=
      List.mem_flatMap.2 ⟨x, hx, by rw [own, if_pos hcx]; exact List.mem_singleton_self _⟩
    have hmade : x.name ∈ xs.flatMap (made countsMade) :=
      List.mem_flatMap.2 ⟨y, hy, by rwa [made, if_pos hcy]⟩
    exact hdisjoint _ hown _ hmade rfl
  · intro h
    refine ⟨nodup_own hnames counts, nodup_made hnames countsMade, ?_⟩
    rintro name hown _ hmade rfl
    obtain ⟨x, hx, hname⟩ := List.mem_flatMap.1 hown
    obtain ⟨y, hy, hmem⟩ := List.mem_flatMap.1 hmade
    rw [own] at hname
    rw [made] at hmem
    split_ifs at hname hmem with hcx hcy
    · rw [List.mem_singleton.1 hname] at hmem
      exact h x hx hcx y hy hcy hmem
    all_goals exact absurd ‹_ ∈ []› List.not_mem_nil

end

end Spelling

/-! ## Identifiers that differ -/

/-- A table in which different roles and names have different identifiers, none of which is still to
be drawn. -/
structure IdentifierTable.Distinct (t : IdentifierTable) (k : Supply) : Prop where
  injective : ∀ r name r' name' id, t.get? r name = some id → t.get? r' name' = some id →
    (r, name) = (r', name')
  drawn : ∀ r name i, k.drawn ≤ i → t.get? r name ≠ some (.string (k.draw i))

namespace Naming

variable {n : Naming}

theorem distinct_ensure (hinj : Function.Injective n.supply.draw)
    (h : n.table.Distinct n.supply) (r : Role) (name : String) :
    (n.ensure r name).table.Distinct (n.ensure r name).supply := by
  unfold ensure
  split
  · exact h
  · refine ⟨fun r₁ k₁ r₂ k₂ id h₁ h₂ => ?_, fun r₁ k₁ i hi h₁ => ?_⟩
    · rw [IdentifierTable.get?_set] at h₁ h₂
      split_ifs at h₁ h₂ with hnew₁ hnew₂ hnew₂
      · rw [hnew₁.1, hnew₁.2, hnew₂.1, hnew₂.2]
      · cases h₁
        exact absurd h₂ (h.drawn _ _ _ le_rfl)
      · cases h₂
        exact absurd h₁ (h.drawn _ _ _ le_rfl)
      · exact h.injective _ _ _ _ _ h₁ h₂
    · rw [IdentifierTable.get?_set] at h₁
      split_ifs at h₁
      · have hi' : n.supply.drawn = i := hinj (Json.string.inj (Option.some.inj h₁))
        exact absurd hi (by simp [Supply.next, ← hi'])
      · exact h.drawn _ _ i ((Nat.le_succ _).trans hi) h₁

theorem distinct_ensureAll : ∀ (ps : List (Role × String)) {n : Naming},
    Function.Injective n.supply.draw → n.table.Distinct n.supply →
      (n.ensureAll ps).table.Distinct (n.ensureAll ps).supply
  | [], _, _, h => h
  | p :: ps, n, hinj, h => by
    have hlater : n.supply.Later (n.ensure p.1 p.2).supply := later_ensure
    exact distinct_ensureAll ps (hlater.draw.symm ▸ hinj) (distinct_ensure hinj h p.1 p.2)

end Naming

theorem Signature.distinct_kept {s : Signature} {earlier : Option IdentifierTable} {k : Supply}
    (h : ∀ t ∈ earlier, t.Distinct k) : (s.kept earlier).Distinct k := by
  cases earlier with
  | none =>
    have hnone : ∀ {r name id}, (s.kept none).get? r name ≠ some id := fun {r name id} hid => by
      rw [get?_kept_none] at hid
      cases hid
    exact ⟨fun _ _ _ _ _ hid => absurd hid hnone, fun _ _ _ _ => hnone⟩
  | some t =>
    have ht := h t rfl
    have hkept : ∀ {r name id}, (s.kept (some t)).get? r name = some id → t.get? r name = some id := by
      intro r name id hid
      rw [get?_kept] at hid
      split_ifs at hid
      exact hid
    exact ⟨fun r name r' name' id h₁ h₂ => ht.injective r name r' name' id (hkept h₁) (hkept h₂),
      fun r name i hi hid => ht.drawn r name i hi (hkept hid)⟩

/-- The identifiers of a graph differ if those of the earlier one do. -/
theorem Signature.distinct_naming (s : Signature) {earlier : Option IdentifierTable} {k : Supply}
    (hinj : Function.Injective k.draw) (h : ∀ t ∈ earlier, t.Distinct k) :
    (s.naming earlier k).table.Distinct (s.naming earlier k).supply :=
  Naming.distinct_ensureAll s.namedPins hinj (distinct_kept h)

/-! ## What the inputs are bound to and known by -/

namespace ShaderFunction

variable {f : ShaderFunction} {s : Signature}

/-- The names of inputs are those of arguments, and those that matrices make. -/
theorem map_name_inputs (h : f.signature = .ok s) (counts : Pin → Bool) (counted : Spelling → Bool)
    (rows : Bool) (hrow : ∀ name metadata tooltip i, OrderedMap.has metadata exposeKey = true →
      counts (Pin.row name metadata tooltip i) = rows)
    (hpin : ∀ (x : Spelling) (p : Pin), x.sort = p.sort → p.isOutput = false →
      p.isExposed = x.isExposed → counts p = counted x)
    (hcounted : ∀ x, counted x = true → x.sort.isInput = true) :
    (s.inputs.filter counts).map (fun p => p.name.toList) = f.spellings.flatMap fun x =>
      x.own counted ++ x.made fun x => rows && x.sort = .matrix := by
  have hnot : ∀ x : Spelling, x.sort.isInput = false → x.own counted = [] := by
    intro x hx
    rw [Spelling.own, if_neg]
    intro hc
    rw [hcounted x hc] at hx
    cases hx
  obtain ⟨-, rs, hrs, hmade⟩ := exists_suits h
  rw [hmade.inputs]
  refine collect_pins (fun ps => ((ps.filter fun p => !p.isOutput).filter counts).map
    fun p => p.name.toList) rfl (fun ps qs => by simp) (fun x r _ hr => ?_) hrs
  cases hr with
  | dropped hsort =>
    rw [hnot x (by rcases hsort with hsort | hsort <;> rw [hsort] <;> rfl)]
    rcases hsort with hsort | hsort <;> simp [Spelling.made, hsort]
  | matrix hsort hexposed isConst tooltip =>
    rw [hnot x (by rw [hsort]; rfl)]
    have hinput : ∀ p ∈ (matrixResolution isConst (String.ofList x.name)
        (Metadata.parse (String.ofList x.metadata)) tooltip).pins,
        (!p.isOutput) = true ∧ counts p = rows := by
      intro p hp
      obtain ⟨i, -, rfl⟩ := List.mem_map.1 hp
      exact ⟨rfl, hrow _ _ _ i hexposed⟩
    have hnames : (matrixResolution isConst (String.ofList x.name)
        (Metadata.parse (String.ofList x.metadata)) tooltip).pins.map (fun p => p.name.toList)
        = x.derived := by
      simp [matrixResolution, Spelling.derived, ArgumentSort.suffixes, hsort, Pin.row,
        Function.comp_def]
    rw [List.filter_eq_self.2 fun p hp => (hinput p hp).1, List.nil_append, Spelling.made]
    cases hrows : rows with
    | true =>
      rw [List.filter_eq_self.2 fun p hp => (hinput p hp).2.trans hrows, hnames,
        if_pos (by simp [hsort])]
    | false =>
      rw [List.filter_eq_nil_iff.2 fun p hp => by simp [(hinput p hp).2, hrows], if_neg (by simp)]
      rfl
  | @pin p hsort hname _ _ hexposed =>
    have hmatrix : x.made (fun x => rows && x.sort = .matrix) = [] := by
      have hne : x.sort ≠ .matrix := by
        rw [hsort, Pin.sort]
        split_ifs <;> simp
      simp [Spelling.made, hne]
    rw [hmatrix, List.append_nil]
    cases houtput : p.isOutput with
    | true =>
      have hsort' : x.sort = .output := hsort.trans (Pin.sort_eq_output.2 houtput)
      rw [hnot x (by rw [hsort']; rfl)]
      simp [houtput]
    | false =>
      rw [Spelling.own, ← hpin x p hsort houtput hexposed]
      cases hc : counts p <;> simp [houtput, hc, hname]

/-- The names of the inputs that are bound. -/
theorem map_name_bound (h : f.signature = .ok s) :
    (s.inputs.filter fun p => p.kind != .staticBool).map (fun p => p.name.toList)
      = f.spellings.flatMap fun x => x.own (·.sort.isBound) ++ x.made (·.sort = .matrix) := by
  have hall := map_name_inputs h (fun p => p.kind != .staticBool) (fun x => x.sort.isBound) true
    (fun _ _ _ _ _ => rfl) ?_ ?_
  · simpa using hall
  · intro x p hsort houtput _
    rw [hsort, Pin.sort, houtput]
    by_cases hbool : p.kind = .staticBool <;> by_cases htexture : p.kind.isTexture <;>
      simp [hbool, htexture, ArgumentSort.isBound]
  · intro x
    cases x.sort <;> simp [ArgumentSort.isBound, ArgumentSort.isInput]

theorem map_name_textures (h : f.signature = .ok s) :
    (s.inputs.filter fun p => p.kind.isTexture).map (fun p => p.name.toList)
      = f.spellings.flatMap (Spelling.own (·.sort = .texture)) := by
  have hall := map_name_inputs h (fun p => p.kind.isTexture) (fun x => x.sort = .texture) false
    (fun _ _ _ _ _ => rfl) ?_ ?_
  · simpa [Spelling.made] using hall
  · intro x p hsort houtput _
    rw [hsort, Pin.sort, houtput]
    by_cases hbool : p.kind = .staticBool
    · simp [hbool, PinKind.isTexture]
    · by_cases htexture : p.kind.isTexture <;> simp [hbool, htexture]
  · intro x
    cases x.sort <;> simp [ArgumentSort.isInput]

/-- The names of the inputs that are no parameters, or that are. -/
theorem map_name_exposed (h : f.signature = .ok s) (exposed : Bool) :
    (s.inputs.filter fun p => p.isExposed == exposed).map (fun p => p.name.toList)
      = f.spellings.flatMap fun x => x.own (fun x => x.sort.isInput && x.isExposed == exposed)
        ++ x.made fun x => exposed && x.sort = .matrix := by
  refine map_name_inputs h (fun p => p.isExposed == exposed)
    (fun x => x.sort.isInput && x.isExposed == exposed) exposed ?_ ?_ ?_
  · intro name metadata tooltip i hm
    rw [Pin.isExposed, Pin.row, hm]
    cases exposed <;> rfl
  · intro x p hsort houtput hexposed
    have hinput : x.sort.isInput = true := by
      rw [hsort, Pin.sort, houtput]
      simp only [Bool.false_eq_true, if_false]
      split_ifs <;> rfl
    rw [hinput, hexposed, Bool.true_and]
  · intro x hx
    exact (Bool.and_eq_true_iff.1 hx).1

/-- The names that bindings are made of: those of arguments and those that arguments make. -/
theorem bound_perm (h : f.signature = .ok s) :
    ((s.inputs.filter fun p => p.kind != .staticBool).map (fun p => p.name.toList)
        ++ (s.inputs.filter fun p => p.kind.isTexture).map
          fun p => p.name.toList ++ "Sampler".toList).Perm
      (f.spellings.flatMap (Spelling.own (·.sort.isBound))
        ++ f.spellings.flatMap (Spelling.made fun _ => true)) := by
  have hsamplers : (s.inputs.filter fun p => p.kind.isTexture).map
      (fun p => p.name.toList ++ "Sampler".toList)
      = f.spellings.flatMap (Spelling.made (·.sort = .texture)) := by
    have hall := congrArg (List.map (· ++ "Sampler".toList)) (map_name_textures h)
    rw [List.map_map, List.map_flatMap] at hall
    refine hall.trans (List.flatMap_congr fun x _ => ?_)
    by_cases hsort : x.sort = .texture <;>
      simp [Spelling.own, Spelling.made, Spelling.derived, ArgumentSort.suffixes, hsort]
  have hmade : ∀ x : Spelling, x.made (·.sort = .matrix) ++ x.made (·.sort = .texture)
      = x.made fun _ => true := by
    intro x
    cases hsort : x.sort <;>
      simp [Spelling.made, Spelling.derived, ArgumentSort.suffixes, hsort]
  rw [map_name_bound h, hsamplers]
  calc (f.spellings.flatMap fun x => x.own (·.sort.isBound) ++ x.made (·.sort = .matrix))
        ++ f.spellings.flatMap (Spelling.made (·.sort = .texture))
    _ |>.Perm ((f.spellings.flatMap (Spelling.own (·.sort.isBound))
          ++ f.spellings.flatMap (Spelling.made (·.sort = .matrix)))
          ++ f.spellings.flatMap (Spelling.made (·.sort = .texture))) :=
      (List.flatMap_append_perm ..).symm.append_right _
    _ = f.spellings.flatMap (Spelling.own (·.sort.isBound))
          ++ (f.spellings.flatMap (Spelling.made (·.sort = .matrix))
          ++ f.spellings.flatMap (Spelling.made (·.sort = .texture))) := List.append_assoc ..
    _ |>.Perm (f.spellings.flatMap (Spelling.own (·.sort.isBound))
          ++ f.spellings.flatMap fun x => x.made (·.sort = .matrix) ++ x.made (·.sort = .texture)) :=
      (List.flatMap_append_perm ..).append_left _
    _ = _ := by simp only [hmade]

end ShaderFunction

/-- The binding of a name. -/
def bindingOf (name : List Char) : String := "INTERNAL_IN_" ++ String.ofList name

theorem bindingOf_injective : Function.Injective bindingOf := fun a b h => by
  have hlist := congrArg String.toList h
  simp only [bindingOf, String.toList_append, String.toList_ofList] at hlist
  exact List.append_cancel_left hlist

theorem bindingOf_ne (name : List Char) : bindingOf name ≠ TexCoordinate.bindingName := fun h => by
  have hhead := congrArg (fun s : String => s.toList.head?) h
  rw [bindingOf] at hhead
  simp only [String.toList_append] at hhead
  cases hhead

namespace Signature

/-- The names of what a code node receives: those of its bindings, and those of the samplers that
come with the textures among them. -/
def receivedNames (s : Signature) (bindings : List CodeBinding) : List String :=
  bindings.map (·.name)
    ++ (s.inputs.filter fun p => p.kind.isTexture).map fun p => p.bindingName ++ "Sampler"

/-- Bindings differ if the names that they are made of do. -/
theorem nodup_receivedNames_iff (s : Signature) (n : Option Nat) :
    (s.receivedNames (s.bindings n)).Nodup
      ↔ ((s.inputs.filter fun p => p.kind != .staticBool).map (fun p => p.name.toList)
        ++ (s.inputs.filter fun p => p.kind.isTexture).map
          fun p => p.name.toList ++ "Sampler".toList).Nodup := by
  let bound := (s.inputs.filter fun p => p.kind != .staticBool).map fun p => p.name.toList
  let sampled := (s.inputs.filter fun p => p.kind.isTexture).map
    fun p => p.name.toList ++ "Sampler".toList
  have hbound : (s.bindings n).map (·.name)
      = bound.map bindingOf ++ (n.map fun _ => TexCoordinate.bindingName).toList := by
    have hname : ∀ p : Pin, p.bindingName = bindingOf p.name.toList := fun p => by
      rw [bindingOf, String.ofList_toList, Pin.bindingName]
    rw [bindings, List.map_append, List.map_map, List.map_map]
    refine congrArg₂ _ (List.map_congr_left fun p _ => hname p) ?_
    cases n <;> rfl
  have hsampled : ((s.inputs.filter fun p => p.kind.isTexture).map fun p =>
      p.bindingName ++ "Sampler") = sampled.map bindingOf := by
    have hname : ∀ p : Pin, p.bindingName ++ "Sampler"
        = bindingOf (p.name.toList ++ "Sampler".toList) := fun p => by
      refine String.toList_injective ?_
      simp only [bindingOf, Pin.bindingName, String.toList_append, String.toList_ofList,
        List.append_assoc]
    rw [List.map_map]
    exact List.map_congr_left fun p _ => hname p
  have hmarked : (bound.map bindingOf ++ sampled.map bindingOf).Nodup ↔ (bound ++ sampled).Nodup := by
    rw [← List.map_append, List.nodup_map_iff bindingOf_injective]
  rw [receivedNames, hbound, hsampled]
  cases n with
  | none => rw [Option.map_none, Option.toList_none, List.append_nil, hmarked]
  | some n =>
    rw [Option.map_some, Option.toList_some, List.append_assoc, List.singleton_append,
      List.perm_middle.nodup_iff, List.nodup_cons, ← List.map_append, List.map_append, hmarked]
    refine and_iff_right fun hmem => ?_
    rw [← List.map_append] at hmem
    obtain ⟨name, -, hname⟩ := List.mem_map.1 hmem
    exact bindingOf_ne name hname

/-- The roles and names of the inputs, in the order of their nodes. -/
def inputKeys (s : Signature) : List (Role × String) :=
  s.hiddenInputs.map (fun p => (.input, p.name)) ++ s.exposedInputs.map fun p => (.parameter, p.name)

theorem mem_namedPins_of_mem_inputKeys {s : Signature} {k : Role × String} (h : k ∈ s.inputKeys) :
    k ∈ s.namedPins := by
  have hrole : ∀ p ∈ s.inputs, (p.inputRole, p.name) ∈ s.namedPins := fun p hp =>
    List.mem_append_left _ (List.mem_map_of_mem hp)
  rcases List.mem_append.1 h with h | h <;> obtain ⟨p, hp, rfl⟩ := List.mem_map.1 h <;>
    obtain ⟨hin, he⟩ := List.mem_filter.1 hp <;> have hp' := hrole p hin
  · rwa [Pin.inputRole, if_neg (by simpa using he)] at hp'
  · rwa [Pin.inputRole, if_pos he] at hp'

theorem nodup_inputKeys_iff (s : Signature) : s.inputKeys.Nodup
    ↔ ∀ exposed, ((s.inputs.filter fun p => p.isExposed == exposed).map
      fun p => p.name.toList).Nodup := by
  have hside : ∀ (r : Role) (ps : List Pin),
      (ps.map fun p => (r, p.name)).Nodup ↔ (ps.map fun p => p.name.toList).Nodup := by
    intro r ps
    have hrole : Function.Injective fun name : String => (r, name) := fun a b h =>
      (Prod.mk.inj h).2
    have hkeys : (ps.map fun p => (r, p.name)) = (ps.map (·.name)).map fun name => (r, name) := by
      rw [List.map_map]
      rfl
    have hlists : (ps.map fun p => p.name.toList) = (ps.map (·.name)).map String.toList := by
      rw [List.map_map]
      rfl
    rw [hkeys, hlists, List.nodup_map_iff hrole,
      List.nodup_map_iff fun a b h => String.toList_injective h]
  have hroles : ∀ k ∈ s.hiddenInputs.map (fun p => (Role.input, p.name)),
      ∀ k' ∈ s.exposedInputs.map (fun p => (Role.parameter, p.name)), k ≠ k' := by
    intro k hk k' hk' h
    obtain ⟨p, -, rfl⟩ := List.mem_map.1 hk
    obtain ⟨q, -, rfl⟩ := List.mem_map.1 hk'
    cases h
  rw [inputKeys, List.nodup_append, hside, hside, Bool.forall_bool, hiddenInputs, exposedInputs]
  simp only [beq_true, beq_false]
  exact ⟨fun h => ⟨h.1, h.2.1⟩, fun h => ⟨h.1, h.2, hroles⟩⟩

end Signature

namespace Artifact

variable {f : ShaderFunction} {s : Signature} {tag : String} {context : GenerationContext}
  {t : IdentifierTable} {n : Option Nat}

/-- The identifiers of the input and the parameter nodes. -/
def inputIds (a : Artifact) : List Json := a.inputs.map (·.id) ++ a.parameters.map (·.id)

theorem inputIds_withIdentifiers : (withIdentifiers f s tag context t n).inputIds
    = s.inputKeys.map fun k => t.idOf k.1 k.2 := by
  have hinputs : (withIdentifiers f s tag context t n).inputs.map (·.id)
      = s.hiddenInputs.map fun p => t.idOf .input p.name := by
    refine List.ext_getElem (by simp [withIdentifiers]) fun i h₁ h₂ => ?_
    simp [withIdentifiers, Pin.inputNode]
  rw [inputIds, hinputs, Signature.inputKeys, List.map_append, List.map_map]
  simp [withIdentifiers, Pin.parameterNode, Function.comp_def]

/-- Nodes have different identifiers if they have different roles or names. -/
theorem nodup_inputIds_iff (hnamed : s.NamedBy t) {k : Supply} (h : t.Distinct k) :
    (withIdentifiers f s tag context t n).inputIds.Nodup ↔ s.inputKeys.Nodup := by
  rw [inputIds_withIdentifiers]
  refine ⟨List.Nodup.of_map _, fun hkeys => (List.nodup_map_iff_inj_on hkeys).2 ?_⟩
  intro k₁ hk₁ k₂ hk₂ heq
  obtain ⟨id₁, hid₁⟩ := Option.isSome_iff_exists.1
    (hnamed.named k₁ (Signature.mem_namedPins_of_mem_inputKeys hk₁))
  obtain ⟨id₂, hid₂⟩ := Option.isSome_iff_exists.1
    (hnamed.named k₂ (Signature.mem_namedPins_of_mem_inputKeys hk₂))
  simp only [IdentifierTable.idOf, hid₁, hid₂, Option.getD_some] at heq
  exact h.injective _ _ _ _ id₁ hid₁ (heq ▸ hid₂)

end Artifact

/-- What a code node receives has different names if and only if no argument that is bound has a name
that a matrix or a texture makes, and the identifiers of the inputs and the parameters differ if and
only if no parameter has the name of a row; provided that arguments have different names, and that
identifiers differ that were given earlier or are drawn. -/
theorem bindings_and_identifiers_nodup_iff {f : ShaderFunction} {s : Signature}
    (hs : f.signature = .ok s) (hnames : (f.spellings.map (·.name)).Nodup)
    {tag : String} {context : GenerationContext} {earlier : Option IdentifierTable}
    {supply : Supply} (hinj : Function.Injective supply.draw)
    (hearlier : ∀ t ∈ earlier, t.Distinct supply) {a : Artifact}
    (ha : (Artifact.generate f s tag context earlier supply).1 = .ok a) :
    (∀ v ∈ a.variants, (s.receivedNames v.bindings).Nodup
      ↔ ∀ x ∈ f.spellings, x.sort.isBound → ∀ y ∈ f.spellings, x.name ∉ y.derived)
    ∧ (a.inputIds.Nodup ↔ ∀ x ∈ f.spellings, x.sort.isInput → x.isExposed →
      ∀ y ∈ f.spellings, y.sort = .matrix → x.name ∉ y.derived) := by
  obtain ⟨n, -, rfl⟩ := Artifact.exists_of_generate_eq_ok ha
  constructor
  · intro v hv
    obtain ⟨w, -, rfl⟩ := List.mem_map.1 hv
    have hbound := Spelling.nodup_own_append_made hnames (·.sort.isBound) fun _ => true
    rw [← (f.bound_perm hs).nodup_iff, ← s.nodup_receivedNames_iff n] at hbound
    exact hbound.trans (by simp)
  · have hhidden : ((s.inputs.filter fun p => p.isExposed == false).map
        fun p => p.name.toList).Nodup := by
      rw [f.map_name_exposed hs false]
      simpa [Spelling.made] using Spelling.nodup_own hnames fun x =>
        x.sort.isInput && x.isExposed == false
    have hexposed := Spelling.nodup_own_append_made hnames
      (fun x => x.sort.isInput && x.isExposed == true) fun x => true && x.sort = .matrix
    rw [(List.flatMap_append_perm ..).nodup_iff, ← f.map_name_exposed hs true] at hexposed
    rw [Artifact.nodup_inputIds_iff (s.namedBy_naming earlier supply)
      (s.distinct_naming hinj hearlier), s.nodup_inputKeys_iff, Bool.forall_bool,
      and_iff_right hhidden, hexposed]
    simp

/-- A function with an argument of each sort, none of which has a name that another one makes. -/
theorem bindings_and_identifiers_nodup_iff_of_each_sort :
    let f : ShaderFunction :=
      { name := "Tint"
        arguments := ["bool Flip", " [Expose] float World4", " Texture2D Map",
          " SamplerState MapSampler", " [Expose] const float4x4 World", " out float3 Color"]
        body := " Color = Map.Sample(MapSampler, 0) * World4; " }
    let supply := ExposedForAWhile.supply
    ∃ s, f.signature = .ok s ∧ (f.spellings.map (·.name)).Nodup
      ∧ Function.Injective supply.draw
      ∧ ∃ a, (Artifact.generate f s "TAG" default none supply).1 = .ok a
        ∧ (∀ v ∈ a.variants, (s.receivedNames v.bindings).Nodup) ∧ a.inputIds.Nodup := by
  intro f supply
  have hevaluated : f.signature.isOk = true ∧ (f.spellings.map (·.name)).Nodup
      ∧ TexCoordinate.highest f.body = .ok none := by
    decide +kernel
  have hbound : ∀ x ∈ f.spellings, x.sort.isBound → ∀ y ∈ f.spellings, x.name ∉ y.derived := by
    decide +kernel
  have hexposed : ∀ x ∈ f.spellings, x.sort.isInput → x.isExposed → ∀ y ∈ f.spellings,
      y.sort = .matrix → x.name ∉ y.derived := by
    decide +kernel
  obtain ⟨hok, hnames, hhighest⟩ := hevaluated
  cases hs : f.signature with
  | error e =>
    rw [hs] at hok
    cases hok
  | ok s =>
    have ha : (Artifact.generate f s "TAG" default none supply).1 = .ok _ :=
      congrArg Prod.fst (Artifact.generate_eq_ok hhighest)
    obtain ⟨hvariants, hids⟩ := bindings_and_identifiers_nodup_iff hs hnames
      ExposedForAWhile.injective_draw (fun t ht => by cases ht) ha
    exact ⟨s, rfl, hnames, ExposedForAWhile.injective_draw, _, ha,
      fun v hv => (hvariants v hv).2 hbound, hids.2 hexposed⟩

namespace NamedAsRow

/-- A parameter with the name of a row. -/
def row : ShaderFunction :=
  { name := "F", arguments := ["[Expose] float4x4 M", " [Expose] float M0", " out float R"]
    body := " R = M0; " }

/-- A value with the name of a sampler. -/
def sampler : ShaderFunction :=
  { name := "F", arguments := ["Texture2D Tex", " float TexSampler", " out float R"]
    body := " R = TexSampler; " }

/-- That nothing clashes in whatever is generated for a function. -/
def NeverClashes (f : ShaderFunction) : Prop :=
  ∀ (s : Signature) (tag : String) (context : GenerationContext) (earlier : Option IdentifierTable)
    (supply : Supply) (a : Artifact), f.signature = .ok s → (f.spellings.map (·.name)).Nodup →
    Function.Injective supply.draw → (∀ t ∈ earlier, t.Distinct supply) →
    (Artifact.generate f s tag context earlier supply).1 = .ok a →
    (∀ v ∈ a.variants, (s.receivedNames v.bindings).Nodup) ∧ a.inputIds.Nodup

/-- The row of a matrix and an argument may have one binding and one identifier, and the sampler of a
texture and an argument one binding. -/
theorem not_forall_nodup : ¬ NeverClashes row ∧ ¬ NeverClashes sampler := by
  have hevaluated : ∀ f ∈ [row, sampler], (f.spellings.map (·.name)).Nodup
      ∧ TexCoordinate.highest f.body = .ok none
      ∧ f.signature.toOption.any (fun s =>
        decide ¬ (s.receivedNames (s.bindings none)).Nodup) = true := by
    decide +kernel
  have hnot : ∀ f ∈ [row, sampler], ¬ NeverClashes f := by
    intro f hf h
    obtain ⟨hnames, hhighest, hbad⟩ := hevaluated f hf
    cases hs : f.signature with
    | error e =>
      rw [hs] at hbad
      cases hbad
    | ok s =>
      rw [hs] at hbad
      have ha : (Artifact.generate f s "" default none ExposedForAWhile.supply).1 = .ok _ :=
        congrArg Prod.fst (Artifact.generate_eq_ok hhighest)
      exact of_decide_eq_true hbad ((h s "" default none _ _ hs hnames
        ExposedForAWhile.injective_draw (fun t ht => by cases ht) ha).1 _
          (List.mem_map_of_mem (List.mem_range.2 (Nat.two_pow_pos _))))
  exact ⟨hnot row (by simp), hnot sampler (by simp)⟩

end NamedAsRow

end ShaderGraph
