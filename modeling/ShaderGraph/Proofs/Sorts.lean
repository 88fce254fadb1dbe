import ShaderGraph.Proofs.Declarations
import ShaderGraph.Proofs.WrittenPin

/-!
# The sorts of arguments

An argument is of one of seven sorts, told by its type, its name and its qualifier. Two sorts become
no pin, a matrix becomes its rows, and an argument of any other sort becomes one pin of that sort
with its name. A texture and a matrix moreover give names to what comes with them: its sampler, and
its rows. What a signature is made of can so be read off the arguments as they are spelled.
-/

namespace ShaderGraph

open Text

/-- What an argument is for. -/
inductive ArgumentSort where
  /-- the parameters of a material, which a code node passes by itself -/
  | context
  | sampler
  | matrix
  | output
  /-- an input that chooses between variants -/
  | constant
  | texture
  | value
deriving DecidableEq, Repr

def Pin.sort (p : Pin) : ArgumentSort :=
  if p.isOutput then .output
  else if p.kind = .staticBool then .constant
  else if p.kind.isTexture then .texture
  else .value

theorem Pin.sort_eq_output {p : Pin} : p.sort = .output ↔ p.isOutput = true := by
  unfold sort
  split_ifs <;> simp [*]

/-- Whether a type is that of a texture. -/
def isTextureType (typeName : String) : Bool :=
  ((typeTable.get? typeName).map (·.kind.isTexture)).getD false

namespace Spelling

def sort (x : Spelling) : ArgumentSort :=
  let typeName := String.ofList x.typeName
  if typeName ∈ contextTypes ∧ String.ofList x.name = "Parameters" then .context
  else if typeName = "SamplerState" then .sampler
  else if typeName = "float4x4" then .matrix
  else if x.qualifier = .output then .output
  else if typeName = "bool" then .constant
  else if isTextureType typeName then .texture
  else .value

/-- Whether the metadata make the argument a parameter. -/
def isExposed (x : Spelling) : Bool := (Metadata.parse (String.ofList x.metadata)).has exposeKey

/-- The name of the sampler of a texture. -/
def sampled (x : Spelling) : List (List Char) :=
  if x.sort = .texture then [x.name ++ "Sampler".toList] else []

/-- An argument whose type and name are words. -/
structure IsNamed (x : Spelling) : Prop where
  type : IsOneWord x.typeName
  name : IsOneWord x.name

/-- What a sort says of the type and the name. -/
theorem sort_spec (x : Spelling) : match x.sort with
    | .context => String.ofList x.typeName ∈ contextTypes ∧ String.ofList x.name = "Parameters"
    | .sampler => String.ofList x.typeName = "SamplerState"
    | .matrix => String.ofList x.typeName = "float4x4"
    | .constant => String.ofList x.typeName = "bool"
    | .output | .texture | .value => True := by
  unfold sort
  simp only []
  split_ifs <;> trivial

end Spelling

/-- A resolution is of a spelled argument as its sort says. -/
inductive Resolution.Suits (x : Spelling) : Resolution → Prop
  | dropped (hsort : x.sort = .context ∨ x.sort = .sampler) : Suits x {}
  | matrix (hsort : x.sort = .matrix) (hexposed : x.isExposed = true) (isConst : Bool)
    (tooltip : String) : Suits x (matrixResolution isConst (String.ofList x.name)
      (Metadata.parse (String.ofList x.metadata)) tooltip)
  | pin {p : Pin} (hsort : x.sort = p.sort) (hname : p.name = String.ofList x.name)
    (htype : p.declaredType = String.ofList x.typeName) (hpart : p.isInternal = false)
    (hexposed : p.isExposed = x.isExposed) (hresolved : p.Resolved) : Suits x { pins := [p] }

/-- A table type is not `bool`, so it does not choose between variants. -/
theorem kind_ne_staticBool {typeName : String} {info : TypeInfo}
    (h : typeTable.get? typeName = some info) : typeName ≠ "bool" ∧ info.kind ≠ .staticBool := by
  have hkinds : ∀ e ∈ typeTable, e.2.kind ≠ .staticBool := by decide
  have hbool : typeTable.get? "bool" = none := by decide
  refine ⟨?_, ?_⟩
  · rintro rfl
    rw [hbool] at h
    cases h
  · obtain ⟨e, he, rfl⟩ := Option.map_eq_some_iff.1 h
    exact hkinds e (List.mem_of_find?_eq_some he)

theorem Spelling.Resolves.suits {x : Spelling} {comment : String} {r : Resolution}
    (hnamed : x.Named) (h : x.Resolves comment r) : r.Suits x := by
  have hresolved := h.from.resolved (by rwa [String.toList_ofList])
  cases h with
  | context htype hname => exact .dropped (.inl (if_pos ⟨htype, hname⟩))
  | sampler htype =>
    have hcontext : "SamplerState" ∉ contextTypes := by decide
    exact .dropped (.inr (by simp [sort, htype, hcontext]))
  | matrix htype _ _ hexposed =>
    have hcontext : "float4x4" ∉ contextTypes := by decide
    exact .matrix (by simp [sort, htype, hcontext]) hexposed _ _
  | @pin k hkind =>
    refine .pin ?_ rfl rfl rfl rfl (hresolved _ (List.mem_singleton_self _))
    obtain ⟨hcontext, hsampler, hmatrix⟩ := typeName_ne_of_pinKind? hkind
    by_cases hbool : String.ofList x.typeName = "bool"
    · rw [pinKind?, if_pos hbool] at hkind
      obtain rfl := Option.some.inj hkind
      rw [hbool] at hcontext
      simp [sort, Pin.sort, Pin.isOutput, Pin.ofType, untyped, hbool, hcontext]
    · rw [pinKind?, if_neg hbool] at hkind
      obtain ⟨info, hinfo, rfl⟩ := Option.map_eq_some_iff.1 hkind
      have htexture : isTextureType (String.ofList x.typeName) = info.kind.isTexture := by
        rw [isTextureType, hinfo]
        rfl
      simp [sort, Pin.sort, Pin.isOutput, Pin.ofType, untyped, hbool, hcontext, hsampler, hmatrix,
        (kind_ne_staticBool hinfo).2, htexture]

theorem Resolution.Suits.type_word {x : Spelling} {r : Resolution} (h : r.Suits x) :
    ∀ c ∈ x.typeName, isWord c = true := by
  have hword : ∀ {type : String}, String.ofList x.typeName = type →
      (∀ c ∈ type.toList, isWord c = true) → ∀ c ∈ x.typeName, isWord c = true := by
    rintro _ rfl hall
    rwa [String.toList_ofList] at hall
  have hspec := x.sort_spec
  cases h with
  | dropped hsort =>
    rcases hsort with hsort | hsort <;> rw [hsort] at hspec
    · have hcontext : ∀ t ∈ contextTypes, ∀ c ∈ t.toList, isWord c = true := by decide
      exact hword rfl (hcontext _ hspec.1)
    · exact hword hspec (by decide)
  | matrix hsort =>
    rw [hsort] at hspec
    exact hword hspec (by decide)
  | pin _ _ htype _ _ hresolved => exact hword htype.symm hresolved.type.word

/-- An argument that resolves is spelled with a type and a name that are words. -/
theorem exists_spelling_of_resolveArgument {raw comment : String} {r : Resolution}
    (h : resolveArgument raw comment = .ok r) :
    ∃ x, Spelling.read? raw.toList = some x ∧ x.IsNamed ∧ r.Suits x := by
  obtain ⟨x, hx, ⟨htype, hname⟩, hresolves⟩ := resolveArgument_eq_ok_iff.1 h
  have hnamed := Spelling.named_of_read? hx
  have hsuits := hresolves.suits hnamed
  exact ⟨x, hx, ⟨⟨htype, hsuits.type_word⟩, ⟨hname, hnamed⟩⟩, hsuits⟩

namespace ShaderFunction

/-- The arguments as they are spelled. -/
def spellings (f : ShaderFunction) : List Spelling :=
  f.arguments.filterMap fun raw => Spelling.read? raw.toList

variable {f : ShaderFunction} {s : Signature}

/-- A signature is made of what suits the arguments as they are spelled, each of which is read. -/
theorem exists_suits (h : f.signature = .ok s) :
    f.spellings.length = f.arguments.length
      ∧ ∃ rs, List.Forall₂ (fun x r => x.IsNamed ∧ Resolution.Suits x r) f.spellings rs
        ∧ s.MadeOf rs := by
  obtain ⟨rs, hrs, hmade⟩ := f.exists_resolutions h
  have hall : f.spellings.length = f.arguments.length
      ∧ List.Forall₂ (fun x r => x.IsNamed ∧ Resolution.Suits x r) f.spellings rs := by
    unfold spellings
    generalize f.arguments = raws at hrs
    clear hmade
    induction hrs with
    | nil => exact ⟨rfl, .nil⟩
    | cons hr _ ih =>
      obtain ⟨x, hx, hsuits⟩ := exists_spelling_of_resolveArgument hr
      rw [List.filterMap_cons, hx]
      exact ⟨congrArg Nat.succ ih.1, .cons hsuits ih.2⟩
  exact ⟨hall.1, rs, hall.2, hmade⟩

/-- What is collected from pins is collected from the arguments one by one. -/
theorem collect_pins {β : Type} (collect : List Pin → List β) {g : Spelling → List β}
    (hnil : collect [] = []) (happend : ∀ ps qs, collect (ps ++ qs) = collect ps ++ collect qs)
    (hg : ∀ x r, x.IsNamed → Resolution.Suits x r → collect r.pins = g x) {xs : List Spelling}
    {rs : List Resolution}
    (h : List.Forall₂ (fun x r => x.IsNamed ∧ Resolution.Suits x r) xs rs) :
    collect (rs.flatMap (·.pins)) = xs.flatMap g := by
  induction h with
  | nil => exact hnil
  | cons hx _ ih => rw [List.flatMap_cons, happend, ih, hg _ _ hx.1 hx.2, List.flatMap_cons]

/-- The outputs are the arguments that are outputs. -/
theorem map_name_outputs (h : f.signature = .ok s) : s.outputs.map (·.name)
    = f.spellings.flatMap fun x => if x.sort = .output then [String.ofList x.name] else [] := by
  obtain ⟨-, rs, hrs, hmade⟩ := exists_suits h
  rw [hmade.outputs]
  refine collect_pins (fun ps => (ps.filter fun p => p.isOutput).map (·.name)) rfl
    (fun ps qs => by simp) (fun x r _ hr => ?_) hrs
  cases hr with
  | dropped hsort => rcases hsort with hsort | hsort <;> simp [hsort]
  | matrix hsort => simp [hsort, matrixResolution, Pin.row, Pin.isOutput]
  | @pin p hsort hname =>
    by_cases ho : p.isOutput = true
    · simp [hsort, Pin.sort_eq_output.2 ho, ho, hname]
    · simp [hsort, Pin.sort_eq_output, ho]

end ShaderFunction

end ShaderGraph
