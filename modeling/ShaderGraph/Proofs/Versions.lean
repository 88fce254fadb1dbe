import Mathlib.Order.Nat
import ShaderGraph.Proofs.Generate
import ShaderGraph.Proofs.OrderedMap

/-!
# Identifiers along the versions of a function

Each identifier of a graph was drawn for one name in one role, and it goes from version to version
with that name for as long as the name keeps the role. So a name that comes anew, or comes back,
has an identifier that no version before had, and no two names ever share one.
-/

namespace ShaderGraph

/-- A supply of which more may have been drawn. -/
structure Supply.Later (k k' : Supply) : Prop where
  draw : k'.draw = k.draw
  drawn : k.drawn ≤ k'.drawn

theorem Supply.Later.refl {k : Supply} : k.Later k := ⟨rfl, le_rfl⟩

theorem Supply.Later.trans {k k' k'' : Supply} (h : k.Later k') (h' : k'.Later k'') : k.Later k'' :=
  ⟨h'.draw.trans h.draw, h.drawn.trans h'.drawn⟩

/-! ## Whose an identifier is -/

/-- Every identifier of a table has been drawn from a supply, for the name that has it. -/
def IdentifierTable.OwnedBy (t : IdentifierTable) (owner : Nat → Role × String) (k : Supply) : Prop :=
  ∀ r name id, t.get? r name = some id →
    ∃ i < k.drawn, id = .string (k.draw i) ∧ owner i = (r, name)

namespace IdentifierTable

variable {t : IdentifierTable} {owner owner' : Nat → Role × String} {k k' : Supply}

theorem OwnedBy.later (h : t.OwnedBy owner k) (hk : k.Later k')
    (hsame : ∀ i < k.drawn, owner' i = owner i) : t.OwnedBy owner' k' := by
  intro r name id hid
  obtain ⟨i, hi, hdraw, howner⟩ := h r name id hid
  exact ⟨i, hi.trans_le hk.drawn, by rw [hdraw, hk.draw], by rw [hsame i hi, howner]⟩

theorem mem_keys_iff {r : Role} {name : String} :
    name ∈ OrderedMap.keys (t.ofRole r) ↔ (t.get? r name).isSome = true :=
  OrderedMap.isSome_get?.symm

end IdentifierTable

namespace Naming

variable {n : Naming} {r : Role} {name : String} {owner : Nat → Role × String}

theorem later_ensure : n.supply.Later (n.ensure r name).supply := by
  unfold ensure
  split
  · exact .refl
  · exact ⟨rfl, Nat.le_succ _⟩

theorem later_ensureAll : ∀ (ps : List (Role × String)) (n : Naming),
    n.supply.Later (n.ensureAll ps).supply
  | [], _ => .refl
  | _ :: ps, _ => later_ensure.trans (later_ensureAll ps _)

/-- What is drawn for a name is its own, and what was drawn before keeps its owner. -/
theorem exists_owner_ensure (r : Role) (name : String) (h : n.table.OwnedBy owner n.supply) :
    ∃ owner', (∀ i < n.supply.drawn, owner' i = owner i)
      ∧ (n.ensure r name).table.OwnedBy owner' (n.ensure r name).supply := by
  unfold ensure
  split
  · exact ⟨owner, fun _ _ => rfl, h⟩
  · have hsame : ∀ i < n.supply.drawn,
        Function.update owner n.supply.drawn (r, name) i = owner i := fun i hi =>
      Function.update_of_ne hi.ne ..
    refine ⟨_, hsame, fun r' k id hid => ?_⟩
    rw [IdentifierTable.get?_set] at hid
    split_ifs at hid with hself
    · obtain ⟨rfl, rfl⟩ := hself
      exact ⟨n.supply.drawn, Nat.lt_succ_self _, (Option.some.inj hid).symm,
        Function.update_self ..⟩
    · have hnext : n.supply.Later n.supply.next.2 := ⟨rfl, Nat.le_succ _⟩
      exact h.later hnext hsame r' k id hid

theorem exists_owner_ensureAll : ∀ (ps : List (Role × String)) {n : Naming}
    {owner : Nat → Role × String}, n.table.OwnedBy owner n.supply →
      ∃ owner', (∀ i < n.supply.drawn, owner' i = owner i)
        ∧ (n.ensureAll ps).table.OwnedBy owner' (n.ensureAll ps).supply
  | [], _, owner, h => ⟨owner, fun _ _ => rfl, h⟩
  | p :: ps, n, _, h => by
    obtain ⟨owner₁, hsame₁, h₁⟩ := exists_owner_ensure p.1 p.2 h
    obtain ⟨owner₂, hsame₂, h₂⟩ := exists_owner_ensureAll ps h₁
    refine ⟨owner₂, fun i hi => ?_, h₂⟩
    rw [hsame₂ i (hi.trans_le later_ensure.drawn), hsame₁ i hi]

/-- An identifier was there before, or has been drawn since. -/
theorem get?_ensure_cases {r' : Role} {k : String} {id : Json}
    (h : (n.ensure r name).table.get? r' k = some id) : n.table.get? r' k = some id
      ∨ ∃ i, n.supply.drawn ≤ i ∧ id = .string (n.supply.draw i) := by
  unfold ensure at h
  split at h
  · exact .inl h
  · rw [IdentifierTable.get?_set] at h
    split_ifs at h
    · exact .inr ⟨n.supply.drawn, le_rfl, (Option.some.inj h).symm⟩
    · exact .inl h

theorem get?_ensureAll_cases {r : Role} {k : String} {id : Json} :
    ∀ (ps : List (Role × String)) {n : Naming}, (n.ensureAll ps).table.get? r k = some id →
      n.table.get? r k = some id ∨ ∃ i, n.supply.drawn ≤ i ∧ id = .string (n.supply.draw i)
  | [], _, h => .inl h
  | p :: ps, n, h => by
    have hlater : n.supply.Later (n.ensure p.1 p.2).supply := later_ensure
    rcases get?_ensureAll_cases ps h with h | ⟨i, hi, hid⟩
    · exact get?_ensure_cases h
    · rw [hlater.draw] at hid
      exact .inr ⟨i, hlater.drawn.trans hi, hid⟩

end Naming

namespace Signature

variable {s : Signature} {t : IdentifierTable} {r : Role} {name : String}

/-- A version takes over the identifiers of the names that have a role in it. -/
theorem get?_kept : (s.kept (some t)).get? r name
    = if name ∈ s.namesOf r then t.get? r name else none := by
  rw [IdentifierTable.get?, ofRole_kept, OrderedMap.get?_restrict]
  rfl

theorem get?_kept_none : (s.kept none).get? r name = none := by
  cases r <;> rfl

theorem naming_eq_ensureAll (s : Signature) (earlier : Option IdentifierTable) (k : Supply) :
    s.naming earlier k = Naming.ensureAll ⟨s.kept earlier, k⟩ s.namedPins := rfl

theorem NamedBy.mem_keys_iff (h : s.NamedBy t) :
    name ∈ OrderedMap.keys (t.ofRole r) ↔ name ∈ s.namesOf r := by
  rw [← mem_namedPins]
  exact ⟨h.only r name, fun hp => IdentifierTable.mem_keys_iff.2 (h.named _ hp)⟩

end Signature

/-! ## Versions -/

/-- A signature that a function has had, and the artifact that was generated for it. -/
structure Version where
  signature : Signature
  artifact : Artifact

/-- The identifier of a name in a role. -/
def Version.id? (v : Version) (r : Role) (name : String) : Option Json :=
  v.artifact.identifiers.get? r name

/-- The versions of a function, the latest first, each generated with the identifiers of the one
before it, and what is left of the supply. In between others may draw from it too. -/
inductive Lineage : List Version → Supply → Prop
  | start {k : Supply} : Lineage [] k
  | wait {vs : List Version} {k k' : Supply} (h : Lineage vs k) (hk : k.Later k') : Lineage vs k'
  | version {vs : List Version} {k k' : Supply} {f : ShaderFunction} {s : Signature} {tag : String}
      {context : GenerationContext} {a : Artifact} (h : Lineage vs k) (hs : f.signature = .ok s)
      (ha : Artifact.generate f s tag context (vs.head?.map (·.artifact.identifiers)) k
        = (.ok a, k')) : Lineage (⟨s, a⟩ :: vs) k'

/-- How the identifiers of a version follow on those of the versions before it. -/
structure Version.Follows (v : Version) (earlier : List Version) : Prop where
  /-- the tables name the pins of the version and no others -/
  keys : ∀ r name, name ∈ OrderedMap.keys (v.artifact.identifiers.ofRole r)
    ↔ name ∈ v.signature.namesOf r
  /-- a name that keeps its role keeps its identifier -/
  keeps : ∀ w, earlier.head? = some w → ∀ r name, name ∈ v.signature.namesOf r →
    name ∈ w.signature.namesOf r → v.id? r name = w.id? r name
  /-- a name that did not have the role just before has an identifier that no version had -/
  fresh : ∀ r name id, v.id? r name = some id →
    (∀ w, earlier.head? = some w → name ∉ w.signature.namesOf r) →
    ∀ w ∈ earlier, ∀ r' name', w.id? r' name' ≠ some id

namespace Artifact

variable {f : ShaderFunction} {s : Signature} {tag : String} {context : GenerationContext}
  {earlier : Option IdentifierTable} {k k' : Supply} {a : Artifact}

/-- The identifiers of an artifact are those that its pins have been given. -/
theorem ensureAll_of_generate (h : generate f s tag context earlier k = (.ok a, k')) :
    Naming.ensureAll ⟨s.kept earlier, k⟩ s.namedPins = ⟨a.identifiers, k'⟩ := by
  obtain ⟨n, -, rfl⟩ := exists_of_generate_eq_ok (congrArg Prod.fst h)
  have hk : (s.naming earlier k).supply = k' := congrArg Prod.snd h
  rw [← hk, ← s.naming_eq_ensureAll]
  rfl

theorem namedBy_of_generate (h : generate f s tag context earlier k = (.ok a, k')) :
    s.NamedBy a.identifiers := by
  have hnamed := s.namedBy_naming earlier k
  rw [s.naming_eq_ensureAll, ensureAll_of_generate h] at hnamed
  exact hnamed

theorem later_of_generate (h : generate f s tag context earlier k = (.ok a, k')) : k.Later k' := by
  have hlater := Naming.later_ensureAll s.namedPins ⟨s.kept earlier, k⟩
  rw [ensureAll_of_generate h] at hlater
  exact hlater

end Artifact

namespace Lineage

variable {vs : List Version} {k : Supply}

theorem namedBy (h : Lineage vs k) : ∀ v ∈ vs, v.signature.NamedBy v.artifact.identifiers := by
  induction h with
  | start => simp
  | wait _ _ ih => exact ih
  | version _ _ ha ih =>
    intro v hv
    rcases List.mem_cons.1 hv with rfl | hv
    · exact Artifact.namedBy_of_generate ha
    · exact ih v hv

/-- All identifiers of all versions have been drawn, and each draw has one owner. -/
theorem exists_owner (h : Lineage vs k) :
    ∃ owner, ∀ v ∈ vs, v.artifact.identifiers.OwnedBy owner k := by
  induction h with
  | start => exact ⟨fun _ => (.input, ""), by simp⟩
  | wait _ hk ih =>
    obtain ⟨owner, hall⟩ := ih
    exact ⟨owner, fun v hv => (hall v hv).later hk fun _ _ => rfl⟩
  | @version vs k k' f s tag context a _ _ ha ih =>
    obtain ⟨owner, hall⟩ := ih
    have hkept : (s.kept (vs.head?.map (·.artifact.identifiers))).OwnedBy owner k := by
      intro r name id hid
      cases hhead : vs.head? with
      | none =>
        rw [hhead, Option.map_none, Signature.get?_kept_none] at hid
        cases hid
      | some v =>
        rw [hhead, Option.map_some, Signature.get?_kept] at hid
        split_ifs at hid
        exact hall v (List.mem_of_mem_head? hhead) r name id hid
    obtain ⟨owner', hsame, howned⟩ := Naming.exists_owner_ensureAll s.namedPins
      (n := ⟨s.kept (vs.head?.map (·.artifact.identifiers)), k⟩) hkept
    rw [Artifact.ensureAll_of_generate ha] at howned
    refine ⟨owner', fun v hv => ?_⟩
    rcases List.mem_cons.1 hv with rfl | hv
    · exact howned
    · exact (hall v hv).later (Artifact.later_of_generate ha) hsame

/-- A version keeps what the one before it has, and draws the rest from what has not been drawn. -/
theorem follows_head {f : ShaderFunction} {s : Signature} {tag : String}
    {context : GenerationContext} {a : Artifact} {k' : Supply} (hinj : Function.Injective k.draw)
    (h : Lineage vs k) (ha : Artifact.generate f s tag context
      (vs.head?.map (·.artifact.identifiers)) k = (.ok a, k')) :
    (⟨s, a⟩ : Version).Follows vs := by
  have hall := Artifact.ensureAll_of_generate ha
  have hnamed := Artifact.namedBy_of_generate ha
  refine ⟨fun r name => hnamed.mem_keys_iff, fun w hw r name hv hwn => ?_,
    fun r name id hid habsent w hw r' name' hid' => ?_⟩
  · have hwkey := (h.namedBy w (List.mem_of_mem_head? hw)).mem_keys_iff.2 hwn
    obtain ⟨id, hid⟩ := Option.isSome_iff_exists.1 (IdentifierTable.mem_keys_iff.1 hwkey)
    have hkept : (s.kept (vs.head?.map (·.artifact.identifiers))).get? r name = some id := by
      rw [hw, Option.map_some, Signature.get?_kept, if_pos hv, hid]
    have hfinal := Naming.get?_ensureAll s.namedPins
      (n := ⟨s.kept (vs.head?.map (·.artifact.identifiers)), k⟩) hkept
    rw [hall] at hfinal
    exact hfinal.trans hid.symm
  · have hnone : (s.kept (vs.head?.map (·.artifact.identifiers))).get? r name = none := by
      cases hhead : vs.head? with
      | none => exact Signature.get?_kept_none
      | some v =>
        have hkey := mt (h.namedBy v (List.mem_of_mem_head? hhead)).mem_keys_iff.1
          (habsent v hhead)
        rw [IdentifierTable.mem_keys_iff, Bool.not_eq_true, Option.isSome_eq_false_iff,
          Option.isNone_iff_eq_none] at hkey
        rw [Option.map_some, Signature.get?_kept, hkey, ite_self]
    have hfinal : (Naming.ensureAll ⟨s.kept (vs.head?.map (·.artifact.identifiers)), k⟩
        s.namedPins).table.get? r name = some id := by
      rw [hall]
      exact hid
    -- the earlier version has drawn its identifiers before this one came
    obtain ⟨owner, howned⟩ := h.exists_owner
    obtain ⟨i, hi, hdraw, -⟩ := howned w hw r' name' id hid'
    rcases Naming.get?_ensureAll_cases s.namedPins hfinal with hold | ⟨j, hj, hdraw'⟩
    · rw [hnone] at hold
      cases hold
    · have hij : i = j := hinj (Json.string.inj (hdraw.symm.trans hdraw'))
      exact absurd (hij ▸ hi) (Nat.not_lt.2 hj)

theorem follows (h : Lineage vs k) (hinj : Function.Injective k.draw) :
    ∀ newer v earlier, vs = newer ++ v :: earlier → v.Follows earlier := by
  induction h with
  | start => exact fun newer v earlier hvs => absurd hvs (by simp)
  | wait _ hk ih => exact ih (hk.draw ▸ hinj)
  | version h _ ha ih =>
    have hinj' := (Artifact.later_of_generate ha).draw ▸ hinj
    intro newer v earlier hvs
    cases newer with
    | nil =>
      obtain ⟨rfl, rfl⟩ := List.cons.inj hvs
      exact h.follows_head hinj' ha
    | cons u newer => exact ih hinj' newer v earlier (List.cons.inj hvs).2

end Lineage

/-- Along the versions of a function the identifiers are those of the pins there are, they stay with
the names that keep their role, and none is ever given to another name or to another role. -/
theorem identifiers_along_versions {vs : List Version} {k : Supply} (h : Lineage vs k)
    (hinj : Function.Injective k.draw) :
    (∀ newer v earlier, vs = newer ++ v :: earlier → v.Follows earlier)
      ∧ ∀ v ∈ vs, ∀ w ∈ vs, ∀ r name r' name' id, v.id? r name = some id →
        w.id? r' name' = some id → (r, name) = (r', name') := by
  refine ⟨h.follows hinj, fun v hv w hw r name r' name' id hid hid' => ?_⟩
  obtain ⟨owner, howned⟩ := h.exists_owner
  obtain ⟨i, -, hdraw, hi⟩ := howned v hv r name id hid
  obtain ⟨j, -, hdraw', hj⟩ := howned w hw r' name' id hid'
  have hij : i = j := hinj (Json.string.inj (hdraw.symm.trans hdraw'))
  rw [← hi, ← hj, hij]

namespace ExposedForAWhile

/-- Identifiers that only grow. -/
def supply : Supply := ⟨fun n => String.ofList (List.replicate n 'x'), 0⟩

theorem injective_draw : Function.Injective supply.draw := by
  intro m n h
  have hlength := congrArg List.length (String.ofList_injective h)
  rwa [List.length_replicate, List.length_replicate] at hlength

def hidden : ShaderFunction := { name := "F", arguments := ["float A", "out float R"] }

def exposed : ShaderFunction := { name := "F", arguments := ["[Expose] float A", "out float R"] }

def argument (metadata : Metadata) : Pin :=
  { name := "A", declaredType := "float", kind := .scalar, metadata, outputType := some .float1 }

def result : Pin :=
  { name := "R", declaredType := "float", kind := .scalar, qualifier := .output
    outputType := some .float1 }

def signature (metadata : Metadata) : Signature :=
  { inputs := [argument metadata], outputs := [result] }

theorem signature_eq : hidden.signature = .ok (signature [])
    ∧ exposed.signature = .ok (signature [("Expose", "")]) := by decide +kernel

theorem roles : "A" ∈ (signature []).namesOf .input
    ∧ "A" ∈ (signature [("Expose", "")]).namesOf .parameter
    ∧ "A" ∉ (signature [("Expose", "")]).namesOf .input := by decide

/-- Whatever came before, there is a next version of either function. -/
theorem exists_version {f : ShaderFunction} {s : Signature} {vs : List Version} {k : Supply}
    (h : Lineage vs k) (hs : f.signature = .ok s) (hbody : f.body = "") :
    ∃ a k', Lineage (⟨s, a⟩ :: vs) k' ∧ k.Later k' := by
  have hn : TexCoordinate.highest f.body = .ok none :=
    TexCoordinate.highest_of_references_eq_nil (by rw [hbody]; rfl)
  have ha : Artifact.generate f s "" default (vs.head?.map (·.artifact.identifiers)) k = _ :=
    Artifact.generate_eq_ok hn
  exact ⟨_, _, h.version hs ha, Artifact.later_of_generate ha⟩

/-- The argument becomes a parameter and then an input again, with another identifier. -/
theorem identifiers_along_versions_of_exposed_for_a_while : ∃ v₁ v₂ v₃ k,
    Lineage [v₃, v₂, v₁] k ∧ Function.Injective k.draw
      ∧ "A" ∈ v₁.signature.namesOf .input ∧ "A" ∈ v₂.signature.namesOf .parameter
      ∧ "A" ∈ v₃.signature.namesOf .input ∧ v₃.Follows [v₂, v₁]
      ∧ v₃.id? .input "A" ≠ v₁.id? .input "A" := by
  obtain ⟨a₁, k₁, h₁, hk₁⟩ := exists_version (.start (k := supply)) signature_eq.1 rfl
  obtain ⟨a₂, k₂, h₂, hk₂⟩ := exists_version h₁ signature_eq.2 rfl
  obtain ⟨a₃, k₃, h₃, hk₃⟩ := exists_version h₂ signature_eq.1 rfl
  have hinj : Function.Injective k₃.draw := by
    rw [((hk₁.trans hk₂).trans hk₃).draw]
    exact injective_draw
  have hfollows := (identifiers_along_versions h₃ hinj).1 [] _ _ rfl
  have hsome := IdentifierTable.mem_keys_iff.1 ((hfollows.keys .input "A").2 roles.1)
  obtain ⟨id, hid⟩ := Option.isSome_iff_exists.1 hsome
  have hnew := hfollows.fresh .input "A" id hid (by rintro _ ⟨⟩; exact roles.2.2)
    ⟨signature [], a₁⟩ (by simp) .input "A"
  exact ⟨_, _, _, k₃, h₃, hinj, roles.1, roles.2.1, roles.1, hfollows, fun he => hnew (he ▸ hid)⟩

end ExposedForAWhile

end ShaderGraph
