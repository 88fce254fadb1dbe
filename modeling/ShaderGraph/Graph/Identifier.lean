import ShaderGraph.Json.Basic

/-!
# Identifiers of pins

Every input, output and parameter of a generated graph has an identifier, so that what refers to it
survives edits of the function. A table remembers them by role and name. A name that is new to its
role is given the next identifier of a supply, and one that is known keeps its own, whatever value
an earlier document has for it.
-/

namespace ShaderGraph

/-- What a pin is in a generated graph. -/
inductive Role where
  | input
  | output
  | parameter
deriving DecidableEq, Repr, Inhabited

/-- The identifiers of a graph. -/
structure IdentifierTable where
  inputs : OrderedMap String Json := []
  outputs : OrderedMap String Json := []
  parameters : OrderedMap String Json := []
deriving Inhabited

namespace IdentifierTable

/-- The identifiers of a role. -/
def ofRole (t : IdentifierTable) : Role → OrderedMap String Json
  | .input => t.inputs
  | .output => t.outputs
  | .parameter => t.parameters

/-- The identifier of a name in a role. -/
def get? (t : IdentifierTable) (r : Role) (name : String) : Option Json :=
  OrderedMap.get? (t.ofRole r) name

/-- The table with an identifier for a name in a role. -/
def set (t : IdentifierTable) (r : Role) (name : String) (id : Json) : IdentifierTable :=
  match r with
  | .input => { t with inputs := OrderedMap.insert t.inputs name id }
  | .output => { t with outputs := OrderedMap.insert t.outputs name id }
  | .parameter => { t with parameters := OrderedMap.insert t.parameters name id }

/-- The part of a table whose names still exist. -/
def restrict (t : IdentifierTable) (inputs outputs parameters : List String) : IdentifierTable :=
  ⟨OrderedMap.restrict t.inputs inputs, OrderedMap.restrict t.outputs outputs,
    OrderedMap.restrict t.parameters parameters⟩

theorem ofRole_set (t : IdentifierTable) (r s : Role) (name : String) (id : Json) :
    (t.set r name id).ofRole s
      = if s = r then OrderedMap.insert (t.ofRole r) name id else t.ofRole s := by
  cases r <;> cases s <;> simp [set, ofRole]

end IdentifierTable

/-- An endless supply of identifiers and the number of those already drawn. -/
structure Supply where
  draw : Nat → String
  drawn : Nat := 0

namespace Supply

/-- The next identifier. -/
def next (s : Supply) : String × Supply := (s.draw s.drawn, { s with drawn := s.drawn + 1 })

/-- The hexadecimal digits of a number, at least `width`. -/
def hexDigits (width n : Nat) : String :=
  let ds := Nat.toDigits 16 n
  String.ofList (List.replicate (width - ds.length) '0' ++ ds)

/-- Identifiers that count from one, in the shape of random ones. -/
def counting : Supply := ⟨fun n => "00000000-0000-0000-0000-" ++ hexDigits 12 (n + 1), 0⟩

end Supply

/-- A table under construction and the supply that it draws from. -/
structure Naming where
  table : IdentifierTable
  supply : Supply

/-- The identifiers after a name in a role has got one. -/
def Naming.ensure (n : Naming) (r : Role) (name : String) : Naming :=
  match n.table.get? r name with
  | some _ => n
  | none => ⟨n.table.set r name (.string n.supply.next.1), n.supply.next.2⟩

end ShaderGraph
