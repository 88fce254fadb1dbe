import ShaderGraph.Json.Basic
import ShaderGraph.Moment

/-!
# YAML values

The values that a configuration file holds. Unlike in JSON the keys of a mapping are values of any
type, and there are bytes, moments, sets and pairs. A collection may stand inside of itself: it is
then a knot with a label, and every place inside of it where it stands again has that label.
-/

namespace ShaderGraph

/-- A YAML value. -/
inductive Yaml where
  | null
  | bool (b : Bool)
  | int (i : Int)
  | real (x : Binary64)
  | text (s : String)
  | bytes (bs : List UInt8)
  | moment (m : Moment)
  | pair (first second : Yaml)
  | sequence (items : List Yaml)
  | mapping (entries : List (Yaml × Yaml))
  | setOf (items : List Yaml)
  /-- a collection that stands inside of itself -/
  | knot (label : Nat) (body : Yaml)
  /-- the knot around with this label; whether it is a sequence -/
  | again (label : Nat) (isSequence : Bool)
deriving Inhabited

namespace Yaml

/-- A mapping from texts. -/
def ofFields (fields : List (String × Yaml)) : Yaml := mapping (fields.map fun p => (text p.1, p.2))

/-- A sequence of texts. -/
def texts (ss : List String) : Yaml := sequence (ss.map text)

mutual

/-- The YAML value that a JSON value is. -/
def ofJson : Json → Yaml
  | .null => null
  | .bool b => bool b
  | .number (.whole i) => int i
  | .number (.real x) => real x
  | .string s => text s
  | .array items => sequence (ofItems items)
  | .object members => mapping (ofMembers members)

def ofItems : List Json → List Yaml
  | [] => []
  | j :: js => ofJson j :: ofItems js

def ofMembers : List (String × Json) → List (Yaml × Yaml)
  | [] => []
  | (k, j) :: ms => (text k, ofJson j) :: ofMembers ms

end

mutual

/-- A value in which `whole` takes the places where the knot with a label stands again. -/
def fill (label : Nat) (whole : Yaml) : Yaml → Yaml
  | again l s => if l = label then whole else again l s
  | knot l body => knot l (fill label whole body)
  | pair a b => pair (fill label whole a) (fill label whole b)
  | sequence items => sequence (fillItems label whole items)
  | setOf items => setOf (fillItems label whole items)
  | mapping entries => mapping (fillEntries label whole entries)
  | v => v

def fillItems (label : Nat) (whole : Yaml) : List Yaml → List Yaml
  | [] => []
  | v :: vs => fill label whole v :: fillItems label whole vs

def fillEntries (label : Nat) (whole : Yaml) : List (Yaml × Yaml) → List (Yaml × Yaml)
  | [] => []
  | (k, v) :: es => (k, fill label whole v) :: fillEntries label whole es

end

/-- What a value is made of: a knot is undone, and the knot itself stands in it again. -/
def unfold : Yaml → Yaml
  | knot label body => fill label (knot label body) body
  | v => v

end Yaml

end ShaderGraph
