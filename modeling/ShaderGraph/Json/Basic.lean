import ShaderGraph.Binary64.Basic
import ShaderGraph.OrderedMap

/-!
# JSON values

The values that artifacts and manifests are stored as. Whole numbers have any size and are told
apart from numbers with a point or an exponent; the members of an object keep their order.
-/

namespace ShaderGraph

/-- A number as a document writes it. -/
inductive Number where
  | whole (i : Int)
  | real (x : Binary64)
deriving DecidableEq, Repr, Inhabited

/-- The double precision number nearest to a number. -/
def Number.toBinary64 : Number → Binary64
  | whole i => .ofInt i
  | real x => x

/-- A JSON value. -/
inductive Json where
  | null
  | bool (b : Bool)
  | number (n : Number)
  | string (s : String)
  | array (items : List Json)
  | object (members : List (String × Json))
deriving Inhabited

namespace Json

/-- A whole number. -/
def int (i : Int) : Json := number (.whole i)

/-- An array of texts. -/
def strings (ss : List String) : Json := array (ss.map string)

/-- A value that may be missing. -/
def optional {α : Type} (f : α → Json) : Option α → Json
  | some a => f a
  | none => null

/-- An object with a text for each key. -/
def ofTable (m : OrderedMap String String) : Json := object (m.map fun p => (p.1, string p.2))

/-- The member of an object with a key. -/
def member? (key : String) : Json → Option Json
  | object ms => OrderedMap.get? ms key
  | _ => none

/-- What a value is made of, one after the other: items, keys or characters. -/
def elements? : Json → Option (List Json)
  | array items => some items
  | object ms => some (ms.map fun p => string p.1)
  | string s => some (s.toList.map fun c => string c.toString)
  | _ => none

end Json

end ShaderGraph
