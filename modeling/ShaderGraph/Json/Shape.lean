import ShaderGraph.Json.Integer
import ShaderGraph.Text.Search

/-!
# The shape of JSON values

A document is read by its shape: which members an object has, and what the parts of a value are. The
values of the members stand as they are. What does not fit is an error with its cause.
-/

namespace ShaderGraph

/-- Why a value does not have the shape that is asked for. -/
inductive DocumentError where
  | missingKey (key : String)
  /-- a value of the wrong type, or a missing or unknown field of a record -/
  | mistyped
  /-- a value that has no members, or is no list, where it is used as one -/
  | noMembers
  /-- a text that is no number -/
  | notANumber
  | infiniteNumber
  /-- a value that is not made of two parts -/
  | notAPair
deriving DecidableEq, Repr

/-- A field of a record, and what it holds if it is left out; without a default it has to be there. -/
structure RecordField where
  name : String
  default : Option Json := none

namespace Json

/-- The member of an object that has to be there. -/
def require (j : Json) (key : String) : Except DocumentError Json :=
  match j with
  | object ms =>
    match OrderedMap.get? ms key with
    | some v => .ok v
    | none => .error (.missingKey key)
  | _ => .error .mistyped

/-- The member of an object, or a default. -/
def memberOr (j : Json) (key : String) (default : Json) : Json := (j.member? key).getD default

/-- What a value is made of, one after the other. -/
def elements (j : Json) : Except DocumentError (List Json) :=
  match j.elements? with
  | some parts => .ok parts
  | none => .error .mistyped

/-- What a value is made of, each part read by `f`. -/
def elementsBy {α : Type} (f : Json → Except DocumentError α) (j : Json) :
    Except DocumentError (List α) :=
  match j.elements? with
  | some parts => parts.mapM f
  | none => .error .mistyped

/-- The members of an object. -/
def members : Json → Except DocumentError (OrderedMap String Json)
  | object ms => .ok ms
  | _ => .error .noMembers

/-- The two parts of a value. -/
def twoParts (j : Json) : Except DocumentError (Json × Json) :=
  match j.elements? with
  | some [a, b] => .ok (a, b)
  | some _ => .error .notAPair
  | none => .error .mistyped

/-- The whole number that a truth value or a number is. -/
def wholeValue? : Json → Option Int
  | bool b => some (if b then 1 else 0)
  | number (.whole i) => some i
  | number (.real x) => x.toInt?
  | _ => none

/-- Whether two values without parts are equal. A number equals a truth value or another number of
the same size. -/
def isEqual (a b : Json) : Bool :=
  match a, b with
  | null, null => true
  | string s, string t => s == t
  | number (.real x), number (.real y) => x == y || (x.isZero && y.isZero)
  | a, b =>
    match wholeValue? a, wholeValue? b with
    | some i, some j => i == j
    | _, _ => false

/-- Whether a value has no parts that could change. -/
def isFixed : Json → Bool
  | array _ => false
  | object _ => false
  | _ => true

/-- A list of keys and values with one more. A key that is there keeps its place. -/
def putPair (k v : Json) : List (Json × Json) → List (Json × Json)
  | [] => [(k, v)]
  | p :: ps => if isEqual p.1 k then (p.1, v) :: ps else p :: putPair k v ps

/-- The keys and values of an object, or of a list of pairs. -/
def keyedValues (j : Json) : Except DocumentError (List (Json × Json)) :=
  match j with
  | object ms => .ok (ms.map fun p => (string p.1, p.2))
  | j => do
    let parts ← j.elements
    parts.foldlM (fun found part => do
      let (k, v) ← part.twoParts
      if k.isFixed then return putPair k v found else .error .mistyped) []

/-- Whether a text is in a value: a part of a text, an item of an array or a key of an object. -/
def includes (j : Json) (s : String) : Except DocumentError Bool :=
  match j with
  | string t => .ok (Text.contains t s)
  | array items => .ok (items.any (isEqual (string s)))
  | object ms => .ok (OrderedMap.has ms s)
  | _ => .error .mistyped

/-- The fields of a record with their values, in the order of the record. There are no others. -/
def recordFields (fields : List RecordField) (j : Json) :
    Except DocumentError (OrderedMap String Json) :=
  match j with
  | object ms =>
    if ms.all fun p => fields.any (·.name == p.1) then
      fields.mapM fun f =>
        match (OrderedMap.get? ms f.name).or f.default with
        | some v => .ok (f.name, v)
        | none => .error .mistyped
    else .error .mistyped
  | _ => .error .mistyped

/-- The value of a field. -/
def fieldOf (fields : OrderedMap String Json) (name : String) : Json :=
  (OrderedMap.get? fields name).getD null

end Json

end ShaderGraph
