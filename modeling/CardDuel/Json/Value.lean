/-
CardDuel.Json.Value — JSON documents as values.

Integers are exact. A number written with a fraction or an exponent is
kept apart from them, since no field of a catalog takes one. The fields
of an object are listed in the order written; a document does not name a
field twice.
-/

namespace CardDuel

/-- A JSON document. -/
inductive JsonValue where
  | null
  | bool (b : Bool)
  | int (n : Int)
  /-- A number with a fraction or an exponent: `digits` times ten to the
  power of `exponent`. -/
  | decimal (digits exponent : Int)
  | string (s : String)
  | array (items : List JsonValue)
  | object (fields : List (String × JsonValue))
  deriving Repr

namespace JsonValue

instance : Inhabited JsonValue := ⟨null⟩

/-- The fields of an object. -/
abbrev Fields : Type := List (String × JsonValue)

def fields? : JsonValue → Option Fields
  | object fields => some fields
  | _ => none

def items? : JsonValue → Option (List JsonValue)
  | array items => some items
  | _ => none

/-- A choice between alternatives: the name of the alternative and what
it holds. An alternative that holds nothing is written as its name alone. -/
def variant? : JsonValue → Option (String × JsonValue)
  | string name => some (name, null)
  | object [(name, content)] => some (name, content)
  | _ => none

/-- The written form of an alternative that holds something. -/
def variant (name : String) (content : JsonValue) : JsonValue := object [(name, content)]

end JsonValue

end CardDuel
