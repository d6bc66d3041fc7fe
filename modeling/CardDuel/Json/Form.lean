/-
CardDuel.Json.Form — types with a JSON form.

A form writes every value as a document and reads documents back; what
does not fit the form is not read. A record is an object with a field for
each part. Reading looks fields up by name and passes over fields that
the record does not have. A field may be required, may have a default
that stands in when the field is missing, or may be optional, and then a
missing field and a null both mean that there is no value.
-/
import CardDuel.Identifier
import CardDuel.Json.Value
import CardDuel.Points

namespace CardDuel

/-- Types with a JSON form. -/
class JsonForm (α : Type) where
  encode : α → JsonValue
  decode? : JsonValue → Option α

export JsonForm (encode decode?)

namespace JsonForm

/-! ## Numbers and texts -/

instance : JsonForm Bool where
  encode := .bool
  decode?
    | .bool b => some b
    | _ => none

instance : JsonForm String where
  encode := .string
  decode?
    | .string s => some s
    | _ => none

instance : JsonForm Points where
  encode p := .int p.val
  decode?
    | .int n => Points.ofInt? n
    | _ => none

/-- A natural number below a bound. -/
def natBelow? (bound : Nat) : JsonValue → Option Nat
  | .int n => if 0 ≤ n ∧ n < bound then some n.toNat else none
  | _ => none

instance : JsonForm UInt8 where
  encode n := .int n.toNat
  decode? v := (natBelow? UInt8.size v).map UInt8.ofNat

instance : JsonForm UInt16 where
  encode n := .int n.toNat
  decode? v := (natBelow? UInt16.size v).map UInt16.ofNat

instance : JsonForm UInt32 where
  encode n := .int n.toNat
  decode? v := (natBelow? UInt32.size v).map UInt32.ofNat

instance : JsonForm UInt64 where
  encode n := .int n.toNat
  decode? v := (natBelow? UInt64.size v).map UInt64.ofNat

/-! ## Identifiers -/

instance : JsonForm PlayerId where
  encode id := encode id.number
  decode? v := (decode? v).map PlayerId.mk

instance : JsonForm CardId where
  encode id := encode id.number
  decode? v := (decode? v).map CardId.mk

instance : JsonForm CardTypeId where
  encode id := encode id.number
  decode? v := (decode? v).map CardTypeId.mk

instance : JsonForm ZoneId where
  encode id := encode id.number
  decode? v := (decode? v).map ZoneId.mk

instance : JsonForm InstanceId where
  encode id := .int id.number
  decode? v := (natBelow? UInt32.size v).map InstanceId.mk

instance : JsonForm Bearer where
  encode
    | .player id => .variant "Player" (encode id)
    | .card id => .variant "Card" (encode id)
  decode? v :=
    match v.variant? with
    | some ("Player", w) => (decode? w).map Bearer.player
    | some ("Card", w) => (decode? w).map Bearer.card
    | _ => none

/-! ## Lists, pairs and options -/

/-- Reads each document of a list. -/
def decodeAll? {α : Type} [JsonForm α] : List JsonValue → Option (List α)
  | [] => some []
  | v :: rest => do
    let a ← decode? v
    let others ← decodeAll? rest
    return a :: others

instance {α : Type} [JsonForm α] : JsonForm (List α) where
  encode l := .array (l.map encode)
  decode? v := v.items?.bind decodeAll?

instance {α β : Type} [JsonForm α] [JsonForm β] : JsonForm (α × β) where
  encode p := .array [encode p.1, encode p.2]
  decode?
    | .array [v, w] => do return (← decode? v, ← decode? w)
    | _ => none

instance {α : Type} [JsonForm α] : JsonForm (Option α) where
  encode
    | some a => encode a
    | none => .null
  decode?
    | .null => some none
    | v => (decode? v).map some

/-! ## Fields -/

/-- A field that has to be there. -/
def required? {α : Type} [JsonForm α] (fields : JsonValue.Fields) (name : String) : Option α :=
  (fields.lookup name).bind decode?

/-- A field with a value that stands in when it is missing. -/
def defaulted? {α : Type} [JsonForm α] (fields : JsonValue.Fields) (name : String)
    (default : α) : Option α :=
  match fields.lookup name with
  | some v => decode? v
  | none => some default

/-- A field that may be missing. -/
def optional? {α : Type} [JsonForm α] (fields : JsonValue.Fields) (name : String) :
    Option (Option α) :=
  defaulted? fields name none

/-! ## Choices without content -/

/-- Reads an alternative that holds nothing, by a table of names. -/
def name? {α : Type} (table : List (String × α)) (v : JsonValue) : Option α :=
  match v.variant? with
  | some (name, .null) => table.lookup name
  | _ => none

end JsonForm

end CardDuel
