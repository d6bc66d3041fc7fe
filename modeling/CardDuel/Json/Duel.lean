/-
CardDuel.Json.Duel — the JSON forms of what lives in a duel.

Stats, cards and zones of a duel are written only: they come into being
in a duel and are not read from documents.
-/
import CardDuel.Duel.Basic
import CardDuel.Json.Catalog

namespace CardDuel.JsonForm

instance : JsonForm StatChange where
  encode c := .object [("old", encode c.old), ("new", encode c.new)]
  decode? v := do
    let f ← v.fields?
    return ⟨← required? f "old", ← required? f "new"⟩

instance : JsonForm Modifier where
  encode m := .object [("value", encode m.value), ("duration", encode m.turns)]
  decode? v := do
    let f ← v.fields?
    return ⟨← required? f "value", ← required? f "duration"⟩

instance : JsonForm Watcher where
  encode
    | .propagate player subject =>
      .variant "Propagate" (.object [("player", encode player), ("subject", encode subject)])
    | .destroy player card condition =>
      .variant "Destroy"
        (.object [("player", encode player), ("card", encode card),
          ("condition", .int condition)])
  decode? v :=
    match v.variant? with
    | some ("Propagate", .object f) => do
      return .propagate (← required? f "player") (← required? f "subject")
    | some ("Destroy", .object f) => do
      let condition : UInt64 ← required? f "condition"
      return .destroy (← required? f "player") (← required? f "card") condition.toNat
    | _ => none

/-! ## Written only -/

def encodeStat (s : Stat) : JsonValue :=
  .object [("name", encode s.name), ("base_value", encode s.base), ("min_value", encode s.low),
    ("max_value", encode s.high), ("modifiers", encode s.modifiers)]

def encodeBlock (b : StatBlock) : JsonValue := .array (b.stats.map encodeStat)

def encodeCard (c : Card) : JsonValue :=
  .object [("instance_id", encode c.id), ("card_id", encode c.spec),
    ("card_type", encode c.cardType), ("owner", encode c.owner), ("stats", encodeBlock c.stats)]

def encodeZone (z : Zone) : JsonValue :=
  .object [("definition", encode z.spec), ("cards", encode z.cards)]

end CardDuel.JsonForm
