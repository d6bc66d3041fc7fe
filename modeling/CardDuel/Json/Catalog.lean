/-
CardDuel.Json.Catalog — the JSON form of a catalog and its parts.
-/
import CardDuel.Catalog.Basic
import CardDuel.Json.Ability

namespace CardDuel.JsonForm

/-! ## Stats and zones -/

instance : JsonForm StatSpec where
  encode s :=
    .object [("name", encode s.name), ("base_value", encode s.base), ("min_value", encode s.low),
      ("max_value", encode s.high)]
  decode? v := do
    let f ← v.fields?
    return ⟨← required? f "name", ← required? f "base_value", ← required? f "min_value",
      ← required? f "max_value"⟩

def zoneKinds : List (String × ZoneKind) := [("Dynamic", .dynamic), ("Static", .static)]

instance : JsonForm ZoneKind where
  encode
    | .dynamic => .string "Dynamic"
    | .static => .string "Static"
  decode? := name? zoneKinds

def visibilities : List (String × Visibility) := [("Visible", .visible), ("Hidden", .hidden)]

instance : JsonForm Visibility where
  encode
    | .visible => .string "Visible"
    | .hidden => .string "Hidden"
  decode? := name? visibilities

instance : JsonForm ZoneSpec where
  encode z :=
    .object [("id", encode z.id), ("name", encode z.name), ("kind", encode z.kind),
      ("visibility", encode z.visibility)]
  decode? v := do
    let f ← v.fields?
    return ⟨← required? f "id", ← required? f "name", ← required? f "kind",
      ← required? f "visibility"⟩

/-! ## Cards -/

instance : JsonForm CardType where
  encode t :=
    .object [("id", encode t.id), ("name", encode t.name), ("stats", encode t.stats),
      ("destroy_conditions", encode t.destroyConditions),
      ("zone_after_trigger", encode t.zoneAfterTrigger)]
  decode? v := do
    let f ← v.fields?
    return ⟨← required? f "id", ← required? f "name", ← required? f "stats",
      ← defaulted? f "destroy_conditions" [], ← optional? f "zone_after_trigger"⟩

instance : JsonForm CardSpec where
  encode c :=
    .object [("id", encode c.id), ("name", encode c.name), ("card_type", encode c.cardType),
      ("stat_overrides", encode c.overrides), ("abilities", encode c.abilities)]
  decode? v := do
    let f ← v.fields?
    return ⟨← required? f "id", ← required? f "name", ← required? f "card_type",
      ← defaulted? f "stat_overrides" [], ← defaulted? f "abilities" []⟩

instance : JsonForm Registry where
  encode r := encode r.cards
  decode? v := (decode? v).map Registry.ofList

/-! ## The catalog -/

instance : JsonForm Rules where
  encode r :=
    .object [("deck_zone", encode r.deck), ("hand_zone", encode r.hand),
      ("board_zone", encode r.board), ("graveyard_zone", encode r.graveyard),
      ("life_stat", encode r.lifeStat), ("attack_stat", encode r.attackStat)]
  decode? v := do
    let f ← v.fields?
    return ⟨← required? f "deck_zone", ← required? f "hand_zone", ← required? f "board_zone",
      ← required? f "graveyard_zone", ← required? f "life_stat", ← required? f "attack_stat"⟩

instance : JsonForm Catalog where
  encode c :=
    .object [("zones", encode c.zones), ("player_stats", encode c.playerStats),
      ("card_types", encode c.cardTypes), ("cards", encode c.cards), ("rules", encode c.rules)]
  decode? v := do
    let f ← v.fields?
    return ⟨← required? f "zones", ← required? f "player_stats", ← required? f "card_types",
      ← required? f "cards", ← required? f "rules"⟩

end CardDuel.JsonForm
