/-
CardDuel.Json.Ability — the JSON forms of conditions, triggers, effects,
targets and abilities.
-/
import CardDuel.Ability.Basic
import CardDuel.Json.Form

namespace CardDuel.JsonForm

/-! ## Conditions -/

def comparisons : List (String × Comparison) :=
  [("Equal", .equal), ("NotEqual", .notEqual), ("Less", .less), ("LessOrEqual", .lessOrEqual),
   ("Greater", .greater), ("GreaterOrEqual", .greaterOrEqual)]

instance : JsonForm Comparison where
  encode
    | .equal => .string "Equal"
    | .notEqual => .string "NotEqual"
    | .less => .string "Less"
    | .lessOrEqual => .string "LessOrEqual"
    | .greater => .string "Greater"
    | .greaterOrEqual => .string "GreaterOrEqual"
  decode? := name? comparisons

instance : JsonForm Condition where
  encode c :=
    .object [("stat", encode c.stat), ("comparison", encode c.comparison),
      ("value", encode c.value)]
  decode? v := do
    let f ← v.fields?
    return ⟨← required? f "stat", ← required? f "comparison", ← required? f "value"⟩

/-! ## Triggers -/

def subjects : List (String × Subject) := [("Player", .player), ("Card", .card)]

instance : JsonForm Subject where
  encode
    | .player => .string "Player"
    | .card => .string "Card"
  decode? := name? subjects

def triggerKinds : List (String × TriggerKind) :=
  [TriggerKind.turnStarted, .turnEnded, .cardEntered, .cardLeft, .statIncreased, .statDecreased,
   .statReached].map fun kind => (kind.name, kind)

instance : JsonForm TriggerKind where
  encode kind := .string kind.name
  decode? := name? triggerKinds

instance : JsonForm Trigger where
  encode
    | .turnStarted => .string "TurnStarted"
    | .turnEnded => .string "TurnEnded"
    | .cardEntered zone => .variant "CardEnteredZone" (.object [("zone", encode zone)])
    | .cardLeft zone => .variant "CardLeftZone" (.object [("zone", encode zone)])
    | .statIncreased subject stat =>
      .variant "StatIncreased" (.object [("subject", encode subject), ("stat", encode stat)])
    | .statDecreased subject stat =>
      .variant "StatDecreased" (.object [("subject", encode subject), ("stat", encode stat)])
    | .statReached subject stat value =>
      .variant "StatReachedValue"
        (.object [("subject", encode subject), ("stat", encode stat), ("value", encode value)])
  decode? v :=
    match v.variant? with
    | some ("TurnStarted", .null) => some .turnStarted
    | some ("TurnEnded", .null) => some .turnEnded
    | some ("CardEnteredZone", .object f) => do return .cardEntered (← required? f "zone")
    | some ("CardLeftZone", .object f) => do return .cardLeft (← required? f "zone")
    | some ("StatIncreased", .object f) => do
      return .statIncreased (← required? f "subject") (← required? f "stat")
    | some ("StatDecreased", .object f) => do
      return .statDecreased (← required? f "subject") (← required? f "stat")
    | some ("StatReachedValue", .object f) => do
      return .statReached (← required? f "subject") (← required? f "stat") (← required? f "value")
    | _ => none

/-! ## Effects -/

instance : JsonForm Amount where
  encode
    | .constant value => .variant "Constant" (encode value)
    | .random low high => .variant "Random" (.object [("min", encode low), ("max", encode high)])
  decode? v :=
    match v.variant? with
    | some ("Constant", w) => (decode? w).map Amount.constant
    | some ("Random", .object f) => do return .random (← required? f "min") (← required? f "max")
    | _ => none

def adjustments : List (String × Adjustment) :=
  [("Increase", .increase), ("Decrease", .decrease), ("Set", .set)]

instance : JsonForm Adjustment where
  encode
    | .increase => .string "Increase"
    | .decrease => .string "Decrease"
    | .set => .string "Set"
  decode? := name? adjustments

instance : JsonForm PlayerEffect where
  encode e :=
    .object [("stat", encode e.stat), ("op", encode e.adjustment), ("value", encode e.amount),
      ("duration", encode e.turns)]
  decode? v := do
    let f ← v.fields?
    return ⟨← required? f "stat", ← required? f "op", ← required? f "value",
      ← defaulted? f "duration" 0⟩

instance : JsonForm CardEffect where
  encode e :=
    .object [("zone", encode e.zone), ("card_type", encode e.cardType), ("stat", encode e.stat),
      ("op", encode e.adjustment), ("value", encode e.amount), ("duration", encode e.turns)]
  decode? v := do
    let f ← v.fields?
    return ⟨← required? f "zone", ← required? f "card_type", ← required? f "stat",
      ← required? f "op", ← required? f "value", ← defaulted? f "duration" 0⟩

instance : JsonForm MoveEffect where
  encode e :=
    .object [("zone", encode e.zone), ("card_type", encode e.cardType),
      ("destination", encode e.destination)]
  decode? v := do
    let f ← v.fields?
    return ⟨← required? f "zone", ← required? f "card_type", ← required? f "destination"⟩

instance : JsonForm Effect where
  encode
    | .player e => .variant "Player" (encode e)
    | .card e => .variant "Card" (encode e)
    | .move e => .variant "MoveCard" (encode e)
  decode? v :=
    match v.variant? with
    | some ("Player", w) => (decode? w).map Effect.player
    | some ("Card", w) => (decode? w).map Effect.card
    | some ("MoveCard", w) => (decode? w).map Effect.move
    | _ => none

/-! ## Targets -/

def playerTargets : List (String × PlayerTarget) :=
  [("Self_", .acting), ("Opponent", .opponent), ("PlayerOrOpponent", .chosen),
   ("RandomPlayer", .random), ("AllPlayers", .all)]

instance : JsonForm PlayerTarget where
  encode
    | .acting => .string "Self_"
    | .opponent => .string "Opponent"
    | .chosen => .string "PlayerOrOpponent"
    | .random => .string "RandomPlayer"
    | .all => .string "AllPlayers"
  decode? := name? playerTargets

def cardTargets : List (String × CardTarget) :=
  [("ThisCard", .source),
   ("PlayerCard", .chosen .acting), ("OpponentCard", .chosen .opponent),
   ("TargetCard", .chosen .both),
   ("RandomPlayerCard", .random .acting), ("RandomOpponentCard", .random .opponent),
   ("RandomCard", .random .both),
   ("AllPlayerCards", .all .acting), ("AllOpponentCards", .all .opponent), ("AllCards", .all .both)]

instance : JsonForm CardTarget where
  encode
    | .source => .string "ThisCard"
    | .chosen .acting => .string "PlayerCard"
    | .chosen .opponent => .string "OpponentCard"
    | .chosen .both => .string "TargetCard"
    | .random .acting => .string "RandomPlayerCard"
    | .random .opponent => .string "RandomOpponentCard"
    | .random .both => .string "RandomCard"
    | .all .acting => .string "AllPlayerCards"
    | .all .opponent => .string "AllOpponentCards"
    | .all .both => .string "AllCards"
  decode? := name? cardTargets

instance : JsonForm Target where
  encode
    | .player kind conditions =>
      .variant "Player" (.object [("kind", encode kind), ("conditions", encode conditions)])
    | .card kind conditions =>
      .variant "Card" (.object [("kind", encode kind), ("conditions", encode conditions)])
  decode? v :=
    match v.variant? with
    | some ("Player", .object f) => do
      return .player (← required? f "kind") (← defaulted? f "conditions" [])
    | some ("Card", .object f) => do
      return .card (← required? f "kind") (← defaulted? f "conditions" [])
    | _ => none

instance : JsonForm Selection where
  encode s :=
    .object [("zone", encode s.zone), ("card", encode s.card), ("player_choice", encode s.player)]
  decode? v := do
    let f ← v.fields?
    return ⟨← optional? f "zone", ← optional? f "card", ← optional? f "player_choice"⟩

/-! ## Abilities -/

instance : JsonForm TriggeredAbility where
  encode a :=
    .object [("name", encode a.name), ("trigger", encode a.trigger), ("effect", encode a.effect),
      ("target", encode a.target)]
  decode? v := do
    let f ← v.fields?
    return ⟨← optional? f "name", ← required? f "trigger", ← required? f "effect",
      ← required? f "target"⟩

instance : JsonForm ActivatedAbility where
  encode a := .object [("effect", encode a.effect), ("target", encode a.target)]
  decode? v := do
    let f ← v.fields?
    return ⟨← required? f "effect", ← required? f "target"⟩

instance : JsonForm Ability where
  encode
    | .triggered a => .variant "Triggered" (encode a)
    | .activated a => .variant "Activated" (encode a)
  decode? v :=
    match v.variant? with
    | some ("Triggered", w) => (decode? w).map Ability.triggered
    | some ("Activated", w) => (decode? w).map Ability.activated
    | _ => none

end CardDuel.JsonForm
