/-
CardDuel.Binary.Record — the layouts of the records of a duel.

The order of fields and the numbers of alternatives are fixed here, once
for each type.
-/
import CardDuel.Ability.Effect
import CardDuel.Ability.Trigger
import CardDuel.Binary.Layout
import CardDuel.Duel.Seat

namespace CardDuel.Binary

/-! ## Stats -/

instance : Binary Modifier := ⟨fun m => bytes m.value ++ bytes m.turns⟩

instance : Binary Stat where
  bytes s := bytes s.name ++ bytes s.base ++ bytes s.low ++ bytes s.high ++ bytes s.modifiers

instance : Binary StatBlock := ⟨fun b => bytes b.stats⟩

/-! ## Zones, seats and cards -/

instance : Binary ZoneKind where
  bytes
    | .dynamic => alternative 0
    | .static => alternative 1

instance : Binary Visibility where
  bytes
    | .visible => alternative 0
    | .hidden => alternative 1

instance : Binary ZoneSpec where
  bytes s := bytes s.id ++ bytes s.name ++ bytes s.kind ++ bytes s.visibility

instance : Binary Zone := ⟨fun z => bytes z.spec ++ bytes z.cards⟩

instance : Binary Seat := ⟨fun s => bytes s.id ++ bytes s.zones ++ bytes s.stats⟩

instance : Binary Card where
  bytes c := bytes c.id ++ bytes c.spec ++ bytes c.cardType ++ bytes c.owner ++ bytes c.stats

/-! ## Triggers and effects -/

instance : Binary Subject where
  bytes
    | .player => alternative 0
    | .card => alternative 1

instance : Binary Trigger where
  bytes
    | .turnStarted => alternative 0
    | .turnEnded => alternative 1
    | .cardEntered zone => alternative 2 ++ bytes zone
    | .cardLeft zone => alternative 3 ++ bytes zone
    | .statIncreased subject stat => alternative 4 ++ bytes subject ++ bytes stat
    | .statDecreased subject stat => alternative 5 ++ bytes subject ++ bytes stat
    | .statReached subject stat value =>
      alternative 6 ++ bytes subject ++ bytes stat ++ bytes value

instance : Binary Amount where
  bytes
    | .constant value => alternative 0 ++ bytes value
    | .random low high => alternative 1 ++ bytes low ++ bytes high

instance : Binary Adjustment where
  bytes
    | .increase => alternative 0
    | .decrease => alternative 1
    | .set => alternative 2

instance : Binary PlayerEffect where
  bytes e := bytes e.stat ++ bytes e.adjustment ++ bytes e.amount ++ bytes e.turns

instance : Binary CardEffect where
  bytes e :=
    bytes e.zone ++ bytes e.cardType ++ bytes e.stat ++ bytes e.adjustment ++ bytes e.amount
      ++ bytes e.turns

instance : Binary MoveEffect where
  bytes e := bytes e.zone ++ bytes e.cardType ++ bytes e.destination

instance : Binary Effect where
  bytes
    | .player e => alternative 0 ++ bytes e
    | .card e => alternative 1 ++ bytes e
    | .move e => alternative 2 ++ bytes e

end CardDuel.Binary
