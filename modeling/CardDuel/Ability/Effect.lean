/-
CardDuel.Ability.Effect — what an ability does to its targets.

An effect changes a stat of players, changes a stat of cards of one type
in one zone, or moves such cards to another zone. A change of a stat
names an amount, which may be random, and a number of turns: zero turns
write the base value, more attach a modifier.
-/
import CardDuel.Identifier
import CardDuel.Random.Generator
import CardDuel.Stat.Basic

namespace CardDuel

open CardDuel.Random (Generator)

/-! ## Amounts -/

/-- How much an effect changes a stat by. -/
inductive Amount where
  | constant (value : Points)
  /-- A random value from `low` up to but not including `high`. -/
  | random (low high : Points)
  deriving DecidableEq, Repr

/-- The amount of one application. -/
def Amount.roll : Amount → Generator → Points × Generator
  | .constant value, g => (value, g)
  | .random low high, g => g.range low high

/-! ## Writes to a stat -/

/-- The direction of a write. -/
inductive Adjustment where
  | increase
  | decrease
  | set
  deriving DecidableEq, Repr

/-- Writes an amount to a stat. Setting a stat has no duration. -/
def Adjustment.apply (a : Adjustment) (amount : Points) (turns : UInt32) (s : Stat) :
    Except Fault (StatChange × Stat) :=
  match a with
  | .set => s.setBase amount
  | .increase => if turns = 0 then s.addBase amount else s.addModifier amount turns
  | .decrease => if turns = 0 then s.addBase amount.neg else s.addModifier amount.neg turns

/-! ## Effects -/

/-- A change of a stat of each targeted player. -/
structure PlayerEffect where
  stat : String
  adjustment : Adjustment
  amount : Amount
  turns : UInt32 := 0
  deriving DecidableEq, Repr

/-- A change of a stat of each targeted card. -/
structure CardEffect where
  zone : ZoneId
  cardType : CardTypeId
  stat : String
  adjustment : Adjustment
  amount : Amount
  turns : UInt32 := 0
  deriving DecidableEq, Repr

/-- A move of each targeted card to another zone of its owner. -/
structure MoveEffect where
  zone : ZoneId
  cardType : CardTypeId
  destination : ZoneId
  deriving DecidableEq, Repr

/-- What an ability does. -/
inductive Effect where
  | player (effect : PlayerEffect)
  | card (effect : CardEffect)
  | move (effect : MoveEffect)
  deriving DecidableEq, Repr

namespace Effect

/-- The zone in which card targets are looked for. -/
def zone? : Effect → Option ZoneId
  | player _ => none
  | card e => some e.zone
  | move e => some e.zone

/-- The type that card targets are of. -/
def cardType? : Effect → Option CardTypeId
  | player _ => none
  | card e => some e.cardType
  | move e => some e.cardType

def targetsPlayers : Effect → Bool
  | player _ => true
  | _ => false

end Effect

end CardDuel
