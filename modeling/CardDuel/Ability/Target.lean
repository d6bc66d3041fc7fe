/-
CardDuel.Ability.Target — whom an effect is for.

A target says how players or cards are found, relative to the player who
acts, and which conditions they must meet. A selection holds the choices
that the caller makes along with an action.
-/
import CardDuel.Condition
import CardDuel.Identifier

namespace CardDuel

/-- How players are targeted. -/
inductive PlayerTarget where
  | acting
  | opponent
  /-- The acting player or the opponent, as the selection says. -/
  | chosen
  | random
  | all
  deriving DecidableEq, Repr

/-- Whose zones card targets are looked for in. -/
inductive Side where
  | acting
  | opponent
  | both
  deriving DecidableEq, Repr

/-- The players on a side, the acting player first. -/
def Side.players (acting opponent : PlayerId) : Side → List PlayerId
  | .acting => [acting]
  | .opponent => [opponent]
  | .both => [acting, opponent]

/-- How cards are targeted. -/
inductive CardTarget where
  /-- The card whose ability acts. -/
  | source
  /-- The card of the selection, on the given side. -/
  | chosen (side : Side)
  | random (side : Side)
  | all (side : Side)
  deriving DecidableEq, Repr

/-- Whom an effect is for. -/
inductive Target where
  | player (kind : PlayerTarget) (conditions : List Condition)
  | card (kind : CardTarget) (conditions : List Condition)
  deriving DecidableEq, Repr

namespace Target

/-- The conditions that every target meets. -/
def conditions : Target → List Condition
  | player _ cs => cs
  | card _ cs => cs

/-- The same target with one more condition. -/
def restrict (c : Condition) : Target → Target
  | player kind cs => player kind (cs ++ [c])
  | card kind cs => card kind (cs ++ [c])

def isCard : Target → Bool
  | player _ _ => false
  | card _ _ => true

end Target

/-- The choices of the caller. -/
structure Selection where
  /-- A zone to look for card targets in, in place of the effect's. -/
  zone : Option ZoneId := none
  card : Option InstanceId := none
  /-- Zero for the acting player, one for the opponent. -/
  player : Option UInt8 := none
  deriving DecidableEq, Repr

end CardDuel
