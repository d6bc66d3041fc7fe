/-
CardDuel.Ability.Basic — the abilities printed on a card.

A triggered ability acts when its trigger occurs; an activated one acts
when a player calls on it by its place on the card.
-/
import CardDuel.Ability.Effect
import CardDuel.Ability.Target
import CardDuel.Ability.Trigger

namespace CardDuel

/-- An ability that acts by itself. The name is for display. -/
structure TriggeredAbility where
  name : Option String := none
  trigger : Trigger
  effect : Effect
  target : Target
  deriving DecidableEq, Repr

/-- An ability that a player calls on. -/
structure ActivatedAbility where
  effect : Effect
  target : Target
  deriving DecidableEq, Repr

inductive Ability where
  | triggered (ability : TriggeredAbility)
  | activated (ability : ActivatedAbility)
  deriving DecidableEq, Repr

namespace Ability

def effect : Ability → Effect
  | triggered a => a.effect
  | activated a => a.effect

def target : Ability → Target
  | triggered a => a.target
  | activated a => a.target

def trigger? : Ability → Option Trigger
  | triggered a => some a.trigger
  | activated _ => none

def triggered? : Ability → Option TriggeredAbility
  | triggered a => some a
  | activated _ => none

def activated? : Ability → Option ActivatedAbility
  | triggered _ => none
  | activated a => some a

end Ability

end CardDuel
