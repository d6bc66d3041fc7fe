/-
CardDuel.Ability.Trigger — what makes a triggered ability act.

A trigger is a turn boundary, a move of the card itself into or out of a
zone, or a change of a stat. Abilities are called up by the kind of
their trigger and then chosen by a test on the trigger; `answers` is the
test for a change of a stat.
-/
import CardDuel.Identifier
import CardDuel.Stat.Basic

namespace CardDuel

/-- Whose stat a stat trigger watches. -/
inductive Subject where
  | player
  | card
  deriving DecidableEq, Repr

/-- What makes a triggered ability act. -/
inductive Trigger where
  | turnStarted
  | turnEnded
  | cardEntered (zone : ZoneId)
  | cardLeft (zone : ZoneId)
  | statIncreased (subject : Subject) (stat : String)
  | statDecreased (subject : Subject) (stat : String)
  | statReached (subject : Subject) (stat : String) (value : Points)
  deriving DecidableEq, Repr

/-- A trigger without its particulars. -/
inductive TriggerKind where
  | turnStarted
  | turnEnded
  | cardEntered
  | cardLeft
  | statIncreased
  | statDecreased
  | statReached
  deriving DecidableEq, Repr

/-- The name of a kind, as messages and documents write it. -/
def TriggerKind.name : TriggerKind → String
  | .turnStarted => "TurnStarted"
  | .turnEnded => "TurnEnded"
  | .cardEntered => "CardEnteredZone"
  | .cardLeft => "CardLeftZone"
  | .statIncreased => "StatIncreased"
  | .statDecreased => "StatDecreased"
  | .statReached => "StatReachedValue"

namespace Trigger

def kind : Trigger → TriggerKind
  | turnStarted => .turnStarted
  | turnEnded => .turnEnded
  | cardEntered _ => .cardEntered
  | cardLeft _ => .cardLeft
  | statIncreased _ _ => .statIncreased
  | statDecreased _ _ => .statDecreased
  | statReached _ _ _ => .statReached

/-- The stat that a stat trigger watches. -/
def watched? : Trigger → Option (Subject × String)
  | statIncreased subject stat => some (subject, stat)
  | statDecreased subject stat => some (subject, stat)
  | statReached subject stat _ => some (subject, stat)
  | _ => none

/-- A change of a stat meets a stat trigger. A trigger for a value asks
for the new effective value only. -/
def answers (subject : Subject) (stat : String) (change : StatChange) : Trigger → Bool
  | statIncreased subject' stat' => subject' = subject ∧ stat' = stat ∧ change.increased
  | statDecreased subject' stat' => subject' = subject ∧ stat' = stat ∧ change.decreased
  | statReached subject' stat' value =>
    subject' = subject ∧ stat' = stat ∧ change.new = value
  | _ => false

end Trigger

end CardDuel
