/-
CardDuel.Error — why an action or a catalog is refused.

Errors are causes; `message` gives the text of each. A lookup error means
that a named thing does not exist or is not where the caller says. It is
recoverable: the caller may go on with the duel. A catalog error says
which reference of a catalog is broken. The remaining errors belong to
single actions.
-/
import CardDuel.Ability.Trigger
import CardDuel.Identifier

namespace CardDuel

/-- A named thing does not exist, or is not where it is said to be. -/
inductive LookupError where
  | playerNotFound (player : PlayerId)
  | cardNotFound (card : InstanceId)
  | zoneNotFound (player : PlayerId) (zone : ZoneId)
  | cardNotInZone (card : InstanceId) (zone : ZoneId)
  | cardSpecNotFound (card : CardId)
  | cardTypeNotFound (cardType : CardTypeId)
  deriving DecidableEq, Repr

def LookupError.message : LookupError → String
  | playerNotFound player => s!"player not found: {player}"
  | cardNotFound card => s!"card not found: {card}"
  | zoneNotFound player zone => s!"{player} has no zone {zone}"
  | cardNotInZone card zone => s!"{card} is not in {zone}"
  | cardSpecNotFound card => s!"card definition not found: {card}"
  | cardTypeNotFound cardType => s!"card type not found: {cardType}"

/-- A catalog is inconsistent, or does not go with the players. -/
inductive CatalogError where
  | duplicateZone (name : String)
  | duplicateCard (card : CardId)
  /-- The zone that the rules give the named role is not declared. -/
  | missingRulesZone (role : String) (zone : ZoneId)
  | unknownZone (zone : ZoneId)
  | unknownCardType (cardType : CardTypeId)
  | unknownStat (name : String)
  /-- An ability has an effect on players and a target among cards, or
  the other way round. -/
  | targetMismatch (card : CardId) (ability : Nat)
  | invalidPlayers
  deriving DecidableEq, Repr

def CatalogError.message : CatalogError → String
  | duplicateZone name => s!"duplicate zone: {name}"
  | duplicateCard card => s!"duplicate card definition: {card}"
  | missingRulesZone role zone => s!"rules {role} zone {zone} is not defined"
  | unknownZone zone => s!"unknown zone: {zone}"
  | unknownCardType cardType => s!"unknown card type: {cardType}"
  | unknownStat name => s!"unknown stat: {name}"
  | targetMismatch card ability =>
    s!"ability {ability} of {card} pairs its effect with the wrong target family"
  | invalidPlayers => "a game needs exactly two players with distinct ids"

/-- Why an action is refused. -/
inductive DuelError where
  | lookup (cause : LookupError)
  | catalog (cause : CatalogError)
  /-- The card has `count` activated abilities, and the action asks for
  one beyond them. -/
  | abilityIndex (card : InstanceId) (index count : Nat)
  /-- A chain of abilities has reached the depth limit. -/
  | depthLimit (limit : Nat) (kind : TriggerKind) (card : InstanceId)
  | snapshot (reason : String)
  deriving DecidableEq, Repr

namespace DuelError

def message : DuelError → String
  | lookup cause => cause.message
  | catalog cause => cause.message
  | abilityIndex card index count =>
    s!"ability index {index} out of range for {card}: it has {count} activated abilities"
  | depthLimit limit kind card =>
    s!"resolution depth limit {limit} exceeded dispatching {kind.name} on {card}"
  | snapshot reason => s!"state snapshot failed: {reason}"

/-- The caller may go on with the duel. -/
def recoverable : DuelError → Bool
  | lookup _ => true
  | _ => false

end DuelError

end CardDuel
