/-
CardDuel.Play.Query — the parts of an action by themselves.

A caller can ask for the targets that an effect would have, apply an
effect to one player or card, strike a blow, and age one bearer, without
the action that these belong to. No watcher is told and no ability acts,
but the duel may change: a random target moves the generator on, and a
write is a write.
-/
import CardDuel.Play.Targeting
import CardDuel.Play.Writing

namespace CardDuel

/-- Something a caller can ask of a duel apart from actions. -/
inductive Query where
  | playerTargets (acting : PlayerId) (target : Target) (selection : Selection)
  | cardTargets (acting : PlayerId) (source : InstanceId) (target : Target) (zone : ZoneId)
      (t : CardTypeId) (selection : Selection)
  | applyToPlayer (player : PlayerId) (effect : PlayerEffect)
  | applyToCard (card : InstanceId) (effect : CardEffect)
  | damage (bearer : Bearer) (stat : String) (amount : Points)
  | age (bearer : Bearer)

/-- What a query yields. -/
inductive Answer where
  | players (ids : List PlayerId)
  | cards (ids : List InstanceId)
  | change (change : Option StatChange)
  | changes (changes : List (String × StatChange))
  deriving DecidableEq, Repr

/-- The computation of a query. -/
def Query.run : Query → Engine Answer
  | playerTargets acting target selection =>
    Answer.players <$> Play.playerTargets acting target selection
  | cardTargets acting source target zone t selection =>
    Answer.cards <$> Play.cardTargets acting source target zone t selection
  | applyToPlayer player effect => Answer.change <$> Play.applyPlayerEffect player effect
  | applyToCard card effect => Answer.change <$> Play.applyCardEffect card effect
  | damage bearer stat amount => Answer.change <$> Play.damage bearer stat amount
  | age bearer => Answer.changes <$> Play.ageStats bearer

/-- Asks a query of a duel. -/
def Duel.ask (q : Query) (d : Duel) : Outcome Duel Answer :=
  (q.run.runOn d).mapState Scene.duel

end CardDuel
