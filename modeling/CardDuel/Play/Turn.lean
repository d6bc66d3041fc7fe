/-
CardDuel.Play.Turn — turn boundaries.

The start and the end of a turn call upon the cards in the triggering
zones of the player whose turn it is. The end of a turn then ages the
modifiers of that player and of all cards in the player's zones.
-/
import CardDuel.Play.Chain

namespace CardDuel.Play

open Engine

/-- The start of a turn. Returns how many abilities had an effect. -/
def startTurn (fire : Dispatch) : Engine Nat := do
  let d ← duel
  walk fire d.current .turnStarted fun _ => true

/-- Ages the stats of one bearer, then tells the watchers of each stat
that lost a modifier. -/
def expireBearer (fire : Dispatch) (bearer : Bearer) : Engine Unit := do
  let changes ← ageStats bearer
  changes.forM fun (stat, change) => notify fire bearer stat change

/-- Ages the stats of a player, then those of the cards that lie in the
player's zones when the ageing begins, zone by zone. -/
def expire (fire : Dispatch) (player : PlayerId) : Engine Unit := do
  let s ← find (·.seat player)
  let bearers := .player player :: (s.zones.flatMap (·.cards)).map .card
  bearers.forM (expireBearer fire)

/-- The end of a turn. Returns how many abilities had an effect. -/
def endTurn (fire : Dispatch) : Engine Nat := do
  let d ← duel
  let resolved ← walk fire d.current .turnEnded fun _ => true
  expire fire d.current
  return resolved

end CardDuel.Play
