/-
CardDuel.Play.Combat — cards that fight.

A card on the board takes its attack off the life of the other player, or
fights a card on the other player's board. In the second case both
attacks are read before either life is written, and both lives are
written before any watcher is told.
-/
import CardDuel.Play.Chain

namespace CardDuel.Play

open Engine

/-- The effective attack of a card; a card without the stat has none. -/
def attackOf (card : InstanceId) : Engine Points := do
  let c ← find (·.card card)
  let d ← duel
  let value ← sound (c.stats.value? d.catalog.rules.attackStat)
  return value.getD 0

/-- Refuses to go on unless a card lies on a player's board. -/
def requireOnBoard (player : PlayerId) (card : InstanceId) : Engine Unit := do
  let d ← duel
  let board ← find (·.zone player d.catalog.rules.board)
  if board.contains card then return ()
  else refuse (.lookup (.cardNotInZone card d.catalog.rules.board))

/-- Tells the watchers of the life of a bearer about a blow, if it met a
life stat. -/
def notifyBlow (fire : Dispatch) (bearer : Bearer) (life : String) :
    Option StatChange → Engine Unit
  | some change => notify fire bearer life change
  | none => return ()

/-- A card of a player attacks the other player. -/
def attackPlayer (fire : Dispatch) (attacker : PlayerId) (card : InstanceId) : Engine Unit := do
  let d ← duel
  let defender ← find (·.opponent attacker)
  requireOnBoard attacker card
  let attack ← attackOf card
  let blow ← damage (.player defender) d.catalog.rules.lifeStat attack
  notifyBlow fire (.player defender) d.catalog.rules.lifeStat blow

/-- A card of a player attacks a card of the other player, which strikes
back. The watchers of the attacked card are told first. -/
def attackCard (fire : Dispatch) (attacker : PlayerId) (card target : InstanceId) :
    Engine Unit := do
  let d ← duel
  let defender ← find (·.opponent attacker)
  requireOnBoard attacker card
  requireOnBoard defender target
  let attack ← attackOf card
  let answer ← attackOf target
  let blow ← damage (.card target) d.catalog.rules.lifeStat attack
  let counterblow ← damage (.card card) d.catalog.rules.lifeStat answer
  notifyBlow fire (.card target) d.catalog.rules.lifeStat blow
  notifyBlow fire (.card card) d.catalog.rules.lifeStat counterblow

end CardDuel.Play
