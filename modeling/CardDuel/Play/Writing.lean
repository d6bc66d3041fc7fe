/-
CardDuel.Play.Writing — writes to the stats of players and cards.

All writes to stats during a duel are made here. Each is entered in the
journal and returned as a change; telling the watchers of the change is
left to the caller.
-/
import CardDuel.Ability.Effect
import CardDuel.Play.Engine

namespace CardDuel.Play

open Engine

/-- Writes one stat of a bearer. A bearer without the stat is left as it
is. -/
def writeStat (bearer : Bearer) (stat : String)
    (write : Stat → Except Fault (StatChange × Stat)) : Engine (Option StatChange) := do
  let block ← find (·.stats bearer)
  match block.get? stat with
  | none => return none
  | some s =>
    let (change, s') ← sound (write s)
    modifyDuel (·.putStats bearer (block.put stat s'))
    note (.wrote bearer stat change)
    return some change

/-- Applies an adjustment to a stat of a bearer. The amount is rolled
only if the bearer has the stat. -/
def adjustStat (bearer : Bearer) (stat : String) (adjustment : Adjustment) (amount : Amount)
    (turns : UInt32) : Engine (Option StatChange) := do
  let block ← find (·.stats bearer)
  if (block.get? stat).isSome then
    let rolled ← draw amount.roll
    writeStat bearer stat (adjustment.apply rolled turns)
  else return none

def applyPlayerEffect (player : PlayerId) (e : PlayerEffect) : Engine (Option StatChange) :=
  adjustStat (.player player) e.stat e.adjustment e.amount e.turns

def applyCardEffect (card : InstanceId) (e : CardEffect) : Engine (Option StatChange) :=
  adjustStat (.card card) e.stat e.adjustment e.amount e.turns

/-- Takes an amount off the base value of a stat. -/
def damage (bearer : Bearer) (stat : String) (amount : Points) : Engine (Option StatChange) :=
  writeStat bearer stat (·.addBase amount.neg)

/-- Ages the modifiers of every stat of a bearer by one turn. Returns the
stats that lost a modifier, with their changes. -/
def ageStats (bearer : Bearer) : Engine (List (String × StatChange)) := do
  let block ← find (·.stats bearer)
  let (changes, block') ← sound block.tick
  modifyDuel (·.putStats bearer block')
  changes.forM fun (stat, change) => note (.wrote bearer stat change)
  return changes

end CardDuel.Play
