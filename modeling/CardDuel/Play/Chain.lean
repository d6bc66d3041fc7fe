/-
CardDuel.Play.Chain — what sets off what.

Calling up the abilities of a card can write stats and move cards; a
write is told to the watchers of the stat, and a move, a watcher and a
turn boundary call up abilities again. The computations here take the
one that calls up abilities (`Dispatch`) as an argument, so none of them
refers to itself; `dispatch` ties the knot. The scene counts the calls
that are under way, and a call that would exceed the depth limit is
refused, so every chain ends. `dispatch` recurses on a number of rounds;
one more than the limit is always enough.

  §1 Moves     — a move, the abilities it sets off, and the relocation
                 that a card type may ask for afterwards.
  §2 Walks     — one call for each card in the triggering zones of a
                 player.
  §3 Watchers  — telling the watchers of a stat about a write.
  §4 Abilities — an effect on its targets, and the abilities of a card.
  §5 The knot  — `dispatch`.
-/
import CardDuel.Play.Targeting
import CardDuel.Play.Writing

namespace CardDuel.Play

open Engine

/-- Calls up the triggered abilities of a card that are of a kind and
pass a test, for an acting player and with the caller's choices. Returns
how many of them had an effect. -/
abbrev Dispatch : Type :=
  PlayerId → InstanceId → TriggerKind → (Trigger → Bool) → Selection → Engine Nat

/-! ## §1 Moves -/

/-- Puts a card where its type wants it after the abilities of a move
have acted, if it still lies where the move put it. No ability acts. -/
def relocate (player : PlayerId) (card : InstanceId) (t : CardTypeId) (destination : ZoneId) :
    Engine Unit := do
  let d ← duel
  match (d.catalog.cardType? t).bind (·.zoneAfterTrigger) with
  | none => return ()
  | some after =>
    if after = destination then return ()
    else
      let z ← find (·.zone player destination)
      if z.contains card then
        let _ ← find (·.zone player after)
        modifyDuel (·.transfer player card destination after)
      else return ()

/-- Moves a card from one zone of a player to the top of another. Its
abilities for leaving act first, then those for entering. -/
def move (fire : Dispatch) (player : PlayerId) (card : InstanceId)
    (origin destination : ZoneId) (selection : Selection) : Engine Unit := do
  let c ← find (·.card card)
  let z ← find (·.zone player origin)
  if z.contains card then
    let _ ← find (·.zone player destination)
    modifyDuel (·.transfer player card origin destination)
    let _ ← fire player card .cardLeft (· = .cardLeft origin) selection
    let _ ← fire player card .cardEntered (· = .cardEntered destination) selection
    relocate player card c.cardType destination
  else refuse (.lookup (.cardNotInZone card origin))

/-! ## §2 Walks -/

/-- A walk so far: the cards called upon, the latest first, and how many
abilities had an effect. -/
structure Tour where
  visited : List InstanceId
  resolved : Nat
  deriving DecidableEq, Repr

/-- Calls upon a card if it still lies in the zone and the walk has not
called upon it yet. -/
def visitCard (fire : Dispatch) (player : PlayerId) (kind : TriggerKind)
    (accepts : Trigger → Bool) (zone : ZoneId) (tour : Tour) (card : InstanceId) :
    Engine Tour := do
  let z ← find (·.zone player zone)
  if z.contains card && !tour.visited.contains card then
    let n ← fire player card kind accepts {}
    return ⟨card :: tour.visited, tour.resolved + n⟩
  else return tour

/-- Calls upon the cards that a zone holds when the walk comes to it. -/
def visitZone (fire : Dispatch) (player : PlayerId) (kind : TriggerKind)
    (accepts : Trigger → Bool) (tour : Tour) (zone : ZoneId) : Engine Tour := do
  let z ← find (·.zone player zone)
  z.cards.foldlM (visitCard fire player kind accepts zone) tour

/-- Calls upon every card in the triggering zones of a player, zone by
zone. -/
def tour (fire : Dispatch) (player : PlayerId) (kind : TriggerKind)
    (accepts : Trigger → Bool) : Engine Tour := do
  let s ← find (·.seat player)
  s.triggeringZones.foldlM (visitZone fire player kind accepts) ⟨[], 0⟩

/-- Walks through the triggering zones of a player. Returns how many
abilities had an effect. -/
def walk (fire : Dispatch) (player : PlayerId) (kind : TriggerKind)
    (accepts : Trigger → Bool) : Engine Nat := do
  let t ← tour fire player kind accepts
  return t.resolved

/-! ## §3 Watchers -/

/-- Puts a change to the stat triggers on the cards of a player: first
those for a rise, then those for a fall, then those for a value. -/
def propagate (fire : Dispatch) (player : PlayerId) (subject : Subject) (stat : String)
    (change : StatChange) : Engine Unit := do
  let _ ← walk fire player .statIncreased (·.answers subject stat change)
  let _ ← walk fire player .statDecreased (·.answers subject stat change)
  let _ ← walk fire player .statReached (·.answers subject stat change)

/-- Moves a card from the board to the graveyard if a destroy condition
of its type holds. -/
def checkDestroy (fire : Dispatch) (player : PlayerId) (card : InstanceId) (index : Nat) :
    Engine Unit := do
  let c ← find (·.card card)
  let d ← duel
  match (d.catalog.cardType? c.cardType).bind (·.destroyConditions[index]?) with
  | none => return ()
  | some condition =>
    match ← sound (c.stats.value? condition.stat) with
    | none => return ()
    | some value =>
      if condition.holds value then
        let board ← find (·.zone player d.catalog.rules.board)
        if board.contains card then
          move fire player card d.catalog.rules.board d.catalog.rules.graveyard {}
        else return ()
      else return ()

/-- Runs one watcher of a stat that was written. -/
def runWatcher (fire : Dispatch) (stat : String) (change : StatChange) : Watcher → Engine Unit
  | .propagate player subject => propagate fire player subject stat change
  | .destroy player card index => checkDestroy fire player card index

/-- Tells the watchers of a stat about a write, in the order of their
registration. -/
def notify (fire : Dispatch) (bearer : Bearer) (stat : String) (change : StatChange) :
    Engine Unit := do
  note (.notified bearer stat change)
  let d ← duel
  (d.watchers.on bearer stat).forM (runWatcher fire stat change)

/-! ## §4 Abilities -/

/-- Writes a stat of one target and tells the watchers. Returns whether
there was anything to write, or `before` if there was not. -/
def applyAndNotify (fire : Dispatch) (bearer : Bearer) (stat : String)
    (write : Engine (Option StatChange)) (before : Bool) : Engine Bool := do
  match ← write with
  | some change =>
    notify fire bearer stat change
    return true
  | none => return before

/-- Moves one target, if it still lies in the zone it is to be moved
from. Returns whether it did, or `before` if it did not. -/
def moveIfThere (fire : Dispatch) (zone destination : ZoneId) (before : Bool)
    (card : InstanceId) : Engine Bool := do
  let d ← duel
  match d.location? card with
  | some (owner, current) =>
    if current = zone then
      move fire owner card zone destination {}
      return true
    else return before
  | none => return before

/-- Applies an effect to the targets that are found for it. Returns
whether any of them took it. An effect for which no target can be looked
up has none. -/
def resolve (fire : Dispatch) (acting : PlayerId) (source : InstanceId) (effect : Effect)
    (target : Target) (selection : Selection) : Engine Bool := do
  let d ← duel
  if available d acting effect target selection then
    match effect, target with
    | .player e, .player kind conditions =>
      match playerPool d acting selection kind with
      | .error _ => return false
      | .ok pool =>
        let targets ← pool.targets .player conditions
        targets.foldlM (fun applied player =>
          applyAndNotify fire (.player player) e.stat (applyPlayerEffect player e) applied) false
    | .card e, .card kind conditions =>
      match cardPool d acting source e.zone e.cardType selection kind with
      | .error _ => return false
      | .ok pool =>
        let targets ← pool.targets .card conditions
        targets.foldlM (fun applied card =>
          applyAndNotify fire (.card card) e.stat (applyCardEffect card e) applied) false
    | .move e, .card kind conditions =>
      match cardPool d acting source e.zone e.cardType selection kind with
      | .error _ => return false
      | .ok pool =>
        let targets ← pool.targets .card conditions
        targets.foldlM (moveIfThere fire (selection.zone.getD e.zone) e.destination) false
    | _, _ => return false
  else return false

/-- Lets the abilities of a list act in order and counts those that had
an effect. -/
def resolveAll (fire : Dispatch) (acting : PlayerId) (source : InstanceId)
    (selection : Selection) (abilities : List TriggeredAbility) : Engine Nat :=
  abilities.foldlM (fun resolved a => do
    if ← resolve fire acting source a.effect a.target selection then return resolved + 1
    else return resolved) 0

/-! ## §5 The knot -/

/-- Calls up abilities, unless as many calls as the limit allows are under
way already. -/
def dispatch (limit : Nat) : Nat → Dispatch
  | 0 => fun _ _ _ _ _ => sound (.error .outOfRounds)
  | rounds + 1 => fun acting card kind accepts selection => do
    let spec ← find (·.specOf card)
    let level ← depth
    if limit ≤ level then refuse (.depthLimit limit kind card)
    else
      nested do
        note (.dispatched level card kind)
        resolveAll (dispatch limit rounds) acting card selection
          (spec.triggered.filter fun a => a.trigger.kind = kind && accepts a.trigger)

end CardDuel.Play
