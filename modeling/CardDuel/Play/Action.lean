/-
CardDuel.Play.Action — everything a caller can do to a duel.

An action runs with a limit on the depth of ability chains, and yields a
reply or is refused. A `Game` is a duel between two actions together with
its depth limit and its count of calls under way; `Game.record` runs an
action and keeps the journal of what happened, `Game.perform` goes on to
the next action. `Duel.record` and `Duel.perform` do the same with no
call under way, and `Duel.perform` keeps the duel alone.
-/
import CardDuel.Play.Combat
import CardDuel.Play.Turn

namespace CardDuel

/-! ## Actions -/

/-- Something a caller can do to a duel. -/
inductive Action where
  | startTurn
  | endTurn
  | setCurrent (player : PlayerId)
  | move (player : PlayerId) (card : InstanceId) (origin destination : ZoneId)
      (selection : Selection)
  | draw (player : PlayerId) (count : Nat)
  | create (owner : PlayerId) (card : CardId) (zone : ZoneId)
  | attackPlayer (attacker : PlayerId) (card : InstanceId)
  | attackCard (attacker : PlayerId) (card target : InstanceId)
  /-- Calls on an activated ability, by its place on the card. -/
  | activate (player : PlayerId) (card : InstanceId) (index : Nat) (selection : Selection)
  /-- Calls up the triggered abilities of a card that are of a kind and
  pass a test. -/
  | dispatch (player : PlayerId) (card : InstanceId) (kind : TriggerKind)
      (accepts : Trigger → Bool) (selection : Selection)
  /-- Puts every change of a player's stats to the stat triggers. -/
  | watchPlayer (player : PlayerId)
  /-- Puts every change of a card's stats to the stat triggers. -/
  | watchCard (card : InstanceId)
  /-- Checks the destroy conditions of a card on every change of a stat
  they name. -/
  | watchDestroy (card : InstanceId)

/-- What an action yields. -/
inductive Reply where
  | nothing
  | count (n : Nat)
  | cards (ids : List InstanceId)
  | card (id : InstanceId)
  | resolved (any : Bool)
  deriving DecidableEq, Repr

namespace Play

open Engine

/-- The depth limit of a duel that sets none. -/
def defaultLimit : Nat := 64

/-! ## Single actions -/

def setCurrent (player : PlayerId) : Engine Unit := do
  let _ ← find (·.seat player)
  modifyDuel fun d => { d with current := player }

/-- Moves up to `count` cards, one by one, from the top of the deck to
the top of the hand. Ends early when the deck is empty. -/
def drawLoop (player : PlayerId) : Nat → Engine (List InstanceId)
  | 0 => return []
  | count + 1 => do
    let d ← duel
    let deck ← find (·.zone player d.catalog.rules.deck)
    match deck.top? with
    | none => return []
    | some card =>
      modifyDuel (·.modifyZone player d.catalog.rules.deck (·.dropTop))
      modifyDuel (·.modifyZone player d.catalog.rules.hand (·.push card))
      let others ← drawLoop player count
      return card :: others

/-- The largest number of cards for which a list can be made: the number
of a card takes four bytes, and a list has at most `2 ^ 63 - 1` of them. -/
def drawCapacity : Nat := 9223372036854775807 / 4

/-- Makes a list with room for all the cards to be drawn. -/
def makeRoom (count : Nat) : Except Fault Unit :=
  if count ≤ drawCapacity then .ok () else .error .capacityOverflow

/-- Draws cards; no ability acts. Room is made for as many cards as are
asked for, even if the deck has fewer. Returns the cards in the order
drawn. -/
def drawCards (player : PlayerId) (count : Nat) : Engine (List InstanceId) := do
  let d ← duel
  let _ ← find (·.zone player d.catalog.rules.deck)
  let _ ← find (·.zone player d.catalog.rules.hand)
  sound (makeRoom count)
  drawLoop player count

/-- Creates a card on top of a zone; no ability acts. -/
def create (owner : PlayerId) (card : CardId) (zone : ZoneId) : Engine InstanceId := do
  let (id, d) ← find (·.create owner card zone)
  modifyDuel fun _ => d
  return id

def activate (fire : Dispatch) (player : PlayerId) (card : InstanceId) (index : Nat)
    (selection : Selection) : Engine Bool := do
  let _ ← find (·.seat player)
  let spec ← find (·.specOf card)
  match spec.activated[index]? with
  | some a => resolve fire player card a.effect a.target selection
  | none => refuse (.abilityIndex card index spec.activated.length)

/-! ## Registrations -/

/-- Registers a watcher on each stat of a list. -/
def registerAll (t : WatchTable) (bearer : Bearer) (watcher : Watcher) (stats : List String) :
    WatchTable :=
  stats.foldl (fun t stat => t.register bearer stat watcher) t

def watchPlayer (player : PlayerId) : Engine Unit := do
  let s ← find (·.seat player)
  modifyDuel fun d =>
    { d with
      watchers :=
        registerAll d.watchers (.player player) (.propagate player .player) s.stats.names }

def watchCard (card : InstanceId) : Engine Unit := do
  let c ← find (·.card card)
  modifyDuel fun d =>
    { d with
      watchers := registerAll d.watchers (.card card) (.propagate c.owner .card) c.stats.names }

def watchDestroy (card : InstanceId) : Engine Unit := do
  let c ← find (·.card card)
  let t ← find fun d =>
    match d.catalog.cardType? c.cardType with
    | some t => .ok t
    | none => .error (.cardTypeNotFound c.cardType)
  modifyDuel fun d =>
    { d with
      watchers := t.destroyConditions.zipIdx.foldl (fun table (condition, index) =>
        table.register (.card card) condition.stat (.destroy c.owner card index)) d.watchers }

end Play

/-! ## Running actions -/

open Play in
/-- The computation of an action, with a way to call up abilities. -/
def Action.run (fire : Dispatch) : Action → Engine Reply
  | startTurn => Reply.count <$> Play.startTurn fire
  | endTurn => Reply.count <$> Play.endTurn fire
  | setCurrent player => (fun _ => .nothing) <$> Play.setCurrent player
  | move player card origin destination selection =>
    (fun _ => .nothing) <$> Play.move fire player card origin destination selection
  | draw player count => Reply.cards <$> drawCards player count
  | create owner card zone => Reply.card <$> Play.create owner card zone
  | attackPlayer attacker card => (fun _ => .nothing) <$> Play.attackPlayer fire attacker card
  | attackCard attacker card target =>
    (fun _ => .nothing) <$> Play.attackCard fire attacker card target
  | activate player card index selection =>
    Reply.resolved <$> Play.activate fire player card index selection
  | dispatch player card kind accepts selection =>
    Reply.count <$> fire player card kind accepts selection
  | watchPlayer player => (fun _ => .nothing) <$> Play.watchPlayer player
  | watchCard card => (fun _ => .nothing) <$> Play.watchCard card
  | watchDestroy card => (fun _ => .nothing) <$> Play.watchDestroy card

/-- A duel in play. -/
structure Game where
  duel : Duel
  /-- How deep chains of abilities may get. -/
  limit : Nat := Play.defaultLimit
  /-- How many calls on abilities are under way. -/
  depth : Nat := 0
  deriving DecidableEq, Repr

namespace Game

/-- Runs an action, and keeps the journal. -/
def record (a : Action) (g : Game) : Outcome Scene Reply :=
  a.run (Play.dispatch g.limit (g.limit + 1)) ⟨g.duel, [], g.depth⟩

/-- Runs an action. -/
def perform (a : Action) (g : Game) : Outcome Game Reply :=
  (g.record a).mapState fun s => { g with duel := s.duel, depth := s.depth }

end Game

namespace Duel

/-- Runs an action with a depth limit, and keeps the journal. -/
def record (limit : Nat) (a : Action) (d : Duel) : Outcome Scene Reply :=
  Game.record a { duel := d, limit }

/-- Runs an action with a depth limit. -/
def perform (limit : Nat) (a : Action) (d : Duel) : Outcome Duel Reply :=
  (d.record limit a).mapState Scene.duel

end Duel

end CardDuel
