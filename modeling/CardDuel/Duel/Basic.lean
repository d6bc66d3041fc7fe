/-
CardDuel.Duel.Basic — a duel at one moment.

A duel is its catalog, two seats, the player whose turn it is, all cards
created so far, the generator and the registered watchers. Look-ups name
what is missing; updates change one seat, card or zone and leave the rest
alone.
-/
import CardDuel.Duel.Seat
import CardDuel.Duel.Watcher
import CardDuel.Error
import CardDuel.Random.Generator

namespace CardDuel

/-- A duel at one moment. Cards are listed in order of creation. -/
structure Duel where
  catalog : Catalog
  first : Seat
  second : Seat
  current : PlayerId
  cards : List Card
  nextInstance : InstanceId
  generator : Random.Generator
  watchers : WatchTable
  deriving DecidableEq, Repr

namespace Duel

/-! ## Players -/

/-- Both seats, in order. -/
def seats (d : Duel) : List Seat := [d.first, d.second]

def seat (d : Duel) (id : PlayerId) : Except LookupError Seat :=
  if d.first.id = id then .ok d.first
  else if d.second.id = id then .ok d.second
  else .error (.playerNotFound id)

/-- The other player. -/
def opponent (d : Duel) (id : PlayerId) : Except LookupError PlayerId :=
  if d.first.id = id then .ok d.second.id
  else if d.second.id = id then .ok d.first.id
  else .error (.playerNotFound id)

/-- Changes the seat of a player. -/
def modifySeat (d : Duel) (id : PlayerId) (f : Seat → Seat) : Duel :=
  if d.first.id = id then { d with first := f d.first }
  else if d.second.id = id then { d with second := f d.second }
  else d

/-! ## Zones -/

def zone (d : Duel) (player : PlayerId) (id : ZoneId) : Except LookupError Zone := do
  let s ← d.seat player
  match s.zone? id with
  | some z => .ok z
  | none => .error (.zoneNotFound player id)

def modifyZone (d : Duel) (player : PlayerId) (id : ZoneId) (f : Zone → Zone) : Duel :=
  d.modifySeat player (·.modifyZone id f)

/-- Takes a card out of one zone of a player and puts it on top of
another, or on top of the same one. -/
def transfer (d : Duel) (player : PlayerId) (card : InstanceId) (origin destination : ZoneId) :
    Duel :=
  (d.modifyZone player origin (·.remove card)).modifyZone player destination (·.push card)

/-! ## Cards -/

def card (d : Duel) (id : InstanceId) : Except LookupError Card :=
  match d.cards.find? (·.id = id) with
  | some c => .ok c
  | none => .error (.cardNotFound id)

/-- Changes a card. -/
def modifyCard (d : Duel) (id : InstanceId) (f : Card → Card) : Duel :=
  { d with cards := d.cards.map fun c => if c.id = id then f c else c }

/-- A card is of a type. -/
def isOfType (d : Duel) (t : CardTypeId) (id : InstanceId) : Bool :=
  match d.card id with
  | .ok c => c.cardType = t
  | .error _ => false

/-- Where a card lies: its owner, and the owner's zone that holds it. -/
def location? (d : Duel) (id : InstanceId) : Option (PlayerId × ZoneId) :=
  match d.card id with
  | .ok c =>
    match d.seat c.owner with
    | .ok s => (s.zoneOf? id).map fun z => (c.owner, z)
    | .error _ => none
  | .error _ => none

/-- The print of a card in play. -/
def specOf (d : Duel) (id : InstanceId) : Except LookupError CardSpec := do
  let c ← d.card id
  match d.catalog.card? c.spec with
  | some spec => .ok spec
  | none => .error (.cardSpecNotFound c.spec)

/-- Puts a new card of a print on top of one of its owner's zones. No
ability acts. -/
def create (d : Duel) (owner : PlayerId) (card : CardId) (zone : ZoneId) :
    Except LookupError (InstanceId × Duel) := do
  let spec ← match d.catalog.card? card with
    | some spec => .ok spec
    | none => .error (.cardSpecNotFound card)
  let cardType ← match d.catalog.cardType? spec.cardType with
    | some t => .ok t
    | none => .error (.cardTypeNotFound spec.cardType)
  let _ ← d.zone owner zone
  let id := d.nextInstance
  let created :=
    { d with
      cards := d.cards ++ [Card.ofSpec id spec cardType owner]
      nextInstance := id.next }
  return (id, created.modifyZone owner zone (·.push id))

/-! ## Stats -/

def stats (d : Duel) : Bearer → Except LookupError StatBlock
  | .player id => (d.seat id).map Seat.stats
  | .card id => (d.card id).map Card.stats

/-- Puts a block in the place of a bearer's stats. -/
def putStats (d : Duel) (bearer : Bearer) (block : StatBlock) : Duel :=
  match bearer with
  | .player id => d.modifySeat id fun s => { s with stats := block }
  | .card id => d.modifyCard id fun c => { c with stats := block }

/-- The effective value of a stat; `none` if there is no such bearer or
no such stat. -/
def statValue? (d : Duel) (bearer : Bearer) (stat : String) : Except Fault (Option Points) :=
  match d.stats bearer with
  | .ok block => block.value? stat
  | .error _ => .ok none

end Duel

end CardDuel
