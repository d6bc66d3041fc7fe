/-
CardDuel.Duel.Setup — how a duel begins.

A duel begins on a catalog that passes validation, with two players of
different numbers. Each has empty zones and stats at their base values;
then the decks are laid out card by card, the first player's first, and
the first player has the turn.
-/
import CardDuel.Catalog.Validation
import CardDuel.Duel.Basic

namespace CardDuel

/-- A player and the prints of their deck, bottom card first. -/
structure Entrant where
  id : PlayerId
  deck : List CardId
  deriving DecidableEq, Repr

namespace Duel

/-- Puts a card of each print of a list on top of a zone, in order. -/
def createAll (d : Duel) (owner : PlayerId) (zone : ZoneId) :
    List CardId → Except LookupError Duel
  | [] => .ok d
  | card :: rest => do
    let (_, d) ← d.create owner card zone
    d.createAll owner zone rest

/-- The duel before any card is laid out. -/
def blank (catalog : Catalog) (seed : UInt64) (first second : PlayerId) : Duel where
  catalog := catalog
  first := Seat.ofSpecs first catalog.zones catalog.playerStats
  second := Seat.ofSpecs second catalog.zones catalog.playerStats
  current := first
  cards := []
  nextInstance := InstanceId.first
  generator := Random.Generator.ofSeed seed
  watchers := WatchTable.empty

/-- Lays out both decks. -/
def deal (d : Duel) (first second : Entrant) : Except LookupError Duel := do
  let d ← d.createAll first.id d.catalog.rules.deck first.deck
  d.createAll second.id d.catalog.rules.deck second.deck

/-- Begins a duel. -/
def start (catalog : Catalog) (seed : UInt64) (first second : Entrant) :
    Except DuelError Duel := do
  match catalog.validate with
  | .ok () => .ok ()
  | .error e => .error (.catalog e)
  if first.id = second.id then .error (.catalog .invalidPlayers)
  match (blank catalog seed first.id second.id).deal first second with
  | .ok d => .ok d
  | .error e => .error (.lookup e)

end Duel

end CardDuel
