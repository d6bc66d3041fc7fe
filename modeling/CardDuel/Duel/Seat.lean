/-
CardDuel.Duel.Seat — one player of a duel, and the cards in play.

A seat holds a player's zones, one for each zone of the catalog and in
its order, and the player's stats. A card in play knows its print, its
type, its owner and its stats; where it lies is known only to the zones.
-/
import CardDuel.Catalog.Basic
import CardDuel.Stat.Block

namespace CardDuel

/-! ## Seats -/

/-- A player with the zones and stats that are theirs. -/
structure Seat where
  id : PlayerId
  zones : List Zone
  stats : StatBlock
  deriving DecidableEq, Repr

namespace Seat

/-- A seat with empty zones and stats at their base values. -/
def ofSpecs (id : PlayerId) (zones : List ZoneSpec) (stats : List StatSpec) : Seat :=
  ⟨id, zones.map Zone.ofSpec, StatBlock.ofSpecs stats⟩

/-- The first zone of that number. -/
def zone? (s : Seat) (id : ZoneId) : Option Zone := s.zones.find? (·.id = id)

/-- The last zone of that name. -/
def namedZone? (s : Seat) (name : String) : Option Zone := s.zones.findRev? (·.spec.name = name)

/-- The first zone in which a card lies. -/
def zoneOf? (s : Seat) (card : InstanceId) : Option ZoneId :=
  (s.zones.find? (·.contains card)).map Zone.id

/-- The zones whose cards answer to turns and to changes of stats. -/
def triggeringZones (s : Seat) : List ZoneId :=
  (s.zones.filter (·.spec.triggering)).map Zone.id

/-- Changes the zones of that number. -/
def modifyZone (s : Seat) (id : ZoneId) (f : Zone → Zone) : Seat :=
  { s with zones := s.zones.map fun z => if z.id = id then f z else z }

end Seat

/-! ## Cards in play -/

/-- A card in play. -/
structure Card where
  id : InstanceId
  spec : CardId
  cardType : CardTypeId
  owner : PlayerId
  stats : StatBlock
  deriving DecidableEq, Repr

/-- A card of a print and type, at its starting values. -/
def Card.ofSpec (id : InstanceId) (spec : CardSpec) (t : CardType) (owner : PlayerId) : Card :=
  ⟨id, spec.id, spec.cardType, owner, StatBlock.ofSpecs (spec.stats t)⟩

end CardDuel
