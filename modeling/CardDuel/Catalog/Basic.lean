/-
CardDuel.Catalog.Basic — everything that is fixed before a duel.

A catalog declares the zones and stats of each player, the card types,
the printed cards, and the rules: which zones drawing and combat use, and
which stats stand for life and attack. A duel reads its catalog and never
changes it.
-/
import CardDuel.Catalog.Registry
import CardDuel.Zone

namespace CardDuel

/-- The zones and stats that drawing and combat use. -/
structure Rules where
  deck : ZoneId
  hand : ZoneId
  board : ZoneId
  graveyard : ZoneId
  lifeStat : String := "Life"
  attackStat : String := "Attack"
  deriving DecidableEq, Repr

/-- Everything that is fixed before a duel. -/
structure Catalog where
  zones : List ZoneSpec
  playerStats : List StatSpec
  cardTypes : List CardType
  cards : Registry
  rules : Rules
  deriving DecidableEq, Repr

namespace Catalog

/-- A catalog that declares nothing yet. -/
def ofRules (rules : Rules) : Catalog := ⟨[], [], [], Registry.empty, rules⟩

def withZone (c : Catalog) (z : ZoneSpec) : Catalog := { c with zones := c.zones ++ [z] }

def withPlayerStat (c : Catalog) (s : StatSpec) : Catalog :=
  { c with playerStats := c.playerStats ++ [s] }

def withCardType (c : Catalog) (t : CardType) : Catalog :=
  { c with cardTypes := c.cardTypes ++ [t] }

def withCard (c : Catalog) (card : CardSpec) : Catalog :=
  { c with cards := c.cards.register card }

/-! ## Look-ups -/

def zone? (c : Catalog) (id : ZoneId) : Option ZoneSpec := c.zones.find? (·.id = id)

def cardType? (c : Catalog) (id : CardTypeId) : Option CardType :=
  c.cardTypes.find? (·.id = id)

def card? (c : Catalog) (id : CardId) : Option CardSpec := c.cards.get? id

def hasPlayerStat (c : Catalog) (name : String) : Bool := c.playerStats.any (·.name = name)

end Catalog

end CardDuel
