/-
CardDuel.Catalog.Card — card types and printed cards.

A card type declares the stats of its cards, when they are destroyed, and
where they go once the abilities of a move have acted. A printed card is
of one type, may override the base values of its stats, and carries
abilities in order.
-/
import CardDuel.Ability.Basic
import CardDuel.Condition

namespace CardDuel

/-- A card type of the catalog. -/
structure CardType where
  id : CardTypeId
  name : String
  stats : List StatSpec
  destroyConditions : List Condition := []
  /-- Where a card goes after the abilities of a move have acted. -/
  zoneAfterTrigger : Option ZoneId := none
  deriving DecidableEq, Repr

def CardType.hasStat (t : CardType) (name : String) : Bool := t.stats.any (·.name = name)

/-- A printed card. -/
structure CardSpec where
  id : CardId
  name : String
  cardType : CardTypeId
  overrides : List (String × Points) := []
  abilities : List Ability := []
  deriving DecidableEq, Repr

namespace CardSpec

/-- The base value that the card states for a stat. -/
def override? (c : CardSpec) (name : String) : Option Points :=
  (c.overrides.find? (·.1 = name)).map (·.2)

/-- States a base value, in the place of any stated before. -/
def withOverride (c : CardSpec) (name : String) (base : Points) : CardSpec :=
  { c with overrides := c.overrides.filter (·.1 ≠ name) ++ [(name, base)] }

/-- Adds an ability after the others. -/
def withAbility (c : CardSpec) (a : Ability) : CardSpec :=
  { c with abilities := c.abilities ++ [a] }

/-- The stats of a card of this print: those of the type, with the base
values that the card states. -/
def stats (c : CardSpec) (t : CardType) : List StatSpec :=
  t.stats.map fun s => { s with base := (c.override? s.name).getD s.base }

def triggered (c : CardSpec) : List TriggeredAbility := c.abilities.filterMap Ability.triggered?

def activated (c : CardSpec) : List ActivatedAbility := c.abilities.filterMap Ability.activated?

end CardSpec

end CardDuel
