/-
CardDuel.Catalog.Starter — a small catalog to start from.

Four zones, a life and a mana stat for each player, creatures that die
without life and spells that go to the graveyard once they have acted,
and one plain card of each type. Starting values can be set and further
cards added.
-/
import CardDuel.Catalog.Basic

namespace CardDuel.Starter

/-! ## Zones, types and cards -/

def deck : ZoneId := ⟨0⟩

def hand : ZoneId := ⟨1⟩

def board : ZoneId := ⟨2⟩

def graveyard : ZoneId := ⟨3⟩

def zones : List ZoneSpec :=
  [{ id := deck, name := "Deck", visibility := .hidden },
   { id := hand, name := "Hand", visibility := .hidden },
   { id := board, name := "Board", kind := .dynamic },
   { id := graveyard, name := "Graveyard" }]

/-- A creature has life and attack, and is destroyed when it has no life
left. -/
def creature : CardType where
  id := ⟨0⟩
  name := "Creature"
  stats := [{ name := "Life", base := 1 }, { name := "Attack", base := 1 }]
  destroyConditions := [⟨"Life", .lessOrEqual, 0⟩]

/-- A spell goes to the graveyard once it has acted. -/
def spell : CardType where
  id := ⟨1⟩
  name := "Spell"
  stats := []
  zoneAfterTrigger := some graveyard

/-- A creature without abilities. -/
def grunt : CardSpec where
  id := ⟨1⟩
  name := "Grunt"
  cardType := creature.id

/-- A spell that takes one life from the opponent when it is played. -/
def spark : CardSpec where
  id := ⟨2⟩
  name := "Spark"
  cardType := spell.id
  abilities :=
    [.triggered
      { trigger := .cardEntered board
        effect := .player { stat := "Life", adjustment := .decrease, amount := .constant 1 }
        target := .player .opponent [] }]

/-! ## The catalog -/

/-- What can be set about the starter catalog. -/
structure Options where
  life : Points := 20
  mana : Points := 0
  extraCards : List CardSpec := []
  deriving Repr

def playerStats (options : Options) : List StatSpec :=
  [{ name := "Life", base := options.life, low := 0, high := 99 },
   { name := "Mana", base := options.mana }]

/-- The starter catalog with the given options. -/
def catalog (options : Options := {}) : Catalog where
  zones := zones
  playerStats := playerStats options
  cardTypes := [creature, spell]
  cards := Registry.ofList ([grunt, spark] ++ options.extraCards)
  rules := { deck, hand, board, graveyard }

end CardDuel.Starter
