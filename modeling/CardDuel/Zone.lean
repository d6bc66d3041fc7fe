/-
CardDuel.Zone — the places where cards lie.

The catalog declares each zone once and every player gets one of each. A
zone is a pile: cards are listed from bottom to top, a card that arrives
goes on top, and a draw takes from the top.
-/
import CardDuel.Identifier

namespace CardDuel

/-- Whether the cards of a zone take part in the game or are stored. -/
inductive ZoneKind where
  | dynamic
  | static
  deriving DecidableEq, Repr

/-- Whether the opponent sees the cards of a zone. -/
inductive Visibility where
  | visible
  | hidden
  deriving DecidableEq, Repr

/-- A zone as the catalog declares it. -/
structure ZoneSpec where
  id : ZoneId
  name : String
  kind : ZoneKind := .static
  visibility : Visibility := .visible
  deriving DecidableEq, Repr

/-- Cards in a triggering zone answer to turns and to changes of stats:
the zone is dynamic and in plain sight. -/
def ZoneSpec.triggering (s : ZoneSpec) : Bool :=
  s.kind = .dynamic ∧ s.visibility = .visible

/-- A zone of a player. Cards are listed from bottom to top. -/
structure Zone where
  spec : ZoneSpec
  cards : List InstanceId
  deriving DecidableEq, Repr

namespace Zone

def ofSpec (spec : ZoneSpec) : Zone := ⟨spec, []⟩

def id (z : Zone) : ZoneId := z.spec.id

def contains (z : Zone) (card : InstanceId) : Bool := z.cards.contains card

/-- The place of a card, counted from the bottom. -/
def position? (z : Zone) (card : InstanceId) : Option Nat := z.cards.idxOf? card

/-- The top card. -/
def top? (z : Zone) : Option InstanceId := z.cards.getLast?

/-- Puts a card on top. -/
def push (z : Zone) (card : InstanceId) : Zone := { z with cards := z.cards ++ [card] }

/-- Takes a card out, wherever in the pile it lies. -/
def remove (z : Zone) (card : InstanceId) : Zone := { z with cards := z.cards.erase card }

/-- Takes the top card off; an empty zone stays empty. -/
def dropTop (z : Zone) : Zone := { z with cards := z.cards.dropLast }

end Zone

end CardDuel
