/-
CardDuel.Identifier — the names by which a duel refers to its things.

Players, printed cards, card types and zones are numbered by the catalog
and by the caller; a card in play is numbered by the duel that created
it, from one upwards. Each kind of number is a type of its own, so one
cannot stand for another, and each has the text in which messages show
it. A `Bearer` is whatever carries stats: a player or a card in play.
-/

namespace CardDuel

/-- A player of a duel. -/
structure PlayerId where
  number : UInt32
  deriving DecidableEq, Repr

/-- A printed card of the catalog. -/
structure CardId where
  number : UInt32
  deriving DecidableEq, Repr

/-- A card type of the catalog. -/
structure CardTypeId where
  number : UInt32
  deriving DecidableEq, Repr

/-- A zone of the catalog; each player has one zone of that number. -/
structure ZoneId where
  number : UInt16
  deriving DecidableEq, Repr

/-- A card in play. Numbers are given out in order of creation and never
used twice. -/
structure InstanceId where
  number : Nat
  deriving DecidableEq, Repr

/-- The number of the first card that a duel creates. -/
def InstanceId.first : InstanceId := ⟨1⟩

/-- The number given out after this one. -/
def InstanceId.next (id : InstanceId) : InstanceId := ⟨id.number + 1⟩

/-- What carries stats. -/
inductive Bearer where
  | player (id : PlayerId)
  | card (id : InstanceId)
  deriving DecidableEq, Repr

instance : LE PlayerId := ⟨fun a b => a.number ≤ b.number⟩

instance (a b : PlayerId) : Decidable (a ≤ b) :=
  inferInstanceAs (Decidable (a.number ≤ b.number))

/-! ## Texts -/

instance : ToString PlayerId := ⟨fun id => s!"Player {id.number}"⟩

instance : ToString CardId := ⟨fun id => s!"Card({id.number})"⟩

instance : ToString CardTypeId := ⟨fun id => s!"CardType({id.number})"⟩

instance : ToString ZoneId := ⟨fun id => s!"Zone({id.number})"⟩

instance : ToString InstanceId := ⟨fun id => s!"Instance({id.number})"⟩

instance : ToString Bearer where
  toString
    | .player id => toString id
    | .card id => toString id

end CardDuel
