/-
CardDuel.Catalog.Registry — the printed cards of a catalog.

Cards are kept in the order of registration, and reached by id through an
index of their places. An id may be registered again; the later card is
kept and listed, but the id goes on naming the first. `firstDuplicate?`
finds such an id, so that a catalog can be refused for it.

Only the list is written out. `ofList` makes the index again from it, and
as an index that is in order hangs on the list alone, a registry is known
by its cards.
-/
import CardDuel.Catalog.Card

namespace CardDuel

/-- Printed cards in order of registration, with an index by id. -/
structure Registry where
  cards : List CardSpec
  /-- The place of the card that an id names. -/
  index : CardId → Option Nat
  /-- An id names the card registered first under it. -/
  index_eq : ∀ id, index id = cards.findIdx? (·.id = id)

namespace Registry

theorem ext {r s : Registry} (h : r.cards = s.cards) : r = s := by
  cases r with
  | mk cards index hindex =>
    cases s with
    | mk cards' index' hindex' =>
      obtain rfl : cards = cards' := h
      obtain rfl : index = index' := funext fun id => (hindex id).trans (hindex' id).symm
      rfl

instance : DecidableEq Registry :=
  fun r s => decidable_of_iff (r.cards = s.cards) ⟨ext, congrArg cards⟩

instance : Repr Registry := ⟨fun r => reprPrec r.cards⟩

def empty : Registry := ⟨[], fun _ => none, fun _ => rfl⟩

/-- Adds a card after the others. The index takes its id up if it does not
have it yet. -/
def register (r : Registry) (c : CardSpec) : Registry where
  cards := r.cards ++ [c]
  index id := if id = c.id then some ((r.index id).getD r.cards.length) else r.index id
  index_eq id := by
    rw [List.findIdx?_append, ← r.index_eq]
    by_cases h : id = c.id
    · cases r.index id <;> simp [h]
    · cases r.index id <;> simp [h, Ne.symm h]

/-- Registers the cards of a list in order. -/
def ofList (cards : List CardSpec) : Registry := cards.foldl register empty

/-- The card at the place that the index has for an id. -/
def get? (r : Registry) (id : CardId) : Option CardSpec := (r.index id).bind (r.cards[·]?)

def contains (r : Registry) (id : CardId) : Bool := (r.index id).isSome

/-- The id of the first card that stands at another place than its id is
indexed with. -/
def firstDuplicate? (r : Registry) : Option CardId :=
  (r.cards.zipIdx.find? fun (c, place) => r.index c.id ≠ some place).map (·.1.id)

end Registry

end CardDuel
