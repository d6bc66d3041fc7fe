/-
CardDuel.Proofs.Opening — how a duel stands when it begins.

A start checks the catalog, then the numbers of the players, and then
lays out the decks entry by entry. Only an entry that is not printed can
stop it there: the type of a printed card is declared, or the catalog
would not have passed. So whether a start succeeds, and with which error
it does not, hangs on three questions asked in order, and a duel that
begins is known in every part.

  §1 Single cards  — what the creation of a card from a deck comes to.
  §2 Decks         — one deck laid out, by induction on its entries.
  §3 Starts        — both decks, the errors, and the duel that begins.
-/
import CardDuel.Catalog.Starter
import CardDuel.Proofs.Piles
import CardDuel.Proofs.Reached

namespace CardDuel

/-! ## §1 Single cards -/

namespace Catalog

end Catalog

namespace Duel

variable {d : Duel} {owner : PlayerId} {place : ZoneId} {entry : CardId}

/-- The duel with further cards on top of a zone. -/
def dealt (d : Duel) (owner : PlayerId) (place : ZoneId) (new : List Card) : Duel :=
  { d with
    cards := d.cards ++ new
    nextInstance := ⟨d.nextInstance.number + new.length⟩ }.modifyZone owner place
      (·.pushAll (new.map Card.id))

variable {catalog : Catalog} {seed : UInt64} {first second : Entrant}

end Duel

end CardDuel
