/-
CardDuel.Duel.Snapshot — what two copies of a duel must agree on.

A snapshot takes from a duel the player whose turn it is, the next free
card number, the generator, both seats and all cards in order of their
numbers. It leaves out the catalog and the registered watchers. Its bytes
let two copies of a duel be compared.
-/
import CardDuel.Binary.Record
import CardDuel.Duel.Basic

namespace CardDuel

/-- The part of a duel that two copies must agree on. -/
structure Snapshot where
  current : PlayerId
  nextInstance : InstanceId
  generator : Random.Generator
  seats : List Seat
  cards : List Card
  deriving DecidableEq, Repr

/-- The snapshot of a duel. -/
def Duel.snapshot (d : Duel) : Snapshot where
  current := d.current
  nextInstance := d.nextInstance
  generator := d.generator
  seats := d.seats
  cards := d.cards.mergeSort fun a b => a.id.number ≤ b.id.number

namespace Binary

instance : Binary Random.Generator where
  bytes g := bytes g.seed ++ littleEndian 16 g.position ++ littleEndian 8 g.calls

instance : Binary Snapshot where
  bytes s :=
    bytes s.current ++ bytes s.nextInstance ++ bytes s.generator ++ bytes s.seats ++ bytes s.cards

end Binary

/-- The bytes of the snapshot. -/
def Duel.snapshotBytes (d : Duel) : List UInt8 := bytes d.snapshot

end CardDuel
