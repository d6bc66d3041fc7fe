/-
CardDuel.Duel.Watcher — reactions to a change of a stat.

A watcher is registered on a stat of a bearer and acts on each change of
that stat. One kind passes the change on to the triggered abilities of a
player's cards; the other checks whether a card is to be destroyed. The
watchers of a stat act in the order in which they were registered, and
one that is already registered there is not registered again.
-/
import CardDuel.Ability.Trigger
import CardDuel.Identifier

namespace CardDuel

/-- What happens when a watched stat changes. -/
inductive Watcher where
  /-- The change is put to the stat triggers on a player's cards, as a
  change of the given subject. -/
  | propagate (player : PlayerId) (subject : Subject)
  /-- A destroy condition, by its place in the card's type, is checked on
  a card of a player. -/
  | destroy (player : PlayerId) (card : InstanceId) (condition : Nat)
  deriving DecidableEq, Repr

/-- One registration. -/
structure Registration where
  bearer : Bearer
  stat : String
  watcher : Watcher
  deriving DecidableEq, Repr

/-- All registrations, in the order in which they were made. -/
structure WatchTable where
  entries : List Registration
  deriving DecidableEq, Repr

namespace WatchTable

def empty : WatchTable := ⟨[]⟩

/-- The watchers of a stat, in order of registration. -/
def on (t : WatchTable) (bearer : Bearer) (stat : String) : List Watcher :=
  (t.entries.filter fun e => e.bearer = bearer ∧ e.stat = stat).map (·.watcher)

/-- Registers a watcher, unless the same one is registered on the stat. -/
def register (t : WatchTable) (bearer : Bearer) (stat : String) (watcher : Watcher) : WatchTable :=
  if ⟨bearer, stat, watcher⟩ ∈ t.entries then t else ⟨t.entries ++ [⟨bearer, stat, watcher⟩]⟩

/-- The number of registrations. -/
def size (t : WatchTable) : Nat := t.entries.length

end WatchTable

end CardDuel
