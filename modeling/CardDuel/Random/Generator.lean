/-
CardDuel.Random.Generator — the random generator of a duel.

A generator is a place in the key stream of its seed, and counts the
draws made so far. A draw from a range takes two words of the stream as
one number, scales it to the length of the range and, when the number
falls into the incomplete last share, takes the next two; so each value
of the range has the same number of accepted words. One draw counts
once, however many words it takes, and an empty range takes none.
-/
import CardDuel.Points
import CardDuel.Random.KeyStream

namespace CardDuel.Random

open KeyStream (period pair)

/-- A random generator: a seed, a position in its key stream and the
number of draws made. -/
structure Generator where
  seed : UInt64
  position : Nat
  calls : Nat
  deriving DecidableEq, Repr

namespace Generator

/-- The generator at the start of the stream of `seed`. -/
def ofSeed (seed : UInt64) : Generator := ⟨seed, 0, 0⟩

/-- The generator at a saved place; positions are taken modulo the period
of the stream. -/
def resume (seed : UInt64) (position calls : Nat) : Generator :=
  ⟨seed, position % period, calls⟩

/-! ## Uniform draws -/

/-- The greatest low half of a product that a draw over `span` values
accepts: `span` with its highest bit moved up to the highest of 64 bits,
less one. -/
def threshold (span : Nat) : Nat := (span <<< (63 - Nat.log2 span)) - 1

/-- Looks at up to `tries` pairs of words from `position` on for one that
a draw over `span` values accepts. Returns the value drawn and the
position after its words. When none is accepted the answer is zero: the
stream is periodic, so further words would only repeat those seen. -/
def search (seed : UInt64) (span : Nat) : Nat → Nat → Nat × Nat
  | 0, position => (0, position)
  | tries + 1, position =>
    let product := pair seed position * span
    if product % UInt64.size ≤ threshold span then
      (product / UInt64.size, (position + 2) % period)
    else search seed span tries ((position + 2) % period)

/-- A value below `span`, and the generator after the draw. The number of
tries covers the whole stream. -/
def below (span : Nat) (g : Generator) : Nat × Generator :=
  let (value, position) := search g.seed span (period / 2) g.position
  (value, ⟨g.seed, position, g.calls + 1⟩)

/-- A value from `low` up to but not including `high`. An empty range
gives `low` and draws nothing. -/
def range (low high : Points) (g : Generator) : Points × Generator :=
  if high ≤ low then (low, g)
  else
    let (offset, g) := g.below (high.val - low.val).toNat
    (Points.clamp (low.val + offset), g)

/-- A value from zero up to but not including `high`. -/
def next (high : Points) (g : Generator) : Points × Generator := g.range 0 high

/-- An index into a list of the given length, or `none` for the empty
list, which draws nothing. A length beyond the greatest quantity has no
range to draw from; it gives the first index and draws nothing. -/
def index? (length : Nat) (g : Generator) : Option Nat × Generator :=
  if length = 0 then (none, g)
  else if length ≤ Points.greatest.val then
    let (value, g) := g.next (Points.clamp length)
    (some value.val.toNat, g)
  else (some 0, g)

/-- One member of a list, or `none` for the empty list. -/
def pick? {α : Type} (members : List α) (g : Generator) : Option α × Generator :=
  let (index, g) := g.index? members.length
  (index.bind (members[·]?), g)

end Generator

end CardDuel.Random
