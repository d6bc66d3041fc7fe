/-
CardDuel.Stat.Block — the stats of one player or card.

A block lists its stats in declaration order, and reaches a stat by its
name through its position in the list. Where a name is declared more
than once, the last stat of that name is the one reached; the others
still age and are still listed.
-/
import CardDuel.Stat.Basic

namespace CardDuel

/-- The stats of a player or card, in declaration order. -/
structure StatBlock where
  stats : List Stat
  deriving DecidableEq, Repr

namespace StatBlock

/-- Every declared stat at its base value. -/
def ofSpecs (specs : List StatSpec) : StatBlock := ⟨specs.map Stat.ofSpec⟩

/-- The names in declaration order. -/
def names (b : StatBlock) : List String := b.stats.map Stat.name

/-! ## Reading by name -/

/-- The position of the last stat of that name. -/
def lastIndex? (name : String) : List Stat → Option Nat
  | [] => none
  | s :: rest =>
    match lastIndex? name rest with
    | some i => some (i + 1)
    | none => if s.name = name then some 0 else none

/-- The stat reached by a name. -/
def get? (b : StatBlock) (name : String) : Option Stat :=
  (lastIndex? name b.stats).bind (b.stats[·]?)

/-- The effective value of the stat reached by a name. -/
def value? (b : StatBlock) (name : String) : Except Fault (Option Points) :=
  match b.get? name with
  | some s => s.effective.map some
  | none => .ok none

/-! ## Writing -/

/-- Puts a stat in the place of the one reached by `name`. -/
def put (b : StatBlock) (name : String) (s : Stat) : StatBlock :=
  match lastIndex? name b.stats with
  | some i => ⟨b.stats.set i s⟩
  | none => b

/-- Ages the stats of a list in order; returns the changes by name, and
the stats one turn later. -/
def tickAll : List Stat → Except Fault (List (String × StatChange) × List Stat)
  | [] => .ok ([], [])
  | s :: rest => do
    let (change, s') ← s.tick
    let (changes, rest') ← tickAll rest
    match change with
    | some c => return ((s.name, c) :: changes, s' :: rest')
    | none => return (changes, s' :: rest')

/-- Ages every stat of the block. -/
def tick (b : StatBlock) : Except Fault (List (String × StatChange) × StatBlock) := do
  let (changes, stats) ← tickAll b.stats
  return (changes, ⟨stats⟩)

end StatBlock

end CardDuel
