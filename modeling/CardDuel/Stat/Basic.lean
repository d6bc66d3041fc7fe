/-
CardDuel.Stat.Basic — one stat of a player or card.

A stat has a base value, bounds, and modifiers that last for a number of
turns. What the game reads is its effective value: base and modifiers
summed up in order, each sum limited to the range of `Points`, and the
total limited to the bounds. A stat never acts by itself: each operation
that writes it returns the effective value before and after, and the
duel passes that change on.

A stat whose bounds are in the wrong order can be declared, but has no
effective value; reading it is a fault, which ends the duel.
-/
import CardDuel.Points

namespace CardDuel

/-! ## Declared stats -/

/-- A stat as the catalog declares it. Without bounds of its own a stat
has the whole range. -/
structure StatSpec where
  name : String
  base : Points
  low : Points := Points.least
  high : Points := Points.greatest
  deriving DecidableEq, Repr

/-! ## Faults -/

/-- Why a computation has no result at all. A well-formed duel has no
faults, unless more cards are to be drawn than a list can have. -/
inductive Fault where
  /-- The lower bound of a stat lies above its upper bound. -/
  | boundsOutOfOrder
  /-- A modifier with no turns left was asked to age. -/
  | spentModifier
  /-- A recursion was given fewer rounds than it takes. -/
  | outOfRounds
  /-- A list was to be made for more cards than a list can have. -/
  | capacityOverflow
  deriving DecidableEq, Repr

/-! ## Stats -/

/-- A temporary addition to a stat. -/
structure Modifier where
  value : Points
  turns : UInt32
  deriving DecidableEq, Repr

/-- A modifier one turn later. -/
def Modifier.age (m : Modifier) : Except Fault Modifier :=
  if m.turns = 0 then .error .spentModifier else .ok { m with turns := m.turns - 1 }

/-- The effective value of a stat before and after a write. -/
structure StatChange where
  old : Points
  new : Points
  deriving DecidableEq, Repr

/-- A write raised the effective value. -/
def StatChange.increased (c : StatChange) : Bool := c.old < c.new

/-- A write lowered the effective value. -/
def StatChange.decreased (c : StatChange) : Bool := c.new < c.old

/-- A stat of a player or card. Modifiers are listed oldest first. -/
structure Stat where
  name : String
  base : Points
  low : Points
  high : Points
  modifiers : List Modifier
  deriving DecidableEq, Repr

namespace Stat

/-- A declared stat at its base value. -/
def ofSpec (spec : StatSpec) : Stat := ⟨spec.name, spec.base, spec.low, spec.high, []⟩

/-- Base and modifiers summed up, oldest modifier first. -/
def total (s : Stat) : Points := s.modifiers.foldl (fun sum m => sum.add m.value) s.base

/-- The value that the game reads: the total limited to the bounds. -/
def effective (s : Stat) : Except Fault Points :=
  match s.total.within? s.low s.high with
  | some value => .ok value
  | none => .error .boundsOutOfOrder

/-! ## Writes -/

/-- Puts `after` in the place of `before` and reports the change. -/
def replace (before after : Stat) : Except Fault (StatChange × Stat) := do
  let old ← before.effective
  let new ← after.effective
  return (⟨old, new⟩, after)

/-- Overwrites the base value. -/
def setBase (s : Stat) (value : Points) : Except Fault (StatChange × Stat) :=
  s.replace { s with base := value }

/-- Adds to the base value. -/
def addBase (s : Stat) (delta : Points) : Except Fault (StatChange × Stat) :=
  s.setBase (s.base.add delta)

/-- Attaches a modifier for a number of turns, at least one. -/
def addModifier (s : Stat) (value : Points) (turns : UInt32) :
    Except Fault (StatChange × Stat) :=
  s.replace { s with modifiers := s.modifiers ++ [⟨value, max turns 1⟩] }

/-! ## Ageing -/

/-- Ages every modifier by one turn and drops those without turns left.
The change is reported only if one was dropped. -/
def tick (s : Stat) : Except Fault (Option StatChange × Stat) :=
  if s.modifiers.isEmpty then .ok (none, s)
  else do
    let old ← s.effective
    let aged ← s.modifiers.mapM Modifier.age
    let after := { s with modifiers := aged.filter (0 < ·.turns) }
    if after.modifiers.length = s.modifiers.length then return (none, after)
    let new ← after.effective
    return (some ⟨old, new⟩, after)

end Stat

end CardDuel
