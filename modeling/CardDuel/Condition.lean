/-
CardDuel.Condition — tests on the effective value of a stat.

A condition names a stat, a comparison and a value. It filters the
targets of an ability, and it is what a card type states to say when a
card of the type is destroyed.
-/
import CardDuel.Points

namespace CardDuel

/-- A way to compare two quantities. -/
inductive Comparison where
  | equal
  | notEqual
  | less
  | lessOrEqual
  | greater
  | greaterOrEqual
  deriving DecidableEq, Repr

/-- Compares an actual quantity with a stated one. -/
def Comparison.holds (c : Comparison) (actual stated : Points) : Bool :=
  match c with
  | .equal => actual = stated
  | .notEqual => actual ≠ stated
  | .less => actual < stated
  | .lessOrEqual => actual ≤ stated
  | .greater => stated < actual
  | .greaterOrEqual => stated ≤ actual

/-- A test on a named stat. -/
structure Condition where
  stat : String
  comparison : Comparison
  value : Points
  deriving DecidableEq, Repr

/-- Tests the effective value of the stat. -/
def Condition.holds (c : Condition) (actual : Points) : Bool :=
  c.comparison.holds actual c.value

end CardDuel
