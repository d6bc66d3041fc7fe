/-
CardDuel.Points — the quantities that stats, conditions and effects
count in.

A quantity is an integer of the signed 64-bit range; the range is part of
the type. Arithmetic is exact and then limited to the range, so no sum
and no negation can leave it: `add` and `neg` are `clamp` after the
integer operation. `within` limits a quantity to the bounds of a stat and
has no answer for bounds in the wrong order.
-/

namespace CardDuel

/-! ## The type -/

/-- A quantity of points: an integer from -2^63 to 2^63 - 1. -/
structure Points where
  val : Int
  least_le : -9223372036854775808 ≤ val := by decide
  le_greatest : val ≤ 9223372036854775807 := by decide
  deriving DecidableEq, Repr

namespace Points

theorem ext {a b : Points} (h : a.val = b.val) : a = b := by
  cases a; cases b; simp_all

theorem ext_iff {a b : Points} : a = b ↔ a.val = b.val :=
  ⟨fun h => h ▸ rfl, ext⟩

/-- The least quantity, -2^63. -/
def least : Points := { val := -9223372036854775808 }

/-- The greatest quantity, 2^63 - 1. -/
def greatest : Points := { val := 9223372036854775807 }

/-- The quantity nearest to an integer. -/
def clamp (n : Int) : Points :=
  if h : n < -9223372036854775808 then least
  else if h' : 9223372036854775807 < n then greatest
  else { val := n, least_le := by omega, le_greatest := by omega }

/-- The quantity equal to an integer, if the range has it. -/
def ofInt? (n : Int) : Option Points :=
  if h : -9223372036854775808 ≤ n ∧ n ≤ 9223372036854775807 then
    some { val := n, least_le := h.1, le_greatest := h.2 }
  else none

instance (n : Nat) : OfNat Points n := ⟨clamp n⟩

instance : Inhabited Points := ⟨0⟩

instance : LE Points := ⟨fun a b => a.val ≤ b.val⟩

instance : LT Points := ⟨fun a b => a.val < b.val⟩

instance (a b : Points) : Decidable (a ≤ b) := inferInstanceAs (Decidable (a.val ≤ b.val))

instance (a b : Points) : Decidable (a < b) := inferInstanceAs (Decidable (a.val < b.val))

/-! ## Arithmetic -/

/-- The sum, limited to the range. -/
def add (a b : Points) : Points := clamp (a.val + b.val)

/-- The negation, limited to the range: the least quantity has the
greatest as its negation. -/
def neg (a : Points) : Points := clamp (-a.val)

/-- The quantity between `low` and `high` that is nearest to `a`, or
`none` when `high` lies below `low`. -/
def within? (a low high : Points) : Option Points :=
  if low ≤ high then
    some (if a < low then low else if high < a then high else a)
  else none

/-! ## Values of the operations -/

theorem le_iff {a b : Points} : a ≤ b ↔ a.val ≤ b.val := Iff.rfl

theorem lt_iff {a b : Points} : a < b ↔ a.val < b.val := Iff.rfl

/-- Clamping is the identity on the range and the nearer end outside. -/
theorem val_clamp (n : Int) :
    (clamp n).val = max (-9223372036854775808) (min n 9223372036854775807) := by
  unfold clamp
  split
  · simp only [least]; omega
  · split
    · simp only [greatest]; omega
    · simp only; omega

theorem clamp_val (a : Points) : clamp a.val = a := by
  have := a.least_le; have := a.le_greatest
  apply ext; rw [val_clamp]; omega

theorem val_least : least.val = -9223372036854775808 := rfl

theorem val_greatest : greatest.val = 9223372036854775807 := rfl

/-- The integer is a quantity. -/
def Holds (n : Int) : Prop := least.val ≤ n ∧ n ≤ greatest.val

theorem holds_val (a : Points) : Holds a.val := ⟨a.least_le, a.le_greatest⟩

theorem val_clamp_of_holds {n : Int} (h : Holds n) : (clamp n).val = n := by
  obtain ⟨hleast, hgreatest⟩ := h
  rw [val_least] at hleast
  rw [val_greatest] at hgreatest
  rw [val_clamp]; omega

theorem val_add (a b : Points) :
    (a.add b).val = max (-9223372036854775808) (min (a.val + b.val) 9223372036854775807) :=
  val_clamp _

theorem val_neg (a : Points) : a.neg.val = min (-a.val) 9223372036854775807 := by
  have := a.least_le; have := a.le_greatest
  unfold neg; rw [val_clamp]; omega

theorem ofInt?_val (a : Points) : ofInt? a.val = some a := by
  have := a.least_le; have := a.le_greatest
  unfold ofInt?; rw [dif_pos (by omega)]

theorem within?_eq_some_iff {a low high b : Points} :
    a.within? low high = some b ↔
      low ≤ high ∧ b.val = max low.val (min a.val high.val) := by
  unfold within?
  simp only [le_iff, lt_iff]
  split
  · rename_i h
    simp only [Option.some.injEq, h, true_and]
    constructor
    · intro hb; subst hb
      split
      · omega
      · split <;> omega
    · intro hb; apply ext
      rw [hb]
      split
      · omega
      · split <;> omega
  · rename_i h
    simp only [reduceCtorEq, false_iff, not_and]
    intro hle; exact absurd hle h

theorem within?_eq_none_iff {a low high : Points} : a.within? low high = none ↔ high < low := by
  unfold within?
  simp only [le_iff, lt_iff]
  split
  · simp; omega
  · simp; omega

end Points

end CardDuel
