/-
CardDuel.Proofs.Draws — what a draw can give.

The search for a pair of words that a draw accepts ends with a value
below the span, whatever the stream holds. So a draw from a range lies in
it, however far apart the bounds are, a draw of a place lies in the list,
and a member that is picked from a list is one of its members.
-/
import CardDuel.Random.Generator

namespace CardDuel.Random.Generator

open KeyStream (pair pair_lt period)

variable {g : Generator} {low high : Points}

/-! ## Values below a span -/

theorem search_lt {seed : UInt64} {span : Nat} (h : 0 < span) (tries position : Nat) :
    (search seed span tries position).1 < span := by
  induction tries generalizing position with
  | zero => exact h
  | succ tries ih =>
    simp only [search]
    split
    · -- The upper half of a product is below the span, since the pair is a 64-bit number.
      show pair seed position * span / UInt64.size < span
      rw [Nat.div_lt_iff_lt_mul (by decide), Nat.mul_comm span]
      exact Nat.mul_lt_mul_of_pos_right (pair_lt seed position) h
    · exact ih _

theorem below_lt {span : Nat} (h : 0 < span) : (g.below span).1 < span := by
  have hvalue : (search g.seed span (period / 2) g.position).1 < span := search_lt h _ _
  rw [below]
  exact hvalue

/-! ## Ranges -/

/-- An empty range gives its lower end, and nothing is drawn. -/
theorem range_of_le (h : high ≤ low) : g.range low high = (low, g) := if_pos h

theorem range_of_lt (h : low < high) :
    g.range low high =
      (Points.clamp (low.val + (g.below (high.val - low.val).toNat).1),
        (g.below (high.val - low.val).toNat).2) := by
  rw [range, if_neg (by rw [Points.lt_iff] at h; rw [Points.le_iff]; omega)]

/-- A draw from a range lies in the range, and counts once. -/
theorem range_mem (h : low < high) :
    low ≤ (g.range low high).1 ∧ (g.range low high).1 < high ∧
      (g.range low high).2.calls = g.calls + 1 := by
  rw [range_of_lt h]
  rw [Points.lt_iff] at h
  have hoffset : (g.below (high.val - low.val).toNat).1 < (high.val - low.val).toNat :=
    below_lt (by omega)
  have hlow := low.least_le
  have hhigh := high.le_greatest
  refine ⟨?_, ?_, rfl⟩
  · rw [Points.le_iff, Points.val_clamp]
    omega
  · rw [Points.lt_iff, Points.val_clamp]
    omega

/-! ## Members of lists -/

/-- A place that is drawn lies in the list. -/
theorem index?_lt {length : Nat} (h : 0 < length) :
    ∃ i, (g.index? length).1 = some i ∧ i < length := by
  rw [index?, if_neg (by omega)]
  split
  · rename_i hlength
    have hval : (Points.clamp length).val = length := by
      simp only [Points.greatest] at hlength
      rw [Points.val_clamp]
      omega
    have hzero : (0 : Points).val = 0 := rfl
    have hpos : (0 : Points) < Points.clamp length := by
      rw [Points.lt_iff, hval, hzero]
      omega
    obtain ⟨hlow, hhigh, -⟩ := range_mem (g := g) hpos
    rw [Points.le_iff, hzero] at hlow
    rw [Points.lt_iff, hval] at hhigh
    refine ⟨_, rfl, ?_⟩
    show (g.range 0 (Points.clamp length)).1.val.toNat < length
    omega
  · exact ⟨0, rfl, h⟩

/-- A place in a list with members is drawn with one call. -/
theorem calls_index? {length : Nat} (h : 0 < length) (hlength : length ≤ Points.greatest.val) :
    (g.index? length).2.calls = g.calls + 1 := by
  have hpos : (0 : Points) < Points.clamp length := by
    simp only [Points.greatest] at hlength
    have hzero : (0 : Points).val = 0 := rfl
    rw [Points.lt_iff, Points.val_clamp, hzero]
    omega
  rw [index?, if_neg (Nat.ne_of_gt h), if_pos hlength]
  exact (range_mem (g := g) hpos).2.2

/-- Of a list with members, the member at the place drawn is picked. -/
theorem pick?_of_ne_nil {α : Type} {members : List α} (h : members ≠ []) :
    ∃ i a, (g.index? members.length).1 = some i ∧ members[i]? = some a ∧
      (g.pick? members).1 = some a := by
  obtain ⟨i, hi, hlt⟩ := index?_lt (g := g) (List.length_pos_iff.mpr h)
  have ha : members[i]? = some members[i] := List.getElem?_eq_getElem hlt
  refine ⟨i, members[i], hi, ha, ?_⟩
  show (g.index? members.length).1.bind (members[·]?) = _
  rw [hi]
  exact ha

theorem mem_of_pick? {α : Type} {members : List α} {a : α} (h : (g.pick? members).1 = some a) :
    a ∈ members := by
  obtain ⟨i, -, hi⟩ := Option.bind_eq_some_iff.mp h
  exact List.mem_of_getElem? hi

theorem pick?_eq_none_iff {α : Type} {members : List α} :
    (g.pick? members).1 = none ↔ members = [] := by
  cases members with
  | nil => simp [pick?, index?]
  | cons a rest =>
    obtain ⟨_, picked, -, -, hpicked⟩ := pick?_of_ne_nil (g := g) (List.cons_ne_nil a rest)
    simp [hpicked]

end CardDuel.Random.Generator
