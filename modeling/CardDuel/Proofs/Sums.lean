/-
CardDuel.Proofs.Sums — how far the sums of a stat are exact.

The effective value of a stat is meant to be its base and its modifiers,
summed up and limited to the bounds. But the sum is taken modifier by
modifier, and every sum on the way is limited to the range of quantities.
What is cut off on the way is lost, so a modifier of the other sign that
comes later starts from the end of the range and not from the true sum.
In the same way an amount is taken off by adding its negation, which is
limited too: the least quantity has no negation in the range, and loses
one point.

  §1 Quantities — sums that are limited on the way, for any list.
  §2 Stats      — totals and effective values.
  §3 Decreases  — an amount taken off for good, by effects and by blows.
  §4 Losses     — a stat for which the order of its modifiers matters.
-/
import CardDuel.Proofs.Applying
import Mathlib.Algebra.Order.BigOperators.Group.List
import Mathlib.Algebra.Ring.Int.Defs

namespace CardDuel

open Engine Play

/-! ## §1 Quantities -/

namespace Points

/-- The exact sum of a list. -/
def sum (l : List Points) : Int := (l.map val).sum

@[simp] theorem sum_nil : sum [] = 0 := rfl

@[simp] theorem sum_cons (a : Points) (l : List Points) : sum (a :: l) = a.val + sum l :=
  List.sum_cons

@[simp] theorem sum_append (l l' : List Points) : sum (l ++ l') = sum l + sum l' := by
  simp [sum]

theorem sum_nonneg {l : List Points} (h : ∀ b ∈ l, 0 ≤ b.val) : 0 ≤ sum l :=
  List.sum_nonneg (List.forall_mem_map.mpr h)

theorem sum_nonpos {l : List Points} (h : ∀ b ∈ l, b.val ≤ 0) : sum l ≤ 0 := by
  simpa [sum] using List.sum_le_sum (g := fun _ : Points => 0) h

variable {l : List Points}

/-- **Sums that are limited on the way**: the exact sum, limited to what
the same list comes to from the two ends of the range. -/
theorem val_foldl_add (l : List Points) (a : Points) :
    (l.foldl add a).val =
      max (l.foldl add least).val (min (a.val + sum l) (l.foldl add greatest).val) := by
  induction l generalizing a with
  | nil =>
    obtain ⟨hleast, hgreatest⟩ := holds_val a
    simp only [List.foldl_nil, sum_nil]
    omega
  | cons b rest ih =>
    obtain ⟨hlow, hhigh⟩ := holds_val a
    obtain ⟨hlow', hhigh'⟩ := holds_val b
    rw [val_least] at hlow hlow'
    rw [val_greatest] at hhigh hhigh'
    rw [List.foldl_cons, List.foldl_cons, List.foldl_cons, sum_cons]
    -- What raises the sum adds nothing to the greatest, and what lowers it nothing to the least.
    rcases Int.le_total 0 b.val with hb | hb
    · have hgreatest : greatest.add b = greatest := by
        apply ext
        rw [val_add, val_greatest]
        omega
      have hleast : (least.add b).val = least.val + b.val := by
        rw [val_add, val_least]
        omega
      have hsum : (a.add b).val = min (a.val + b.val) greatest.val := by
        rw [val_add, val_greatest]
        omega
      have hends := ih greatest
      rw [hgreatest, ih (a.add b), ih (least.add b), hsum, hleast, val_least, val_greatest]
      rw [val_greatest] at hends
      omega
    · have hleast : least.add b = least := by
        apply ext
        rw [val_add, val_least]
        omega
      have hgreatest : (greatest.add b).val = greatest.val + b.val := by
        rw [val_add, val_greatest]
        omega
      have hsum : (a.add b).val = max least.val (a.val + b.val) := by
        rw [val_add, val_least]
        omega
      have hends := ih least
      rw [hleast, ih (a.add b), ih (greatest.add b), hsum, hgreatest, val_least, val_greatest]
      rw [val_least] at hends
      omega

/-- If no sum on the way leaves the range, then nothing is lost. -/
theorem val_foldl_add_of_holds {a : Points}
    (h : ∀ l', l' <+: l → Holds (a.val + sum l')) : (l.foldl add a).val = a.val + sum l := by
  induction l generalizing a with
  | nil => simp
  | cons b rest ih =>
    have hfirst : (a.add b).val = a.val + b.val := by
      have hholds := h [b] (List.prefix_append [b] rest)
      rw [add, val_clamp_of_holds (by simpa using hholds)]
    rw [List.foldl_cons, ih fun l' hl' => ?_, hfirst, sum_cons, Int.add_assoc]
    have hholds := h (b :: l') (List.prefix_cons_inj b |>.mpr hl')
    rwa [hfirst, Int.add_assoc, ← sum_cons]

/-- If the list only raises the sum, or only lowers it, then what is lost
on the way is beyond the range at the end, too. -/
theorem foldl_add_of_sameSign {a : Points}
    (h : (∀ b ∈ l, 0 ≤ b.val) ∨ (∀ b ∈ l, b.val ≤ 0)) : l.foldl add a = clamp (a.val + sum l) := by
  induction l generalizing a with
  | nil => simp [clamp_val]
  | cons b rest ih =>
    simp only [List.forall_mem_cons] at h
    have hrest : (∀ c ∈ rest, 0 ≤ c.val) ∨ (∀ c ∈ rest, c.val ≤ 0) := h.imp And.right And.right
    have hsigns : 0 ≤ b.val ∧ 0 ≤ sum rest ∨ b.val ≤ 0 ∧ sum rest ≤ 0 :=
      h.imp (.imp_right sum_nonneg) (.imp_right sum_nonpos)
    obtain ⟨hlow, hhigh⟩ := holds_val a
    rw [val_least] at hlow
    rw [val_greatest] at hhigh
    rw [List.foldl_cons, ih hrest, sum_cons]
    apply ext
    rw [val_clamp, val_clamp, val_add]
    omega

/-- The sum is exact, but for the range, if and only if it lies between
what the list comes to from the two ends. -/
theorem foldl_add_eq_clamp_iff {a : Points} :
    l.foldl add a = clamp (a.val + sum l) ↔
      l.foldl add least ≤ clamp (a.val + sum l) ∧ clamp (a.val + sum l) ≤ l.foldl add greatest := by
  have ha := val_foldl_add l a
  have hends := val_foldl_add l greatest
  obtain ⟨hlow, -⟩ := holds_val (l.foldl add least)
  obtain ⟨-, hhigh⟩ := holds_val (l.foldl add greatest)
  rw [val_least] at hlow
  rw [val_greatest] at hhigh
  rw [ext_iff, le_iff, le_iff, val_clamp]
  omega

/-- There is room for the list from `a` on, in whatever order it comes:
all that raises the sum can come first, and all that lowers it. -/
structure Room (a : Points) (l : List Points) : Prop where
  raised : a.val + (l.map fun b => max 0 b.val).sum ≤ greatest.val
  lowered : least.val ≤ a.val + (l.map fun b => min 0 b.val).sum

theorem Room.perm {a : Points} {l l' : List Points} (h : Room a l) (hl : l'.Perm l) :
    Room a l' where
  raised := by rw [(hl.map _).sum_eq]; exact h.raised
  lowered := by rw [(hl.map _).sum_eq]; exact h.lowered

theorem Room.holds {a : Points} (h : Room a l) {l' : List Points} (hl' : l' <+: l) :
    Holds (a.val + sum l') := by
  obtain ⟨rest, rfl⟩ := hl'
  obtain ⟨hraised, hlowered⟩ := h
  rw [List.map_append, List.sum_append] at hraised hlowered
  have hraise : sum l' ≤ (l'.map fun b => max 0 b.val).sum :=
    List.sum_le_sum fun b _ => Int.le_max_right 0 b.val
  have hlower : (l'.map fun b => min 0 b.val).sum ≤ sum l' :=
    List.sum_le_sum fun b _ => Int.min_le_right 0 b.val
  have hrest : 0 ≤ (rest.map fun b => max 0 b.val).sum :=
    List.sum_nonneg (List.forall_mem_map.mpr fun b _ => Int.le_max_left 0 b.val)
  have hrest' : (rest.map fun b => min 0 b.val).sum ≤ 0 := by
    simpa using List.sum_le_sum (g := fun _ : Points => 0) fun b _ => Int.min_le_left 0 b.val
  constructor <;> omega

/-- An amount is taken off exactly, and the difference limited to the
range, but that the least amount takes one point too few off a negative
quantity. -/
theorem add_neg (a b : Points) :
    a.add b.neg = clamp (a.val - b.val - if b = least ∧ a < 0 then 1 else 0) := by
  have hzero : (0 : Points).val = 0 := rfl
  obtain ⟨hlow, hhigh⟩ := holds_val a
  obtain ⟨hlow', hhigh'⟩ := holds_val b
  rw [val_least] at hlow hlow'
  rw [val_greatest] at hhigh hhigh'
  apply ext
  simp only [add, val_clamp, val_neg, ext_iff, lt_iff, hzero, val_least]
  split
  · omega
  · omega

end Points

/-! ## §2 Stats -/

namespace Stat

/-- The values of the modifiers, oldest first. -/
def shifts (s : Stat) : List Points := s.modifiers.map Modifier.value

/-- Base and modifiers summed up exactly. -/
def sum (s : Stat) : Int := s.base.val + Points.sum s.shifts

/-- An integer limited to the bounds. -/
def limited (s : Stat) (n : Int) : Int := max s.low.val (min n s.high.val)

/-- The total that the modifiers give on another base. -/
def totalFrom (s : Stat) (base : Points) : Points := s.shifts.foldl Points.add base

/-- What the effective value of a stat comes to. -/
structure Reckons (s : Stat) (value : Points) : Prop where
  effective : s.effective = .ok value
  /-- The exact sum is limited to the totals from the two ends of the
  range, and then to the bounds. -/
  limits : value.val =
    s.limited (max (s.totalFrom .least).val (min s.sum (s.totalFrom .greatest).val))
  /-- The total is the exact sum, but for the range, just when the sum
  lies between the two. -/
  exact_iff : s.total = .clamp s.sum ↔
    s.totalFrom .least ≤ .clamp s.sum ∧ .clamp s.sum ≤ s.totalFrom .greatest
  exact : s.total = .clamp s.sum → value.val = s.limited s.sum
  /-- No sum on the way leaves the range. -/
  within : (∀ l, l <+: s.shifts → Points.Holds (s.base.val + Points.sum l)) →
    value.val = s.limited s.sum
  /-- The modifiers only raise the sum, or only lower it. -/
  sameSign : ((∀ b ∈ s.shifts, 0 ≤ b.val) ∨ (∀ b ∈ s.shifts, b.val ≤ 0)) →
    value.val = s.limited s.sum
  /-- With room for the modifiers in any order, the order does not matter. -/
  anyOrder : Points.Room s.base s.shifts → value.val = s.limited s.sum ∧
    ∀ l, l.Perm s.modifiers → { s with modifiers := l }.effective = .ok value

variable {s : Stat} {value : Points}

theorem total_eq_totalFrom (s : Stat) : s.total = s.totalFrom s.base := s.total_eq_foldl

/-- What is lost beyond the range is beyond the bounds, too. -/
theorem limited_clamp (s : Stat) (n : Int) : s.limited (Points.clamp n).val = s.limited n := by
  have hlow := s.low.least_le
  have hlow' := s.low.le_greatest
  have hhigh := s.high.least_le
  have hhigh' := s.high.le_greatest
  rw [limited, limited, Points.val_clamp]
  omega

/-- With room for the modifiers, the total is exact. -/
theorem val_total_of_room (h : Points.Room s.base s.shifts) : s.total.val = s.sum := by
  rw [total_eq_totalFrom, totalFrom, Points.val_foldl_add_of_holds fun _ hl => h.holds hl, sum]

theorem effective_of_perm (h : Points.Room s.base s.shifts) {l : List Modifier}
    (hl : l.Perm s.modifiers) : { s with modifiers := l }.effective = s.effective := by
  have hshifts : (l.map Modifier.value).Perm s.shifts := hl.map Modifier.value
  have htotal : ({ s with modifiers := l } : Stat).total = s.total := by
    have hroom : Points.Room s.base (shifts { s with modifiers := l }) := h.perm hshifts
    apply Points.ext
    rw [val_total_of_room h, val_total_of_room hroom]
    exact congrArg (s.base.val + ·) (hshifts.map Points.val).sum_eq
  rw [effective, effective, htotal]

theorem reckons_of_effective (hordered : s.low ≤ s.high) (h : s.effective = .ok value) :
    s.Reckons value := by
  have hval : value.val = s.limited s.total.val := by
    obtain ⟨value', hvalue', hval⟩ := effective_of_ordered hordered
    cases h.symm.trans hvalue'
    exact hval
  have hexact (hsum : s.total = .clamp s.sum) : value.val = s.limited s.sum := by
    rw [hval, hsum, limited_clamp]
  have hwithin (hsum : ∀ l, l <+: s.shifts → Points.Holds (s.base.val + Points.sum l)) :
      value.val = s.limited s.sum := by
    rw [hval, total_eq_totalFrom, totalFrom, Points.val_foldl_add_of_holds hsum, sum]
  constructor
  case effective => exact h
  case limits =>
    rw [hval, total_eq_totalFrom, totalFrom, Points.val_foldl_add]
    rfl
  case exact_iff =>
    rw [total_eq_totalFrom]
    exact Points.foldl_add_eq_clamp_iff
  case exact => exact hexact
  case within => exact hwithin
  case sameSign =>
    intro hsigns
    exact hexact (s.total_eq_totalFrom.trans (Points.foldl_add_of_sameSign hsigns))
  case anyOrder =>
    intro hroom
    exact ⟨hwithin fun l hl => hroom.holds hl, fun l hl => (effective_of_perm hroom hl).trans h⟩

end Stat

/-! ## §3 Decreases -/

/-- The stat with an amount taken off its base value for good. -/
def Stat.lessened (s : Stat) (amount : Points) : Stat :=
  { s with
    base := .clamp (s.base.val - amount.val - if amount = .least ∧ s.base < 0 then 1 else 0) }

theorem Adjustment.apply_decrease (amount : Points) (s : Stat) :
    Adjustment.decrease.apply amount 0 s = s.replace (s.lessened amount) := by
  rw [Stat.lessened, ← Points.add_neg]
  rfl

namespace Play

variable {σ : Scene} {b : Bearer} {name : String} {block : StatBlock} {s : Stat}

/-- A decrease for no turns takes its amount off the base value. -/
theorem adjustStat_decrease (hordered : s.low ≤ s.high) (hb : σ.duel.stats b = .ok block)
    (hs : block.get? name = some s) (amount : Amount) :
    ∃ change, adjustStat b name .decrease amount 0 σ =
      .done (some change)
        { σ with
          duel := { σ.duel with generator := (amount.roll σ.duel.generator).2 }.putStats b
            (block.put name (s.lessened (amount.roll σ.duel.generator).1))
          journal := .wrote b name change :: σ.journal } := by
  obtain ⟨change, hchange⟩ : ∃ change, s.replace (s.lessened (amount.roll σ.duel.generator).1) =
      .ok (change, s.lessened (amount.roll σ.duel.generator).1) :=
    Stat.replace_of_ordered hordered hordered
  have hb' : ({ σ.duel with generator := (amount.roll σ.duel.generator).2 } : Duel).stats b =
      .ok block := by
    cases b <;> exact hb
  exact ⟨change, (adjustStat_of_some hb hs).trans
    (writeStat_of_some hb' hs ((Adjustment.apply_decrease _ s).trans hchange))⟩

end Play

/-- **Where the sums of a stat are exact.** A stat with its bounds in order
has an effective value, which is the exact sum of base and modifiers,
limited to the bounds, unless something is cut off on the way. A decrease
for good, which a blow is as well, leaves the exact difference, limited to
the range, unless the least amount is taken off a negative base. -/
theorem exact_unless_cut_off {s : Stat} (h : s.low ≤ s.high) :
    (∃ value, s.Reckons value) ∧
      (∀ (b : Bearer) (name : String) (amount : Points),
        damage b name amount = adjustStat b name .decrease (.constant amount) 0) ∧
      ∀ (σ : Scene) (b : Bearer) (name : String) (block : StatBlock) (amount : Amount),
        σ.duel.stats b = .ok block → block.get? name = some s →
          ∃ change, adjustStat b name .decrease amount 0 σ =
            .done (some change)
              { σ with
                duel := { σ.duel with generator := (amount.roll σ.duel.generator).2 }.putStats b
                  (block.put name (s.lessened (amount.roll σ.duel.generator).1))
                journal := .wrote b name change :: σ.journal } := by
  obtain ⟨value, hvalue, -⟩ := Stat.effective_of_ordered h
  exact ⟨⟨value, Stat.reckons_of_effective h hvalue⟩, damage_eq_adjustStat,
    fun σ b name block amount hb hs => adjustStat_decrease h hb hs amount⟩

/-- A stat with the whole range for its bounds. -/
def Stat.unbounded (base : Points) (shifts : List Points) : Stat where
  name := "Power"
  base := base
  low := .least
  high := .greatest
  modifiers := shifts.map fun value => ⟨value, 1⟩

/-- A duel whose first player has one stat. -/
def Duel.withPower (s : Stat) : Duel :=
  (Duel.blank (Starter.catalog {}) 7 ⟨1⟩ ⟨2⟩).putStats (.player ⟨1⟩) ⟨[s]⟩

/-- Five, raised by two and lowered by three, has room for both. A blow
takes four off the five. -/
theorem power_reckoned_and_struck :
    let s := Stat.unbounded 5 [2, .neg 3]
    s.low ≤ s.high ∧ Points.Room s.base s.shifts ∧ (∃ value, s.Reckons value) ∧
      ∃ change, damage (.player ⟨1⟩) "Power" 4 ⟨.withPower s, [], 0⟩ =
        .done (some change)
          ⟨(Duel.withPower s).putStats (.player ⟨1⟩) ⟨[.unbounded 1 [2, .neg 3]]⟩,
            [.wrote (.player ⟨1⟩) "Power" change], 0⟩ := by
  intro s
  have hordered : s.low ≤ s.high := by decide
  obtain ⟨hreckons, hdamage, hdecrease⟩ := exact_unless_cut_off hordered
  obtain ⟨change, hchange⟩ :=
    hdecrease ⟨.withPower s, [], 0⟩ (.player ⟨1⟩) "Power" ⟨[s]⟩ (.constant 4) rfl rfl
  refine ⟨hordered, ⟨by decide, by decide⟩, hreckons, change, ?_⟩
  rw [hdamage, hchange]
  rfl

/-! ## §4 Losses -/

/-- **What is cut off on the way is lost.** At the greatest base a modifier
of one is lost, so that one of minus one after it takes effect by itself;
the other way round both do. And minus one, less the least amount, is left
one short of the greatest quantity. -/
theorem cut_off_on_the_way :
    (Stat.unbounded .greatest [1, .neg 1]).low ≤ (Stat.unbounded .greatest [1, .neg 1]).high ∧
      (Stat.unbounded .greatest [1, .neg 1]).effective = .ok (.clamp 9223372036854775806) ∧
      (Stat.unbounded .greatest [1, .neg 1]).limited (Stat.unbounded .greatest [1, .neg 1]).sum =
        9223372036854775807 ∧
      (Stat.unbounded .greatest [.neg 1, 1]).effective = .ok (.clamp 9223372036854775807) ∧
      Adjustment.decrease.apply .least 0 (.unbounded (.neg 1) []) =
        .ok (⟨.neg 1, .clamp 9223372036854775806⟩, .unbounded (.clamp 9223372036854775806) []) ∧
      (Points.neg 1).val - Points.least.val = 9223372036854775807 := by
  decide

end CardDuel
