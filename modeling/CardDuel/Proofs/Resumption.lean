/-
CardDuel.Proofs.Resumption — what can be relied on of a generator.

A draw from a range is computed in 64-bit registers. The length of the
range is a difference that wraps around; two words of the stream are
multiplied by it; the lower half of the product is put to a test, and the
upper half is added to the lower end, which wraps around again. All of
this comes to what `range` says in integers, for ends that are as far
apart as they can be. The test is repeated with further words until it is
passed. If it ever is, then by words that `search` looks at, since after
them the stream starts again.

A generator is saved as its seed, its position and its count of draws.
The position never leaves the period of the stream, wherever it started,
so the generator that is resumed is the one that was saved.

  §1 Registers — quantities in registers of 64 bits.
  §2 Loops     — the repeated test, and the search.
  §3 Draws     — ranges and places, computed in registers.
  §4 Runs      — generators that are obtained, and their answers.
-/
import CardDuel.Proofs.Draws
import CardDuel.Proofs.Snapshots

namespace CardDuel

/-! ## §1 Registers -/

namespace Points

/-- The quantity in a register. -/
def ofInt64 (n : Int64) : Points where
  val := n.toInt
  least_le := n.le_toInt
  le_greatest := Int.le_of_lt_add_one n.toInt_lt

/-- The register of a quantity. -/
def toInt64 (a : Points) : Int64 := .ofInt a.val

/-- Quantities do not wrap around. -/
theorem bmod_of_holds {n : Int} (h : Holds n) : n.bmod (2 ^ 64) = n := by
  obtain ⟨hleast, hgreatest⟩ := h
  rw [val_least] at hleast
  rw [val_greatest] at hgreatest
  exact Int.bmod_eq_of_le (by omega) (by omega)

theorem toInt_toInt64 (a : Points) : a.toInt64.toInt = a.val := by
  rw [toInt64, Int64.toInt_ofInt]
  exact bmod_of_holds a.holds_val

/-! Read as signed and as unsigned, a register differs by full turns. -/

theorem toInt_eq_bmod (n : Int64) : n.toInt = (n.toUInt64.toNat : Int).bmod (2 ^ 64) := by
  rw [← Int64.toInt_toBitVec, BitVec.toInt_eq_toNat_bmod, ← Int64.toBitVec_toUInt64,
    UInt64.toNat_toBitVec]

theorem toInt_word (w : UInt64) : w.toInt64.toInt = (w.toNat : Int).bmod (2 ^ 64) := by
  rw [toInt_eq_bmod, UInt64.toUInt64_toInt64]

theorem toNat_eq_emod (n : Int64) : (n.toUInt64.toNat : Int) = n.toInt % (2 ^ 64 : Nat) := by
  have hword := n.toUInt64.toNat_lt
  have hturns := Int.bmod_emod (x := n.toUInt64.toNat) (m := 2 ^ 64)
  rw [toInt_eq_bmod]
  omega

variable {low high : Points}

/-- The difference that wraps around is the length of the range, even
where that is no quantity. -/
theorem toNat_sub_toInt64 (h : low < high) :
    (high.toInt64 - low.toInt64).toUInt64.toNat = (high.val - low.val).toNat := by
  have hlow := low.least_le
  have hhigh := high.le_greatest
  rw [lt_iff] at h
  have hword := toNat_eq_emod (high.toInt64 - low.toInt64)
  rw [Int64.toInt_sub, toInt_toInt64, toInt_toInt64] at hword
  have hturns := Int.bmod_emod (x := high.val - low.val) (m := 2 ^ 64)
  omega

/-- The sum that wraps around is exact where it is a quantity, even where
the offset is none. -/
theorem ofInt64_add_toInt64 {offset : UInt64} (h : Holds (low.val + offset.toNat)) :
    ofInt64 (low.toInt64 + offset.toInt64) = clamp (low.val + offset.toNat) := by
  apply ext
  show (low.toInt64 + offset.toInt64).toInt = _
  rw [Int64.toInt_add, toInt_toInt64, toInt_word, Int.add_bmod_bmod, bmod_of_holds h,
    val_clamp_of_holds h]

end Points

namespace Random

open KeyStream (pair pair_lt period)

/-! ## §2 Loops -/

namespace KeyStream

/-- The two words from `position` on in one register, the second above
the first. -/
def pairWord (seed : UInt64) (position : Nat) : UInt64 :=
  (word seed position).toUInt64 ||| ((word seed ((position + 1) % period)).toUInt64 <<< 32)

theorem toNat_pairWord (seed : UInt64) (position : Nat) :
    (pairWord seed position).toNat = pair seed position := by
  -- The words do not overlap, so that to join them is to add them.
  have hlow : (word seed position).toNat < 2 ^ 32 := (word seed position).toNat_lt
  have hhigh := (word seed ((position + 1) % period)).toNat_lt
  have hshift : (UInt64.toNat 32) % 64 = 32 := rfl
  rw [pairWord, UInt64.toNat_or, UInt64.toNat_shiftLeft, UInt32.toNat_toUInt64,
    UInt32.toNat_toUInt64, hshift, Nat.shiftLeft_eq, Nat.mod_eq_of_lt (by omega), Nat.or_comm,
    ← Nat.shiftLeft_eq, ← Nat.shiftLeft_add_eq_or_of_lt hlow, Nat.shiftLeft_eq, pair]
  show _ * 4294967296 + _ = _ + 4294967296 * _
  omega

end KeyStream

namespace Generator

/-- How many of the highest bits of a register are not set. -/
def leadingZeros (w : UInt64) : Nat := w.toBitVec.clz.toNat

/-- The greatest lower half of a product that is accepted: `span` with its
leading zeros shifted out, less one. -/
def ceiling (span : UInt64) : UInt64 := (span <<< .ofNat (leadingZeros span)) - 1

theorem leadingZeros_spec {w : UInt64} (h : 0 < w.toNat) :
    leadingZeros w ≤ 63 ∧ 2 ^ (63 - leadingZeros w) ≤ w.toNat ∧
      w.toNat < 2 ^ (64 - leadingZeros w) := by
  have hne : w.toBitVec ≠ 0#64 := by
    intro hzero
    rw [← UInt64.toNat_toBitVec, hzero] at h
    exact absurd h (by decide)
  have hlow : 2 ^ (63 - leadingZeros w) ≤ w.toNat :=
    BitVec.two_pow_sub_clz_le_toNat_of_ne_zero (by decide) hne
  have hhigh : w.toNat < 2 ^ (64 - leadingZeros w) := BitVec.toNat_lt_two_pow_sub_clz
  refine ⟨?_, hlow, hhigh⟩
  by_contra hmany
  rw [Nat.sub_eq_zero_of_le (by omega)] at hhigh
  omega

theorem log2_eq_sub_leadingZeros {w : UInt64} (h : 0 < w.toNat) :
    w.toNat.log2 = 63 - leadingZeros w := by
  obtain ⟨hzeros, hlow, hhigh⟩ := leadingZeros_spec h
  rw [Nat.log2_eq_iff (by omega), ← Nat.sub_add_comm hzeros]
  exact ⟨hlow, hhigh⟩

/-- The shift brings the highest bit that is set to the highest place, so
that none is lost, and there is one to be taken off. -/
theorem toNat_ceiling {span : UInt64} (h : 0 < span.toNat) :
    (ceiling span).toNat = threshold span.toNat := by
  obtain ⟨hzeros, hlow, hhigh⟩ := leadingZeros_spec h
  have hlower : 2 ^ 63 ≤ span.toNat * 2 ^ leadingZeros span := by
    calc
      2 ^ 63 = 2 ^ (63 - leadingZeros span) * 2 ^ leadingZeros span := by
        rw [← Nat.pow_add, Nat.sub_add_cancel hzeros]
      _ ≤ span.toNat * 2 ^ leadingZeros span := Nat.mul_le_mul_right _ hlow
  have hupper : span.toNat * 2 ^ leadingZeros span < 2 ^ 64 := by
    calc
      span.toNat * 2 ^ leadingZeros span <
          2 ^ (64 - leadingZeros span) * 2 ^ leadingZeros span :=
        Nat.mul_lt_mul_of_pos_right hhigh (Nat.two_pow_pos _)
      _ = 2 ^ 64 := by rw [← Nat.pow_add, Nat.sub_add_cancel (by omega)]
  have hshift : (span <<< .ofNat (leadingZeros span)).toNat =
      span.toNat * 2 ^ leadingZeros span := by
    rw [UInt64.toNat_shiftLeft, UInt64.toNat_ofNat_of_lt' (by simp [UInt64.size]; omega),
      Nat.shiftLeft_eq, Nat.mod_eq_of_lt (Nat.lt_succ_of_le hzeros), Nat.mod_eq_of_lt hupper]
  have hone : (1 : UInt64) ≤ span <<< .ofNat (leadingZeros span) := by
    rw [UInt64.le_iff_toNat_le, hshift]
    exact Nat.le_trans (by decide) hlower
  rw [ceiling, UInt64.toNat_sub_of_le _ _ hone, hshift, threshold, log2_eq_sub_leadingZeros h,
    Nat.sub_sub_self hzeros, Nat.shiftLeft_eq]
  rfl

/-- The words at a position are accepted for a range of `span` values: the
lower half of their product with it does not exceed the ceiling. -/
def Accepts (seed span : UInt64) (position : Nat) : Prop :=
  KeyStream.pairWord seed position * span ≤ ceiling span

instance (seed span : UInt64) (position : Nat) : Decidable (Accepts seed span position) :=
  inferInstanceAs (Decidable (_ ≤ _))

/-- The upper half of the product of two registers. -/
def upperHalf (v w : UInt64) : UInt64 := .ofNat (v.toNat * w.toNat / UInt64.size)

/-- The loop of a draw: words are drawn until some are accepted, and the
upper half of their product is added to the lower end. -/
inductive Loop (seed : UInt64) (low : Int64) (span : UInt64) : Nat → Int64 → Nat → Prop
  | accept {position : Nat} (h : Accepts seed span position) :
    Loop seed low span position
      (low + (upperHalf (KeyStream.pairWord seed position) span).toInt64) ((position + 2) % period)
  | reject {position final : Nat} {value : Int64} (h : ¬ Accepts seed span position)
    (rest : Loop seed low span ((position + 2) % period) value final) :
    Loop seed low span position value final

variable {seed span : UInt64} {low value : Int64} {position final : Nat}

theorem accepts_iff (h : 0 < span.toNat) :
    Accepts seed span position ↔
      pair seed position * span.toNat % UInt64.size ≤ threshold span.toNat := by
  rw [Accepts, UInt64.le_iff_toNat_le, UInt64.toNat_mul, toNat_ceiling h, KeyStream.toNat_pairWord]

theorem toNat_upperHalf (seed span : UInt64) (position : Nat) :
    (upperHalf (KeyStream.pairWord seed position) span).toNat =
      pair seed position * span.toNat / UInt64.size := by
  have hpair := pair_lt seed position
  have hspan : span.toNat < UInt64.size := span.toNat_lt
  have hproduct : pair seed position * span.toNat < UInt64.size * UInt64.size :=
    Nat.mul_lt_mul_of_lt_of_lt hpair hspan
  rw [upperHalf, KeyStream.toNat_pairWord, UInt64.toNat_ofNat_of_lt']
  exact Nat.div_lt_of_lt_mul hproduct

/-- The position after a number of pairs of words. -/
def skip : Nat → Nat → Nat
  | 0, position => position
  | k + 1, position => skip k ((position + 2) % period)

theorem skip_eq (k : Nat) (h : position < period) :
    skip k position = (position + 2 * k) % period := by
  induction k generalizing position with
  | zero => exact (Nat.mod_eq_of_lt h).symm
  | succ k ih =>
    rw [skip, ih (Nat.mod_lt _ (by decide)), Nat.mod_add_mod]
    congr 1
    omega

/-- The loop ends with the first words that are accepted. -/
theorem Loop.exists_skip (h : Loop seed low span position value final) :
    ∃ k, (∀ j < k, ¬ Accepts seed span (skip j position)) ∧
      Accepts seed span (skip k position) ∧
      value = low + (upperHalf (KeyStream.pairWord seed (skip k position)) span).toInt64 ∧
      final = (skip k position + 2) % period := by
  induction h with
  | accept h => exact ⟨0, fun j hj => absurd hj (Nat.not_lt_zero j), h, rfl, rfl⟩
  | reject h _ ih =>
    obtain ⟨k, hrejected, haccepts, hvalue, hfinal⟩ := ih
    refine ⟨k + 1, fun j hj => ?_, haccepts, hvalue, hfinal⟩
    cases j with
    | zero => exact h
    | succ j => exact hrejected j (Nat.lt_of_succ_lt_succ hj)

/-- The first words that are accepted come before the stream starts again:
half a period later the same words would have been seen already. -/
theorem lt_of_accepts {k : Nat} (hposition : position < period)
    (hrejected : ∀ j < k, ¬ Accepts seed span (skip j position))
    (haccepts : Accepts seed span (skip k position)) : k < period / 2 := by
  have hperiod : period = 2 ^ 68 := by decide
  by_contra hlate
  refine hrejected (k - period / 2) (by omega) ?_
  have hsame : skip (k - period / 2) position = skip k position := by
    rw [skip_eq _ hposition, skip_eq _ hposition, hperiod]
    omega
  rwa [hsame]

/-- The search finds the first words that are accepted. -/
theorem search_of_accepts {k tries : Nat} (hspan : 0 < span.toNat)
    (hrejected : ∀ j < k, ¬ Accepts seed span (skip j position))
    (haccepts : Accepts seed span (skip k position)) (htries : k < tries) :
    search seed span.toNat tries position =
      (pair seed (skip k position) * span.toNat / UInt64.size, (skip k position + 2) % period) := by
  -- On the number of pairs that are rejected, each of which takes one try.
  induction k generalizing tries position with
  | zero =>
    obtain ⟨tries, rfl⟩ := Nat.exists_eq_succ_of_ne_zero (Nat.ne_of_gt htries)
    rw [search]
    exact if_pos ((accepts_iff hspan).mp haccepts)
  | succ k ih =>
    obtain ⟨tries, rfl⟩ := Nat.exists_eq_succ_of_ne_zero (Nat.ne_of_gt (Nat.zero_lt_of_lt htries))
    have hfirst := hrejected 0 (Nat.succ_pos k)
    rw [search]
    rw [skip, accepts_iff hspan] at hfirst
    refine (if_neg hfirst).trans ?_
    exact ih (fun j hj => hrejected (j + 1) (Nat.succ_lt_succ hj)) haccepts
      (Nat.lt_of_succ_lt_succ htries)

/-! ## §3 Draws -/

variable {g : Generator} {lower upper : Points}

/-- The length of a range, as a difference of registers. -/
def spanWord (lower upper : Points) : UInt64 := (upper.toInt64 - lower.toInt64).toUInt64

/-- **A draw from a range** gives what the loop ends with. -/
theorem range_of_loop (hposition : g.position < period) (h : lower < upper)
    (hloop : Loop g.seed lower.toInt64 (spanWord lower upper) g.position value final) :
    g.range lower upper = (.ofInt64 value, ⟨g.seed, final, g.calls + 1⟩) := by
  obtain ⟨k, hrejected, haccepts, rfl, rfl⟩ := hloop.exists_skip
  have hspan : (spanWord lower upper).toNat = (upper.val - lower.val).toNat :=
    Points.toNat_sub_toInt64 h
  have hlength : 0 < (upper.val - lower.val).toNat := by
    rw [Points.lt_iff] at h
    omega
  let offset := upperHalf (KeyStream.pairWord g.seed (skip k g.position)) (spanWord lower upper)
  have hbelow : g.below (upper.val - lower.val).toNat =
      (offset.toNat, ⟨g.seed, (skip k g.position + 2) % period, g.calls + 1⟩) := by
    have hfirst := lt_of_accepts hposition hrejected haccepts
    rw [below, ← hspan, search_of_accepts (hspan ▸ hlength) hrejected haccepts hfirst,
      toNat_upperHalf]
  -- The offset lies below the length, so that the sum stays below the upper end.
  have hoffset : offset.toNat < (upper.val - lower.val).toNat := by
    have hvalue := below_lt (g := g) hlength
    rwa [hbelow] at hvalue
  have hsum : Points.Holds (lower.val + offset.toNat) := by
    obtain ⟨hleast, -⟩ := lower.holds_val
    obtain ⟨-, hgreatest⟩ := upper.holds_val
    constructor <;> omega
  rw [range_of_lt h, hbelow, Points.ofInt64_add_toInt64 hsum]

theorem zero_le_next (upper : Points) : 0 ≤ (g.next upper).1 := by
  by_cases hupper : upper ≤ 0
  · rw [next, range_of_le hupper]
    exact Int.le_refl 0
  · exact (range_mem (Int.not_le.mp hupper)).1

/-- **A place in a list** is drawn as a number below the length, which is
read as signed, and is read as unsigned. A length that is negative when
read so has an empty range. -/
theorem index?_eq_next {length : UInt64} (h : length ≠ 0) :
    g.index? length.toNat =
      (some (g.next (.ofInt64 length.toInt64)).1.toInt64.toUInt64.toNat,
        (g.next (.ofInt64 length.toInt64)).2) := by
  have hne : length.toNat ≠ 0 := fun hzero => h (UInt64.toNat_inj.mp hzero)
  have hread : (Points.ofInt64 length.toInt64).val = (length.toNat : Int).bmod (2 ^ 64) :=
    Points.toInt_word length
  have hword := length.toNat_lt
  rw [index?, if_neg hne]
  split
  case isTrue hlength =>
    have hholds : Points.Holds length.toNat :=
      ⟨Int.le_trans (by decide) (Int.natCast_nonneg _), hlength⟩
    have hsame : Points.ofInt64 length.toInt64 = .clamp length.toNat := by
      apply Points.ext
      rw [hread, Points.bmod_of_holds hholds, Points.val_clamp_of_holds hholds]
    have hplace : 0 ≤ (g.next (.clamp length.toNat)).1.val := zero_le_next _
    have hgreatest := (g.next (.clamp length.toNat)).1.le_greatest
    have hunsigned := Points.toNat_eq_emod (g.next (.clamp length.toNat)).1.toInt64
    rw [Points.toInt_toInt64] at hunsigned
    rw [hsame]
    show (some (g.next (.clamp length.toNat)).1.val.toNat, (g.next (.clamp length.toNat)).2) = _
    congr 2
    omega
  case isFalse hlength =>
    have hempty : Points.ofInt64 length.toInt64 ≤ 0 := by
      rw [Points.val_greatest] at hlength
      show (Points.ofInt64 length.toInt64).val ≤ 0
      rw [hread, Int.bmod_def]
      omega
    rw [next, range_of_le hempty]
    rfl

/-! ## §4 Runs -/

/-- One draw. -/
inductive Draw where
  | next (upper : Points)
  | range (lower upper : Points)
  | place (length : Nat)
  deriving DecidableEq, Repr

/-- What a draw gives. -/
inductive Drawn where
  | points (value : Points)
  | place (index : Option Nat)
  deriving DecidableEq, Repr

/-- What a draw gives, and the generator after it. -/
def answer (g : Generator) : Draw → Drawn × Generator
  | .next upper => (.points (g.next upper).1, (g.next upper).2)
  | .range lower upper => (.points (g.range lower upper).1, (g.range lower upper).2)
  | .place length => (.place (g.index? length).1, (g.index? length).2)

/-- What draws give one after the other, each with the generator after it. -/
def answers (g : Generator) : List Draw → List (Drawn × Generator)
  | [] => []
  | draw :: rest => g.answer draw :: (g.answer draw).2.answers rest

/-- The generators that there are: new ones, ones that are resumed from
whatever numbers, and these after any draws. -/
inductive Obtained : Generator → Prop
  | ofSeed (seed : UInt64) : Obtained (.ofSeed seed)
  | resume (seed : UInt64) (position calls : Nat) : Obtained (.resume seed position calls)
  | draw {g : Generator} (before : Obtained g) (draw : Draw) : Obtained (g.answer draw).2

/-- What can be relied on of a generator. -/
structure Reliable (g : Generator) : Prop where
  /-- A draw from a range that is not empty lies in it, and is counted. -/
  range_mem : ∀ lower upper, lower < upper →
    lower ≤ (g.range lower upper).1 ∧ (g.range lower upper).1 < upper ∧
      (g.range lower upper).2.calls = g.calls + 1
  /-- It is what the loop in registers ends with. -/
  range_loop : ∀ lower upper, lower < upper → ∀ value final,
    Loop g.seed lower.toInt64 (spanWord lower upper) g.position value final →
      g.range lower upper = (.ofInt64 value, ⟨g.seed, final, g.calls + 1⟩)
  /-- An empty range gives its lower end, and nothing is drawn. -/
  range_empty : ∀ lower upper, upper ≤ lower → g.range lower upper = (lower, g)
  /-- A place in a list with members lies in it. -/
  place_lt : ∀ length, 0 < length → ∃ i, (g.index? length).1 = some i ∧ i < length
  /-- It is drawn below the length, read as signed. -/
  place_next : ∀ length : UInt64, length ≠ 0 → g.index? length.toNat =
    (some (g.next (.ofInt64 length.toInt64)).1.toInt64.toUInt64.toNat,
      (g.next (.ofInt64 length.toInt64)).2)
  /-- There is no place in a list without members, and nothing is drawn. -/
  place_none : g.index? 0 = (none, g)
  /-- Saved and resumed, it goes on the same, through any draws. -/
  resumed : ∀ draws, (resume g.seed g.position g.calls).answers draws = g.answers draws

theorem position_answer_lt (h : g.position < period) (draw : Draw) :
    (g.answer draw).2.position < period := by
  cases draw with
  | next upper => exact position_range_lt h
  | range lower upper => exact position_range_lt h
  | place length => exact (Draws.place length).position_lt h

/-- The position of a generator stays within the period, wherever it is
resumed. -/
theorem Obtained.position_lt (h : Obtained g) : g.position < period := by
  induction h with
  | ofSeed seed => exact (by decide : 0 < period)
  | resume seed position calls => exact Nat.mod_lt position (by decide)
  | draw before draw ih => exact position_answer_lt ih draw

/-- What is saved of a generator is all of it. -/
theorem resume_self (h : g.position < period) : resume g.seed g.position g.calls = g := by
  rw [resume, Nat.mod_eq_of_lt h]

/-- **Generators can be relied on**, however they were obtained. -/
theorem Obtained.reliable (h : Obtained g) : g.Reliable := by
  have hposition := h.position_lt
  constructor
  case range_mem => exact fun lower upper hrange => range_mem hrange
  case range_loop =>
    exact fun lower upper hrange value final hloop => range_of_loop hposition hrange hloop
  case range_empty => exact fun lower upper hempty => range_of_le hempty
  case place_lt => exact fun length hlength => index?_lt hlength
  case place_next => exact fun length hlength => index?_eq_next hlength
  case place_none => rfl
  case resumed =>
    intro draws
    rw [resume_self hposition]

/-- Resumed at the last word of the stream, which is odd, for a range of
more than half of all quantities. Three pairs of words are rejected, the
first of them across the end of the stream, and the fourth is accepted. -/
theorem reliable_past_the_end :
    let g := resume 42 (2 ^ 69 - 1) 5
    g.Obtained ∧ g.position = 2 ^ 68 - 1 ∧ Points.least < 1 ∧
      Loop 42 Points.least.toInt64 (spanWord .least 1) (2 ^ 68 - 1) (-6049684872581555324) 7 ∧
      g.range .least 1 = (.ofInt64 (-6049684872581555324), ⟨42, 7, 6⟩) ∧ g.Reliable := by
  intro g
  have hvalue : Points.least.toInt64 +
      (upperHalf (KeyStream.pairWord 42 5) (spanWord .least 1)).toInt64 = -6049684872581555324 := by
    decide +kernel
  have haccepted : Accepts 42 (spanWord .least 1) 5 := by decide +kernel
  have hrejected : ∀ position ∈ [2 ^ 68 - 1, 1, 3], ¬ Accepts 42 (spanWord .least 1) position := by
    decide +kernel
  have hlast : Loop 42 Points.least.toInt64 (spanWord .least 1) 5 (-6049684872581555324) 7 := by
    rw [← hvalue]
    exact .accept haccepted
  have hloop : Loop 42 Points.least.toInt64 (spanWord .least 1) (2 ^ 68 - 1)
      (-6049684872581555324) 7 :=
    .reject (hrejected _ (by simp)) (.reject (hrejected 1 (by simp))
      (.reject (hrejected 3 (by simp)) hlast))
  have hobtained : g.Obtained := .resume 42 (2 ^ 69 - 1) 5
  have hreliable : g.Reliable := hobtained.reliable
  exact ⟨hobtained, by decide +kernel, by decide, hloop,
    hreliable.range_loop .least 1 (by decide) _ _ hloop, hreliable⟩

end Generator

end Random

end CardDuel
