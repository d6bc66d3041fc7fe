/-
CardDuel.Proofs.Snapshots — snapshots are canonical and lossless.

Two duels that are reached have the same snapshot bytes exactly when they
agree on everything that a snapshot is of. One direction is the order of
the cards: a snapshot sorts them by their numbers, which are distinct, so
it does not matter in what order they are kept. The other is that the
layout can be read back, for which the numbers in the snapshot have to
fit: cards have numbers below the next free one, and the generator never
leaves the period of its stream.

  §1 Order      — sorting forgets the order of the cards.
  §2 Generators — draws stay within the period.
  §3 Bytes      — what fits, and the bytes of duels that are reached.
-/
import CardDuel.Proofs.Books
import CardDuel.Proofs.Legible
import CardDuel.Proofs.Partition

namespace CardDuel

open Binary

open scoped List

/-! ## §1 Order -/

/-- Cards with distinct numbers are sorted alike from every order. -/
theorem mergeSort_eq_of_perm {cards cards' : List Card} (h : cards ~ cards')
    (hnodup : (cards.map Card.id).Nodup) :
    (cards.mergeSort fun a b => a.id.number ≤ b.id.number) =
      cards'.mergeSort fun a b => a.id.number ≤ b.id.number := by
  have hsorted (cards : List Card) :
      (cards.mergeSort fun a b => a.id.number ≤ b.id.number).Pairwise
        fun a b => a.id.number ≤ b.id.number := by
    simpa using @List.pairwise_mergeSort Card (fun a b => decide (a.id.number ≤ b.id.number))
      (fun a b c hab hbc => by
        rw [decide_eq_true_eq] at hab hbc ⊢
        exact Nat.le_trans hab hbc)
      (fun a b => by simpa using Nat.le_total a.id.number b.id.number) cards
  refine List.Perm.eq_of_pairwise (fun a b ha hb hab hba => ?_) (hsorted cards) (hsorted cards')
    ((List.mergeSort_perm ..).trans (h.trans (List.mergeSort_perm ..).symm))
  have ha : a ∈ cards := (List.mergeSort_perm ..).mem_iff.mp ha
  have hb : b ∈ cards := h.mem_iff.mpr ((List.mergeSort_perm ..).mem_iff.mp hb)
  have hid : a.id = b.id := congrArg InstanceId.mk (Nat.le_antisymm hab hba)
  exact List.inj_on_of_nodup_map hnodup ha hb hid

namespace Duel

variable {a b d : Duel}

theorem mem_snapshot_cards {c : Card} : c ∈ d.snapshot.cards ↔ c ∈ d.cards :=
  (List.mergeSort_perm ..).mem_iff

theorem snapshot_of_perm {cards : List Card} (hd : d.Sound) (h : cards ~ d.cards) :
    ({ d with cards } : Duel).snapshot = d.snapshot := by
  have hcards := mergeSort_eq_of_perm h.symm hd.nodup_ids
  simp only [snapshot, seats, ← hcards]

/-- The duels agree on all that a snapshot is of: whose turn it is, the
next free card number, the generator, both seats in order, with the zones
and their cards and with all stats, and which cards there are, with all
that is known of them. -/
structure Agrees (a b : Duel) : Prop where
  current : a.current = b.current
  nextInstance : a.nextInstance = b.nextInstance
  generator : a.generator = b.generator
  seats : a.seats = b.seats
  cards : ∀ c, c ∈ a.cards ↔ c ∈ b.cards

theorem snapshot_eq_iff (ha : a.Sound) (hb : b.Sound) : a.snapshot = b.snapshot ↔ a.Agrees b := by
  constructor
  · intro h
    refine ⟨congrArg Snapshot.current h, congrArg Snapshot.nextInstance h,
      congrArg Snapshot.generator h, congrArg Snapshot.seats h, fun c => ?_⟩
    rw [← mem_snapshot_cards, ← mem_snapshot_cards, h]
  · intro h
    have hperm : a.cards ~ b.cards :=
      (List.perm_ext_iff_of_nodup ha.nodup_ids.of_map hb.nodup_ids.of_map).mpr h.cards
    simp only [snapshot, h.current, h.nextInstance, h.generator, h.seats,
      mergeSort_eq_of_perm hperm ha.nodup_ids]

end Duel

/-! ## §2 Generators -/

namespace Random.Generator

open KeyStream (period)

theorem position_search_lt {seed : UInt64} {span : Nat} :
    ∀ {tries position : Nat}, position < period → (search seed span tries position).2 < period
  | 0, _, h => h
  | tries + 1, position, _ => by
    have hnext : (position + 2) % period < period := Nat.mod_lt _ (by decide)
    rw [search]
    split
    · exact hnext
    · exact position_search_lt hnext

theorem position_below_lt {span : Nat} {g : Generator} (h : g.position < period) :
    (g.below span).2.position < period := by
  have hsearch := @position_search_lt g.seed span (period / 2) g.position h
  rw [below]
  exact hsearch

theorem position_range_lt {low high : Points} {g : Generator} (h : g.position < period) :
    (g.range low high).2.position < period := by
  unfold range
  split
  · exact h
  · exact position_below_lt h

/-- A draw leaves the generator within the period of its stream. -/
theorem Draws.position_lt {g g' : Generator} (hg : g.Draws g') (h : g.position < period) :
    g'.position < period := by
  cases hg with
  | amount a =>
    cases a with
    | constant value => exact h
    | random low high => exact position_range_lt h
  | place length =>
    unfold index?
    split
    · exact h
    · split
      · exact position_range_lt h
      · exact h

end Random.Generator

/-- **The generator stays within its period** in every duel that is reached. -/
theorem Reached.position_lt {log : List Action} {d : Duel} (h : Reached log d) :
    d.generator.position < Random.KeyStream.period := by
  refine Reached.books (P := fun _ g => g.position < Random.KeyStream.period) ?_ ?_ ?_ h
  · exact
      { extend := fun h _ => h
        draw := fun h hg => hg.position_lt h
        call := fun _ _ _ h => h
        write := fun h _ _ _ => h
        swap := fun h => h
        tell := fun h => h }
  · intro i B b block changes block' h _ _
    exact h
  · intro catalog seed p q
    show 0 < Random.KeyStream.period
    decide

/-! ## §3 Bytes -/

/-- The numbers of the duel fit the widths that they have in a snapshot:
cards are numbered in four bytes, draws are counted in eight, and so are
the bytes of the snapshot, and with them the members of each of its lists
and the letters of each of its texts. -/
structure Duel.Fits (d : Duel) : Prop where
  nextInstance : d.nextInstance.number < 2 ^ 32
  calls : d.generator.calls < 2 ^ 64
  bytes : d.snapshotBytes.length < 2 ^ 64

theorem fits_stats (block : StatBlock) : Legible.Fits block :=
  fun _ _ => ⟨trivial, trivial, trivial, trivial, fun _ _ => ⟨trivial, trivial⟩⟩

theorem Duel.Sound.snapshot_fits {d : Duel} (hd : d.Sound) (hfits : d.Fits)
    (hposition : d.generator.position < Random.KeyStream.period) : Legible.Fits d.snapshot := by
  have hcard : ∀ c ∈ d.cards, c.id.number < 2 ^ 32 := by
    intro c hc
    have hmem : c.id ∈ d.cards.map Card.id := List.mem_map_of_mem hc
    rw [hd.ids_eq.2] at hmem
    obtain ⟨n, hn, hid⟩ := List.mem_map.mp hmem
    rw [List.mem_range'_1] at hn
    rw [← hid]
    have hnext := hfits.nextInstance
    show n < 2 ^ 32
    omega
  have hzone : ∀ s ∈ d.seats, ∀ z ∈ s.zones, ∀ id ∈ z.cards, id.number < 2 ^ 32 := by
    intro s hs z hz id hid
    have hheld : id ∈ s.held := List.mem_flatMap.mpr ⟨z, hz, hid⟩
    obtain ⟨c, hc, rfl, -⟩ := hd.owner_of_mem_held hs hheld
    exact hcard c hc
  have hstream : d.generator.position < 2 ^ 128 := Nat.lt_trans hposition (by decide)
  refine ⟨trivial, hfits.nextInstance, ⟨hstream, hfits.calls⟩, ?_, ?_⟩
  · intro s hs
    exact ⟨trivial, fun z hz => ⟨⟨trivial, trivial, trivial, trivial⟩, hzone s hs z hz⟩,
      fits_stats s.stats⟩
  · intro c hc
    exact ⟨hcard c (mem_snapshot_cards.mp hc), trivial, trivial, trivial, fits_stats c.stats⟩

/-- The bytes tell all that is in a snapshot. -/
theorem Reached.snapshot_eq {log log' : List Action} {a b : Duel} (ha : Reached log a)
    (hb : Reached log' b) (hfits : a.Fits) (hfits' : b.Fits)
    (h : a.snapshotBytes = b.snapshotBytes) : a.snapshot = b.snapshot := by
  have h : bytes a.snapshot ++ [] = bytes b.snapshot ++ [] := congrArg (· ++ []) h
  exact (Legible.split (ha.sound.snapshot_fits hfits ha.position_lt)
    (hb.sound.snapshot_fits hfits' hb.position_lt) hfits.bytes hfits'.bytes h).1

/-- **Snapshots are canonical and lossless.** Two duels that are reached,
on whatever catalogs, have the same snapshot bytes exactly when they
agree: duels that agree always have, and no two others have as long as
their numbers fit. The order in which the cards are kept does not matter
to the bytes. -/
theorem snapshot_canonical {log log' : List Action} {a b : Duel} (ha : Reached log a)
    (hb : Reached log' b) :
    (a.Agrees b → a.snapshotBytes = b.snapshotBytes) ∧
    (a.Fits → b.Fits → a.snapshotBytes = b.snapshotBytes → a.Agrees b) ∧
    (∀ cards, cards ~ a.cards → ({ a with cards } : Duel).snapshotBytes = a.snapshotBytes) := by
  have hsnapshot := Duel.snapshot_eq_iff ha.sound hb.sound
  refine ⟨fun h => congrArg bytes (hsnapshot.mpr h), fun hfits hfits' h => hsnapshot.mp ?_,
    fun cards hcards => congrArg bytes (Duel.snapshot_of_perm ha.sound hcards)⟩
  exact ha.snapshot_eq hb hfits hfits' h

/-- Whose turn it is can be told from the bytes of a snapshot. -/
theorem snapshots_of_turns :
    ∃ a b, Reached [] a ∧ Reached [.setCurrent ⟨2⟩] b ∧ a.Fits ∧ b.Fits ∧
      a.snapshotBytes ≠ b.snapshotBytes := by
  obtain ⟨a, ha, hcurrent, hnext, hcalls, hbytes⟩ :=
    @Reached.exists_of_performAll 0 (Starter.catalog {}) 7 ⟨⟨1⟩, [⟨1⟩]⟩ ⟨⟨2⟩, []⟩ []
      (fun d => d.current = ⟨1⟩ ∧ d.nextInstance.number < 2 ^ 32 ∧ d.generator.calls < 2 ^ 64 ∧
        d.snapshotBytes.length < 2 ^ 64)
      (by decide +kernel)
  obtain ⟨b, hb, hcurrent', hnext', hcalls', hbytes'⟩ :=
    @Reached.exists_of_performAll 0 (Starter.catalog {}) 7 ⟨⟨1⟩, [⟨1⟩]⟩ ⟨⟨2⟩, []⟩
      [.setCurrent ⟨2⟩]
      (fun d => d.current = ⟨2⟩ ∧ d.nextInstance.number < 2 ^ 32 ∧ d.generator.calls < 2 ^ 64 ∧
        d.snapshotBytes.length < 2 ^ 64)
      (by decide +kernel)
  have hfits : a.Fits := ⟨hnext, hcalls, hbytes⟩
  have hfits' : b.Fits := ⟨hnext', hcalls', hbytes'⟩
  refine ⟨a, b, ha, hb, hfits, hfits', fun h => ?_⟩
  have hsame := ((snapshot_canonical ha hb).2.1 hfits hfits' h).current
  rw [hcurrent, hcurrent'] at hsame
  cases hsame

end CardDuel
