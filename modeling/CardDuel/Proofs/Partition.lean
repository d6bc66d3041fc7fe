/-
CardDuel.Proofs.Partition — no card is lost, doubled or given away.

In every duel that actions lead to, the cards are numbered without gaps
and the zones of the two players divide them up: each card lies in one
place of one zone, and the zone is its owner's. It does not matter which
actions were refused, nor where a chain was cut off: a chain may end
between a move and its triggers, but never in the middle of a transfer.
-/
import CardDuel.Catalog.Starter
import CardDuel.Proofs.Reached

namespace CardDuel

namespace Duel.Sound

variable {d : Duel} (hd : d.Sound)
include hd

theorem ids_eq :
    0 < d.nextInstance.number ∧
      d.cards.map Card.id = (List.range' 1 (d.nextInstance.number - 1)).map InstanceId.mk := by
  have hlength : d.nextInstance = ⟨d.cards.length + 1⟩ := by
    simpa [Duel.fixture] using hd.fixture.next
  have hnumbers : d.cards.map Card.id = (List.range d.cards.length).map fun i => ⟨i + 1⟩ := by
    simpa [Duel.fixture] using d.ids_fixture.symm.trans hd.fixture.numbers
  rw [hlength, hnumbers, List.range'_eq_map_range]
  refine ⟨Nat.succ_pos _, ?_⟩
  simp [Function.comp_def, Nat.add_comm]

/-- What the zones hold are the cards of the table. -/
theorem held_perm : d.held.Perm (d.cards.map Card.id) := by
  -- Who does not belong to the first player belongs to the second.
  have hfilter : d.fixture.cards.filter (·.owner = d.second.id) =
      d.fixture.cards.filter fun t => !decide (t.owner = d.first.id) := by
    refine List.filter_congr fun t ht => ?_
    have hne : d.first.id ≠ d.second.id := hd.fixture.distinct
    rcases List.mem_cons.mp (hd.fixture.owners t ht) with howner | howner
    · have howner : t.owner = d.first.id := howner
      simp [howner, hne]
    · have howner : t.owner = d.second.id := List.mem_singleton.mp howner
      simp [howner, hne.symm]
  have hsplit : (d.fixture.owned d.first.id ++ d.fixture.owned d.second.id).Perm
      (d.fixture.cards.map CardTag.id) := by
    rw [Fixture.owned, Fixture.owned, hfilter, ← List.map_append]
    exact (List.filter_append_perm _ d.fixture.cards).map CardTag.id
  have hheld : d.held = d.first.held ++ d.second.held := by simp [Duel.held, Duel.seats]
  rw [hheld, ← d.ids_fixture]
  refine List.Perm.trans ?_ hsplit
  exact (hd.laid.dealt d.first (by simp [Duel.seats])).append
    (hd.laid.dealt d.second (by simp [Duel.seats]))

theorem count_held {c : Card} (hc : c ∈ d.cards) : d.held.count c.id = 1 := by
  rw [hd.held_perm.count_eq]
  exact List.count_eq_one_of_mem hd.nodup_ids (List.mem_map_of_mem hc)

theorem owner_of_mem_held {s : Seat} (hs : s ∈ d.seats) {id : InstanceId} (hid : id ∈ s.held) :
    ∃ c ∈ d.cards, c.id = id ∧ c.owner = s.id := by
  have howned := (hd.laid.dealt s hs).mem_iff.mp hid
  obtain ⟨t, ht, howner⟩ := hd.fixture.mem_owned_iff.mp howned
  obtain ⟨hmem, hid⟩ := Fixture.tag?_id ht
  obtain ⟨c, hc, rfl⟩ := List.mem_map.mp hmem
  exact ⟨c, hc, hid, howner⟩

theorem location_of_mem {c : Card} (hc : c ∈ d.cards) :
    ∃ place z, d.location? c.id = some (c.owner, place) ∧ d.zone c.owner place = .ok z ∧
      c.id ∈ z.cards := by
  obtain ⟨place, hplace⟩ := hd.laid.exists_location? hd.fixture (hd.tag?_of_mem hc)
  obtain ⟨z, hz, hin⟩ := (hd.laid.location?_eq_some_iff hd.fixture).mp hplace
  exact ⟨place, z, hplace, hz, hin⟩

end Duel.Sound

/-- **The zones divide the cards up.** In every duel that is reached, the
cards have the numbers from one up to the next free one; over all zones
of both players together each card lies in exactly one place, and there
is nothing else in the zones; a card lies with its owner, where the
look-up of its location finds it; and a further action leaves the cards
there are with their numbers, prints, types and owners. -/
theorem reached_partition {log : List Action} {d : Duel} (h : Reached log d) :
    (0 < d.nextInstance.number ∧
      d.cards.map Card.id = (List.range' 1 (d.nextInstance.number - 1)).map InstanceId.mk) ∧
    (d.held.Perm (d.cards.map Card.id) ∧ ∀ c ∈ d.cards, d.held.count c.id = 1) ∧
    (∀ s ∈ d.seats, ∀ id ∈ s.held, ∃ c ∈ d.cards, c.id = id ∧ c.owner = s.id) ∧
    (∀ c ∈ d.cards, ∃ place z, d.location? c.id = some (c.owner, place) ∧
      d.zone c.owner place = .ok z ∧ c.id ∈ z.cards) ∧
    (∀ limit a d', (d.perform limit a).state? = some d' →
      d.cards.map Card.tag <+: d'.cards.map Card.tag) := by
  have hd := h.sound
  refine ⟨hd.ids_eq, ⟨hd.held_perm, fun c hc => hd.count_held hc⟩,
    fun s hs id hid => hd.owner_of_mem_held hs hid, fun c hc => hd.location_of_mem hc,
    fun limit a d' hd' => ?_⟩
  cases hrun : d.perform limit a with
  | done reply d₁ =>
    rw [hrun] at hd'
    cases hd'
    exact (hd.perform_done hrun).2.cards_grow
  | refused e d₁ =>
    rw [hrun] at hd'
    cases hd'
    have hcards : d'.cards.map Card.tag = d.cards.map Card.tag :=
      congrArg Fixture.cards (hd.sound_of_refused hrun).2
    exact hcards ▸ List.prefix_rfl
  | fault cause => rw [hrun] at hd'; cases hd'

/-- A spell is played where no call is allowed: the move is cut off
before its triggers, and the zones still divide the cards up. -/
theorem partition_of_cut_off_move :
    ∃ d e d', Duel.start (Starter.catalog {}) 7 ⟨⟨1⟩, [⟨1⟩, ⟨2⟩]⟩ ⟨⟨2⟩, [⟨1⟩]⟩ = .ok d ∧
      d.perform 0 (.move ⟨1⟩ ⟨2⟩ Starter.deck Starter.board {}) = .refused e d' ∧ d' ≠ d ∧
      d'.held.Perm (d'.cards.map Card.id) := by
  obtain ⟨d, e, d', hstart, hrefused, hne⟩ :
      ∃ d e d', Duel.start (Starter.catalog {}) 7 ⟨⟨1⟩, [⟨1⟩, ⟨2⟩]⟩ ⟨⟨2⟩, [⟨1⟩]⟩ = .ok d ∧
        d.perform 0 (.move ⟨1⟩ ⟨2⟩ Starter.deck Starter.board {}) = .refused e d' ∧ d' ≠ d :=
    ⟨_, _, _, rfl, rfl, by decide⟩
  exact ⟨d, e, d', hstart, hrefused, hne,
    (reached_partition (.refused (.start hstart) hrefused)).2.1.1⟩

end CardDuel
