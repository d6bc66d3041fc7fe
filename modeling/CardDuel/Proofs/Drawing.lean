/-
CardDuel.Proofs.Drawing — what a draw takes and leaves.

A draw works on one seat: `Seat.draws` is the loop without the duel
around it, and a draw of cards puts the seat that it gives in the place
of the player's. So two draws in a row are one draw of both counts, and
draws of different players do not see each other. When deck and hand are
different zones, the loop comes to one cut of the deck: the top cards go
to the hand in the order in which they are drawn.

All this holds as long as a list can be made for the cards that are asked
for (`drawCapacity`), however few the deck has. A larger count is a fault,
before any card is drawn.

  §1 Draws of a seat  — the loop, its sums, and its result in one step.
  §2 Draws of a duel  — the computation, and the seats that it changes.
  §3 Duels            — all duels that actions and queries lead to.
-/
import CardDuel.Catalog.Starter
import CardDuel.Proofs.Piles
import CardDuel.Proofs.Queries

namespace CardDuel

open Engine Play

/-! ## §1 Draws of a seat -/

namespace Seat

/-- The seat after a draw of a card, which was on top of the deck. -/
def drawn (r : Rules) (s : Seat) (card : InstanceId) : Seat :=
  (s.modifyZone r.deck (·.dropTop)).modifyZone r.hand (·.push card)

/-- Draws, one by one, up to a number of cards: the cards in the order
drawn, and the seat after the draws. -/
def draws (r : Rules) : Nat → Seat → List InstanceId × Seat
  | 0, s => ([], s)
  | n + 1, s =>
    match (s.zone? r.deck).bind Zone.top? with
    | none => ([], s)
    | some card =>
      let (others, s') := draws r n (s.drawn r card)
      (card :: others, s')

variable {r : Rules} {s : Seat} {card : InstanceId} {z : Zone}

theorem draws_of_top (h : (s.zone? r.deck).bind Zone.top? = some card) (n : Nat) :
    s.draws r (n + 1) =
      (card :: ((s.drawn r card).draws r n).1, ((s.drawn r card).draws r n).2) := by
  rw [draws, h]

theorem draws_of_empty (h : (s.zone? r.deck).bind Zone.top? = none) (n : Nat) :
    s.draws r n = ([], s) := by
  cases n with
  | zero => rfl
  | succ n => rw [draws, h]

@[simp] theorem id_draws (n : Nat) : (s.draws r n).2.id = s.id := by
  induction n generalizing s with
  | zero => rfl
  | succ n ih =>
    cases h : (s.zone? r.deck).bind Zone.top? with
    | none => rw [draws_of_empty h]
    | some card => rw [draws_of_top h]; exact ih

theorem isSome_zone?_drawn {id : ZoneId} (h : (s.zone? id).isSome) :
    ((s.drawn r card).zone? id).isSome := by
  rw [drawn, zone?_modifyZone (f := (·.push card)) fun _ => rfl,
    zone?_modifyZone (f := Zone.dropTop) fun _ => rfl,
    zone?_modifyZone (f := Zone.dropTop) fun _ => rfl]
  by_cases h₁ : id = r.hand <;> by_cases h₂ : id = r.deck <;> simp_all

/-- Two draws in a row are one draw of both counts. -/
theorem draws_add (m n : Nat) :
    s.draws r (m + n) =
      ((s.draws r m).1 ++ ((s.draws r m).2.draws r n).1, ((s.draws r m).2.draws r n).2) := by
  induction m generalizing s with
  | zero => simp [draws]
  | succ m ih =>
    cases h : (s.zone? r.deck).bind Zone.top? with
    | none => simp [draws_of_empty h]
    | some card =>
      rw [Nat.succ_add, draws_of_top h, draws_of_top h, ih]
      rfl

/-- **Drawing cuts the deck.** What is drawn are the top cards, from the
top down; the deck keeps the cards below them. -/
theorem draws_eq (h : s.Distinct) (hne : r.deck ≠ r.hand) (hz : s.zone? r.deck = some z) (n : Nat) :
    s.draws r n =
      (z.top n, (s.modifyZone r.deck (·.dropTops n)).modifyZone r.hand (·.pushAll (z.top n))) := by
  induction n generalizing s z with
  | zero => simp [draws, Zone.top, Zone.dropTops_zero, Zone.pushAll_nil, modifyZone_id]
  | succ n ih =>
    cases htop : z.top? with
    | none =>
      have hcards := Zone.cards_of_top?_eq_none htop
      have hdeck : s.modifyZone r.deck (·.dropTops (n + 1)) = s :=
        modifyZone_eq_self h hz (by cases z; simp_all [Zone.dropTops])
      rw [draws_of_empty (by simp [hz, htop]), hdeck]
      simp [Zone.top, hcards, Zone.pushAll_nil, modifyZone_id]
    | some card =>
      have hcard : (s.zone? r.deck).bind Zone.top? = some card := by simp [hz, htop]
      have hdeck : (s.drawn r card).zone? r.deck = some z.dropTop := by
        rw [drawn, zone?_modifyZone (f := (·.push card)) fun _ => rfl, if_neg hne,
          zone?_modifyZone (f := Zone.dropTop) fun _ => rfl, if_pos rfl, hz]
        rfl
      have hdistinct : (s.drawn r card).Distinct :=
        Distinct.modifyZone (f := (·.push card)) (h.modifyZone (f := Zone.dropTop) fun _ => rfl)
          fun _ => rfl
      rw [draws_of_top hcard, ih hdistinct hdeck, Zone.top_succ htop]
      -- Deck and hand differ, so the two changes of each of them come together.
      rw [drawn, modifyZone_comm hne.symm (·.push card) (·.dropTops n) (fun _ => rfl) fun _ => rfl,
        modifyZone_modifyZone Zone.dropTop _ fun _ => rfl,
        modifyZone_modifyZone (·.push card) _ fun _ => rfl]
      simp only [Zone.dropTops_dropTop, Zone.pushAll_push]

end Seat

/-! ## §2 Draws of a duel -/

namespace Duel

variable {d : Duel} {p q : PlayerId} {st : Seat}

/-- The duel after draws of a player. -/
def afterDraws (d : Duel) (p : PlayerId) (n : Nat) : Duel :=
  d.modifySeat p fun st => (st.draws d.catalog.rules n).2

@[simp] theorem catalog_afterDraws (n : Nat) : (d.afterDraws p n).catalog = d.catalog :=
  catalog_modifySeat _

theorem seat_afterDraws (n : Nat) :
    (d.afterDraws p n).seat q =
      if q = p then (d.seat p).map fun st => (st.draws d.catalog.rules n).2 else d.seat q :=
  seat_modifySeat fun _ => Seat.id_draws n

theorem afterDraws_afterDraws (m n : Nat) :
    (d.afterDraws p m).afterDraws p n = d.afterDraws p (m + n) := by
  unfold afterDraws
  rw [modifySeat_modifySeat fun _ => Seat.id_draws m, catalog_modifySeat]
  simp only [Seat.draws_add]

theorem afterDraws_comm (hne : p ≠ q) (m n : Nat) :
    (d.afterDraws p m).afterDraws q n = (d.afterDraws q n).afterDraws p m := by
  unfold afterDraws
  rw [catalog_modifySeat, catalog_modifySeat]
  exact modifySeat_comm hne (fun _ => Seat.id_draws m) fun _ => Seat.id_draws n

theorem afterDraws_zero : d.afterDraws p 0 = d := modifySeat_id

theorem drawn_eq_modifySeat (card : InstanceId) :
    d.drawn p card = d.modifySeat p (·.drawn d.catalog.rules card) := by
  unfold drawn modifyZone
  rw [modifySeat_modifySeat (f := (·.modifyZone d.catalog.rules.deck Zone.dropTop)) fun _ => rfl]
  rfl

theorem afterDraws_of_top {card : InstanceId} (hst : d.seat p = .ok st)
    (h : (st.zone? d.catalog.rules.deck).bind Zone.top? = some card) (n : Nat) :
    d.afterDraws p (n + 1) = (d.drawn p card).afterDraws p n := by
  rw [drawn_eq_modifySeat]
  unfold afterDraws
  rw [modifySeat_modifySeat (f := (·.drawn d.catalog.rules card)) fun _ => rfl, catalog_modifySeat]
  exact modifySeat_congr hst (by rw [Seat.draws_of_top h])

theorem afterDraws_of_empty (hst : d.seat p = .ok st)
    (h : (st.zone? d.catalog.rules.deck).bind Zone.top? = none) (n : Nat) : d.afterDraws p n = d :=
  (modifySeat_congr hst (by rw [Seat.draws_of_empty h])).trans modifySeat_id

end Duel

/-- The loop of a draw is `Seat.draws` on the seat of the player. -/
theorem drawLoop_eq {p : PlayerId} (n : Nat) {s : Scene} {st : Seat} (hst : s.duel.seat p = .ok st)
    (hdeck : (st.zone? s.duel.catalog.rules.deck).isSome) :
    drawLoop p n s =
      .done (st.draws s.duel.catalog.rules n).1 { s with duel := s.duel.afterDraws p n } := by
  induction n generalizing s st with
  | zero =>
    rw [Duel.afterDraws_zero]
    rfl
  | succ n ih =>
    obtain ⟨z, hz⟩ := Option.isSome_iff_exists.mp hdeck
    have hzone : s.duel.zone p s.duel.catalog.rules.deck = .ok z :=
      Duel.zone_eq_ok.mpr ⟨st, hst, hz⟩
    rw [drawLoop, bind_duel, bind_of_done (find_of_ok hzone)]
    cases htop : z.top? with
    | none =>
      have hempty : (st.zone? s.duel.catalog.rules.deck).bind Zone.top? = none := by
        rw [hz]
        exact htop
      rw [Seat.draws_of_empty hempty, Duel.afterDraws_of_empty hst hempty]
      rfl
    | some card =>
      have hcard : (st.zone? s.duel.catalog.rules.deck).bind Zone.top? = some card := by
        rw [hz]
        exact htop
      have hst' : (s.duel.drawn p card).seat p = .ok (st.drawn s.duel.catalog.rules card) := by
        rw [Duel.drawn_eq_modifySeat,
          Duel.seat_modifySeat (f := (·.drawn s.duel.catalog.rules card)) fun _ => rfl, if_pos rfl,
          hst]
        rfl
      have hcatalog : (s.duel.drawn p card).catalog = s.duel.catalog := by
        rw [Duel.drawn_eq_modifySeat, Duel.catalog_modifySeat]
      have hrest := ih (s := { s with duel := s.duel.drawn p card }) hst' (by
        rw [hcatalog]
        exact Seat.isSome_zone?_drawn hdeck)
      rw [hcatalog] at hrest
      rw [Duel.afterDraws_of_top hst hcard, Seat.draws_of_top hcard]
      exact bind_of_done hrest

theorem Duel.seat_eq_error {d : Duel} {p : PlayerId} (hp : p ∉ d.fixture.players) :
    d.seat p = .error (.playerNotFound p) := by
  have hnone (st : Seat) : d.seat p ≠ .ok st := fun hst => hp (seat_isOk_iff.mp ⟨st, hst⟩)
  unfold seat at hnone ⊢
  split
  · rename_i hfirst
    exact absurd (if_pos hfirst) (hnone d.first)
  · rename_i hfirst
    split
    · rename_i hsecond
      exact absurd ((if_neg hfirst).trans (if_pos hsecond)) (hnone d.second)
    · rfl

/-- A draw of somebody who does not play is refused, before room is made. -/
theorem Duel.record_draw_of_not_mem {d : Duel} {p : PlayerId} (hp : p ∉ d.fixture.players)
    (limit n : Nat) :
    d.record limit (.draw p n) = .refused (.lookup (.playerNotFound p)) ⟨d, [], 0⟩ := by
  have hzone : d.zone p d.catalog.rules.deck = .error (.playerNotFound p) := by
    rw [Duel.zone, Duel.seat_eq_error hp]
    rfl
  show (drawCards p n >>= fun ids => pure (Reply.cards ids)) ⟨d, [], 0⟩ = _
  rw [drawCards, bind_eq, bind_duel, bind_eq, find, hzone]

namespace Duel.Sound

variable {d : Duel} {p : PlayerId} {st : Seat} (hd : d.Sound)
include hd

theorem zones_of_seat (hst : d.seat p = .ok st) :
    (∃ deck, d.zone p d.catalog.rules.deck = .ok deck) ∧
      ∃ hand, d.zone p d.catalog.rules.hand = .ok hand := by
  have hp := seat_isOk_iff.mp ⟨st, hst⟩
  exact ⟨hd.laid.exists_zone hp hd.fixture.closed.deck,
    hd.laid.exists_zone hp hd.fixture.closed.hand⟩

/-- A draw for which there is room is done, and nothing happens in the
course of it. -/
theorem record_draw (hst : d.seat p = .ok st) (limit : Nat) {n : Nat} (hn : n ≤ drawCapacity) :
    d.record limit (.draw p n) =
      .done (.cards (st.draws d.catalog.rules n).1) ⟨d.afterDraws p n, [], 0⟩ := by
  obtain ⟨⟨deck, hdeck⟩, hand, hhand⟩ := hd.zones_of_seat hst
  obtain ⟨st', hst', hzone⟩ := zone_eq_ok.mp hdeck
  cases hst.symm.trans hst'
  have hloop := drawLoop_eq n (s := ⟨d, [], 0⟩) hst (by rw [hzone]; rfl)
  have hrun : drawCards p n ⟨d, [], 0⟩ =
      .done (st.draws d.catalog.rules n).1 ⟨d.afterDraws p n, [], 0⟩ := by
    rw [drawCards, bind_duel, bind_of_done (find_of_ok hdeck), bind_of_done (find_of_ok hhand),
      bind_of_done (sound_of_ok (makeRoom_of_le hn))]
    exact hloop
  exact bind_of_done hrun

theorem perform_draw (hst : d.seat p = .ok st) (limit : Nat) {n : Nat} (hn : n ≤ drawCapacity) :
    d.perform limit (.draw p n) =
      .done (.cards (st.draws d.catalog.rules n).1) (d.afterDraws p n) := by
  rw [perform, hd.record_draw hst limit hn]
  rfl

/-- A draw for which there is no room is a fault, whatever the deck has. -/
theorem record_draw_of_lt (hst : d.seat p = .ok st) (limit : Nat) {n : Nat}
    (hn : drawCapacity < n) : d.record limit (.draw p n) = .fault .capacityOverflow := by
  obtain ⟨⟨deck, hdeck⟩, hand, hhand⟩ := hd.zones_of_seat hst
  have hrun : drawCards p n ⟨d, [], 0⟩ = .fault .capacityOverflow := by
    rw [drawCards, bind_duel, bind_of_done (find_of_ok hdeck), bind_of_done (find_of_ok hhand)]
    exact bind_of_fault (sound_of_error (makeRoom_of_lt hn))
  exact bind_of_fault hrun

theorem afterDraws (hst : d.seat p = .ok st) {n : Nat} (hn : n ≤ drawCapacity) :
    (d.afterDraws p n).Sound := by
  have hrun : (d.perform 0 (.draw p n)).state? = some (d.afterDraws p n) := by
    rw [hd.perform_draw hst 0 hn]
    rfl
  exact (hd.sound_of_state hrun).1

/-- A draw after a draw of the same player goes on with what is left. -/
theorem perform_draw_afterDraws (hst : d.seat p = .ok st) (limit : Nat) {m n : Nat}
    (hm : m ≤ drawCapacity) (hn : n ≤ drawCapacity) :
    (d.afterDraws p m).perform limit (.draw p n) =
      .done (.cards ((st.draws d.catalog.rules m).2.draws d.catalog.rules n).1)
        (d.afterDraws p (m + n)) := by
  have hleft : (d.afterDraws p m).seat p = .ok (st.draws d.catalog.rules m).2 := by
    rw [seat_afterDraws, if_pos rfl, hst]
    rfl
  rw [(hd.afterDraws hst hm).perform_draw hleft limit hn, catalog_afterDraws,
    afterDraws_afterDraws]

/-- A draw after a draw of the other player finds the seat as it was. -/
theorem perform_draw_afterDraws_of_ne {q : PlayerId} {st' : Seat} (hst : d.seat p = .ok st)
    (hst' : d.seat q = .ok st') (hne : p ≠ q) (limit : Nat) {m n : Nat} (hm : m ≤ drawCapacity)
    (hn : n ≤ drawCapacity) :
    (d.afterDraws p m).perform limit (.draw q n) =
      .done (.cards (st'.draws d.catalog.rules n).1) ((d.afterDraws p m).afterDraws q n) := by
  have hother : (d.afterDraws p m).seat q = .ok st' := by
    rw [seat_afterDraws, if_neg hne.symm, hst']
  rw [(hd.afterDraws hst hm).perform_draw hother limit hn, catalog_afterDraws]

section

variable {deck hand : Zone} (hst : d.seat p = .ok st)
variable (hne : d.catalog.rules.deck ≠ d.catalog.rules.hand)
variable (hdeck : d.zone p d.catalog.rules.deck = .ok deck)
include hst hne hdeck

theorem draws_eq (n : Nat) :
    st.draws d.catalog.rules n =
      (deck.top n, (st.modifyZone d.catalog.rules.deck (·.dropTops n)).modifyZone
        d.catalog.rules.hand (·.pushAll (deck.top n))) := by
  obtain ⟨st', hst', hzone⟩ := zone_eq_ok.mp hdeck
  cases hst.symm.trans hst'
  exact Seat.draws_eq (hd.laid.distinct hd.fixture.closed.zones (seat_eq_ok hst).1) hne hzone n

/-- Draws write two zones, when deck and hand are different ones. -/
theorem afterDraws_eq (n : Nat) :
    d.afterDraws p n =
      (d.modifyZone p d.catalog.rules.deck (·.dropTops n)).modifyZone p d.catalog.rules.hand
        (·.pushAll (deck.top n)) := by
  unfold modifyZone
  rw [modifySeat_modifySeat (f := (·.modifyZone d.catalog.rules.deck (·.dropTops n))) fun _ => rfl]
  exact modifySeat_congr hst (by rw [hd.draws_eq hst hne hdeck])

theorem zone_afterDraws (hhand : d.zone p d.catalog.rules.hand = .ok hand) (n : Nat)
    (q : PlayerId) (id : ZoneId) :
    (d.afterDraws p n).zone q id =
      if q = p ∧ id = d.catalog.rules.hand then .ok (hand.pushAll (deck.top n))
      else if q = p ∧ id = d.catalog.rules.deck then .ok (deck.dropTops n)
      else d.zone q id := by
  have hkept : (d.modifyZone p d.catalog.rules.deck (·.dropTops n)).zone p
      d.catalog.rules.hand = .ok hand := by
    rw [zone_modifyZone (f := (·.dropTops n)) fun _ => rfl, if_neg (fun h => hne h.2.symm), hhand]
  rw [hd.afterDraws_eq hst hne hdeck,
    zone_modifyZone (f := (·.pushAll (deck.top n))) fun _ => rfl, hkept,
    zone_modifyZone (f := (·.dropTops n)) fun _ => rfl, hdeck]
  rfl

end

end Duel.Sound

/-! ## §3 Duels -/

/-- A draw takes cards from the top of the deck to the hand of a player,
and leaves everything else as it is. -/
structure Duel.TakesFromTop (d : Duel) (p : PlayerId) (n : Nat) (deck hand : Zone)
    (ids : List InstanceId) (d' : Duel) : Prop where
  found : d.zone p d.catalog.rules.deck = .ok deck ∧ d.zone p d.catalog.rules.hand = .ok hand
  /-- The cards are drawn from the top down. -/
  drawn : ids = deck.cards.reverse.take n
  length : ids.length = min n deck.cards.length
  nodup : ids.Nodup
  /-- The cards below those drawn stay in the deck, in their order. -/
  rest : ∃ kept, deck.cards = kept ++ ids.reverse ∧
    d'.zone p d.catalog.rules.deck = .ok { deck with cards := kept }
  /-- The cards come on top of the hand, the first drawn below the others. -/
  hand : d'.zone p d.catalog.rules.hand = .ok { hand with cards := hand.cards ++ ids }
  /-- Only these two zones of the player are written. -/
  only : d' =
    (d.modifyZone p d.catalog.rules.deck fun z =>
      { z with cards := z.cards.take (z.cards.length - n) }).modifyZone p d.catalog.rules.hand
        fun z => { z with cards := z.cards ++ ids }
  elsewhere : ∀ q id, (q = p → id ≠ d.catalog.rules.deck ∧ id ≠ d.catalog.rules.hand) →
    d'.zone q id = d.zone q id
  stats : ∀ b, d'.stats b = d.stats b
  generator : d'.generator = d.generator
  fixture : d'.fixture = d.fixture

theorem Duel.Sound.takesFromTop {d : Duel} {p : PlayerId} {st : Seat} (hd : d.Sound)
    (hst : d.seat p = .ok st) (hne : d.catalog.rules.deck ≠ d.catalog.rules.hand) (n : Nat) :
    ∃ deck hand,
      d.TakesFromTop p n deck hand (st.draws d.catalog.rules n).1 (d.afterDraws p n) := by
  obtain ⟨⟨deck, hdeck⟩, hand, hhand⟩ := hd.zones_of_seat hst
  have honly := hd.afterDraws_eq hst hne hdeck n
  have hzones := hd.zone_afterDraws hst hne hdeck hhand n
  rw [hd.draws_eq hst hne hdeck]
  refine ⟨deck, hand, ?_⟩
  constructor
  case found => exact ⟨hdeck, hhand⟩
  case drawn => rfl
  case length => exact Zone.length_top n
  case nodup => exact Zone.nodup_top (hd.laid.nodup_zone hd.fixture hdeck) n
  case rest =>
    refine ⟨_, Zone.cards_eq_dropTops_append_top n, ?_⟩
    rw [hzones, if_neg (fun h => hne h.2), if_pos ⟨rfl, rfl⟩]
    rfl
  case hand =>
    rw [hzones, if_pos ⟨rfl, rfl⟩]
    rfl
  case only => exact honly
  case elsewhere =>
    intro q id hother
    rw [hzones, if_neg (fun h => (hother h.1).2 h.2), if_neg (fun h => (hother h.1).1 h.2)]
  case stats =>
    intro b
    rw [honly, Duel.stats_modifyZone, Duel.stats_modifyZone]
  case generator =>
    rw [Duel.afterDraws, Duel.generator_modifySeat]
  case fixture =>
    rw [honly, Duel.fixture_modifyZone, Duel.fixture_modifyZone]

/-- **Draws add up, do not see each other, and cut the deck.** In every
duel that is visited, a draw of either player is done if a list can be made
for the cards, and is a fault otherwise. A draw after another one of the
same player gives the cards that are left over from one draw of both
counts, and ends in the same duel; draws of different players can be made
in either order. When deck and hand are different zones, the top cards of
the deck go to the hand one by one, and nothing else changes: no ability is
called up and no stat is written. A draw of somebody else is refused,
however many cards it is for, and the duel stays as it is. -/
theorem visited_draws {catalog : Catalog} {d : Duel} (h : Visited catalog d) (limit : Nat) :
    (∀ p, p ∉ d.fixture.players → ∀ n,
      d.record limit (.draw p n) = .refused (.lookup (.playerNotFound p)) ⟨d, [], 0⟩) ∧
    (∀ p ∈ d.fixture.players, ∀ n, drawCapacity < n →
      d.record limit (.draw p n) = .fault .capacityOverflow) ∧
    (∀ p ∈ d.fixture.players, ∀ m ≤ drawCapacity, ∀ n ≤ drawCapacity, ∃ ids ids' d₁ d₂,
      d.perform limit (.draw p m) = .done (.cards ids) d₁ ∧
      d₁.perform limit (.draw p n) = .done (.cards ids') d₂ ∧
      (m + n ≤ drawCapacity →
        d.perform limit (.draw p (m + n)) = .done (.cards (ids ++ ids')) d₂)) ∧
    (∀ p ∈ d.fixture.players, ∀ q ∈ d.fixture.players, p ≠ q →
      ∀ m ≤ drawCapacity, ∀ n ≤ drawCapacity, ∃ ids ids' d₁ d₂ d₃,
        d.perform limit (.draw p m) = .done (.cards ids) d₁ ∧
        d₁.perform limit (.draw q n) = .done (.cards ids') d₃ ∧
        d.perform limit (.draw q n) = .done (.cards ids') d₂ ∧
        d₂.perform limit (.draw p m) = .done (.cards ids) d₃) ∧
    (catalog.rules.deck ≠ catalog.rules.hand → ∀ p ∈ d.fixture.players, ∀ n ≤ drawCapacity,
      ∃ deck hand ids d', d.record limit (.draw p n) = .done (.cards ids) ⟨d', [], 0⟩ ∧
        d.TakesFromTop p n deck hand ids d') := by
  have hd := h.sound
  refine ⟨fun p hp n => ?_, fun p hp n hn => ?_, fun p hp m hm n hn => ?_,
    fun p hp q hq hne m hm n hn => ?_, fun hne p hp n hn => ?_⟩
  · exact Duel.record_draw_of_not_mem hp limit n
  · obtain ⟨st, hst⟩ := Duel.seat_isOk_iff.mpr hp
    exact hd.record_draw_of_lt hst limit hn
  · obtain ⟨st, hst⟩ := Duel.seat_isOk_iff.mpr hp
    refine ⟨_, _, _, _, hd.perform_draw hst limit hm, hd.perform_draw_afterDraws hst limit hm hn,
      fun hroom => ?_⟩
    rw [hd.perform_draw hst limit hroom, Seat.draws_add]
  · obtain ⟨st, hst⟩ := Duel.seat_isOk_iff.mpr hp
    obtain ⟨st', hst'⟩ := Duel.seat_isOk_iff.mpr hq
    have hrun := hd.perform_draw_afterDraws_of_ne hst hst' hne limit hm hn
    have hrun' := hd.perform_draw_afterDraws_of_ne hst' hst hne.symm limit hn hm
    rw [Duel.afterDraws_comm hne] at hrun
    exact ⟨_, _, _, _, _, hd.perform_draw hst limit hm, hrun, hd.perform_draw hst' limit hn, hrun'⟩
  · obtain ⟨st, hst⟩ := Duel.seat_isOk_iff.mpr hp
    obtain ⟨deck, hand, htakes⟩ := hd.takesFromTop hst (h.catalog_eq.symm ▸ hne) n
    exact ⟨deck, hand, _, _, hd.record_draw hst limit hn, htakes⟩

/-- The first player draws from a deck of three cards, and the second
player from what is left of theirs. -/
theorem draws_of_small_decks :
    ∃ d, Visited (Starter.catalog {}) d ∧ d.fixture.players = [⟨1⟩, ⟨2⟩] ∧
      (∃ ids ids' d₁ d₂, d.perform 64 (.draw ⟨1⟩ 2) = .done (.cards ids) d₁ ∧
        d₁.perform 64 (.draw ⟨1⟩ 2) = .done (.cards ids') d₂ ∧
        d.perform 64 (.draw ⟨1⟩ (2 + 2)) = .done (.cards (ids ++ ids')) d₂) ∧
      (∃ ids ids' d₁ d₂ d₃, d.perform 64 (.draw ⟨1⟩ 2) = .done (.cards ids) d₁ ∧
        d₁.perform 64 (.draw ⟨2⟩ 1) = .done (.cards ids') d₃ ∧
        d.perform 64 (.draw ⟨2⟩ 1) = .done (.cards ids') d₂ ∧
        d₂.perform 64 (.draw ⟨1⟩ 2) = .done (.cards ids) d₃) ∧
      ∃ deck hand ids d', d.record 64 (.draw ⟨1⟩ 2) = .done (.cards ids) ⟨d', [], 0⟩ ∧
        d.TakesFromTop ⟨1⟩ 2 deck hand ids d' := by
  obtain ⟨d, hvisited, hplayers⟩ :
      ∃ d, Visited (Starter.catalog {}) d ∧ d.fixture.players = [⟨1⟩, ⟨2⟩] :=
    @Visited.exists_of_performAll (Starter.catalog {}) 64 7 ⟨⟨1⟩, [⟨1⟩, ⟨2⟩, ⟨1⟩]⟩
      ⟨⟨2⟩, [⟨2⟩, ⟨1⟩]⟩ [.draw ⟨2⟩ 1] _ (by decide +kernel)
  have hfirst : ⟨1⟩ ∈ d.fixture.players := by simp [hplayers]
  have hsecond : ⟨2⟩ ∈ d.fixture.players := by simp [hplayers]
  have hone : 1 ≤ drawCapacity := by decide
  have htwo : 2 ≤ drawCapacity := by decide
  obtain ⟨-, -, hadd, hcomm, htop⟩ := visited_draws hvisited 64
  obtain ⟨ids, ids', d₁, d₂, hdraw, hdraw', hboth⟩ := hadd ⟨1⟩ hfirst 2 htwo 2 htwo
  exact ⟨d, hvisited, hplayers, ⟨ids, ids', d₁, d₂, hdraw, hdraw', hboth (by decide)⟩,
    hcomm ⟨1⟩ hfirst ⟨2⟩ hsecond (by decide) 2 htwo 1 hone, htop (by decide) ⟨1⟩ hfirst 2 htwo⟩

/-- The first player has a deck of three cards. A draw of ten cards takes
all three, but a draw of two to the 61st is a fault, because there is no
list for so many. -/
theorem draw_without_room :
    ∃ d, Visited (Starter.catalog {}) d ∧ d.catalog.rules.deck ≠ d.catalog.rules.hand ∧
      (∃ deck, d.zone ⟨1⟩ d.catalog.rules.deck = .ok deck ∧ deck.cards = [⟨1⟩, ⟨2⟩, ⟨3⟩]) ∧
      (∃ d', d.perform 64 (.draw ⟨1⟩ 10) = .done (.cards [⟨3⟩, ⟨2⟩, ⟨1⟩]) d') ∧
      d.perform 64 (.draw ⟨1⟩ 2305843009213693952) = .fault .capacityOverflow := by
  obtain ⟨d, hvisited, hne, ⟨deck, -, hdeck, hcards⟩, ⟨d', -, hdone⟩, hfault⟩ :=
    @Visited.exists_of_performAll (Starter.catalog {}) 64 7 ⟨⟨1⟩, [⟨1⟩, ⟨2⟩, ⟨1⟩]⟩ ⟨⟨2⟩, []⟩ []
      (fun d => d.catalog.rules.deck ≠ d.catalog.rules.hand ∧
        (∃ deck ∈ (d.zone ⟨1⟩ d.catalog.rules.deck).toOption,
          d.zone ⟨1⟩ d.catalog.rules.deck = .ok deck ∧ deck.cards = [⟨1⟩, ⟨2⟩, ⟨3⟩]) ∧
        (∃ d' ∈ (d.perform 64 (.draw ⟨1⟩ 10)).state?,
          d.perform 64 (.draw ⟨1⟩ 10) = .done (.cards [⟨3⟩, ⟨2⟩, ⟨1⟩]) d') ∧
        d.perform 64 (.draw ⟨1⟩ 2305843009213693952) = .fault .capacityOverflow)
      (by decide +kernel)
  exact ⟨d, hvisited, hne, ⟨deck, hdeck, hcards⟩, ⟨d', hdone⟩, hfault⟩

end CardDuel
