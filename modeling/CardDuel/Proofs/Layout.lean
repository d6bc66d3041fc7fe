/-
CardDuel.Proofs.Layout — where the cards of a duel lie.

In a laid-out duel the zones of each player hold exactly the player's own
cards, each of them once. Taking a card out of a zone and putting it on
top of another, which is all that moves and draws do to the zones, keeps
a duel laid out. In a laid-out duel every card has one place, and the
look-up of its location finds it.

  §1 Seats      — what a seat holds when one of its zones changes.
  §2 Duels      — `Duel.Laid`, and the updates that keep it.
  §3 Look-ups   — zones exist, and hold cards of their player.
  §4 Locations  — the place of a card.
-/
import CardDuel.Proofs.Fixture
import Mathlib.Data.List.Pairwise

namespace CardDuel

/-! ## §1 Seats -/

namespace Seat

/-- The cards in the zones of a seat, zone by zone. -/
def held (s : Seat) : List InstanceId := s.zones.flatMap Zone.cards

/-- Different zones of the seat have different numbers. -/
def Distinct (s : Seat) : Prop := (s.zones.map Zone.id).Nodup

variable {s : Seat} {id : ZoneId} {z : Zone} {card : InstanceId}

theorem zone?_eq_some (h : s.zone? id = some z) : z ∈ s.zones ∧ z.id = id :=
  ⟨List.mem_of_find?_eq_some h, by simpa using List.find?_some h⟩

theorem Distinct.zone?_of_mem (h : s.Distinct) (hz : z ∈ s.zones) : s.zone? z.id = some z := by
  have hsome : (s.zone? z.id).isSome := by
    rw [zone?, List.find?_isSome]
    exact ⟨z, hz, by simp⟩
  obtain ⟨z', hz'⟩ := Option.isSome_iff_exists.mp hsome
  obtain ⟨hm, hid⟩ := zone?_eq_some hz'
  rw [hz', List.inj_on_of_nodup_map h hm hz hid]

@[simp] theorem specs_modifyZone {f : Zone → Zone} (hf : ∀ z, (f z).spec = z.spec) :
    (s.modifyZone id f).zones.map Zone.spec = s.zones.map Zone.spec := by
  have hspec : (Zone.spec ∘ fun z => if z.id = id then f z else z) = Zone.spec := by
    funext z
    simp only [Function.comp_apply]
    split
    · exact hf z
    · rfl
  simp [modifyZone, hspec]

theorem Distinct.modifyZone {f : Zone → Zone} (h : s.Distinct) (hf : ∀ z, (f z).spec = z.spec) :
    (s.modifyZone id f).Distinct := by
  have hids (s : Seat) : s.zones.map Zone.id = (s.zones.map Zone.spec).map ZoneSpec.id := by
    simp [Zone.id]
  rwa [Distinct, hids, specs_modifyZone hf, ← hids]

/-- A change of one zone leaves what the other zones hold. -/
theorem Distinct.perm_held (h : s.Distinct) (hz : s.zone? id = some z) :
    ∃ rest, s.held.Perm (z.cards ++ rest) ∧
      ∀ f, (s.modifyZone id f).held.Perm ((f z).cards ++ rest) := by
  obtain ⟨hid, before, after, hzones, hbefore⟩ := List.find?_eq_some_iff_append.mp hz
  have hid : z.id = id := by simpa using hid
  have hother : ∀ z' ∈ before ++ after, z'.id ≠ id := by
    intro z' hz'
    rcases List.mem_append.mp hz' with hm | hm
    · simpa using hbefore z' hm
    · unfold Distinct at h
      rw [hzones, List.map_append, List.map_cons, List.nodup_append, List.nodup_cons] at h
      obtain ⟨-, ⟨hnew, -⟩, -⟩ := h
      exact fun heq => hnew (List.mem_map.mpr ⟨z', hm, heq.trans hid.symm⟩)
  have hkept (f : Zone → Zone) {l : List Zone} (hl : ∀ z' ∈ l, z' ∈ before ++ after) :
      l.map (fun z' => if z'.id = id then f z' else z') = l := by
    rw [List.map_congr_left (g := fun z' => z') fun z' hz' => if_neg (hother z' (hl z' hz')),
      List.map_id']
  refine ⟨before.flatMap Zone.cards ++ after.flatMap Zone.cards, ?_, fun f => ?_⟩
  · rw [held, hzones, List.flatMap_append, List.flatMap_cons]
    exact List.perm_append_comm_assoc _ _ _
  · rw [held, Seat.modifyZone, hzones, List.map_append, List.map_cons,
      hkept f fun z' hz' => List.mem_append_left _ hz',
      hkept f fun z' hz' => List.mem_append_right _ hz', if_pos hid, List.flatMap_append,
      List.flatMap_cons]
    exact List.perm_append_comm_assoc _ _ _

theorem Distinct.held_push (h : s.Distinct) (hz : (s.zone? id).isSome) :
    (s.modifyZone id (·.push card)).held.Perm (card :: s.held) := by
  obtain ⟨z, hz⟩ := Option.isSome_iff_exists.mp hz
  obtain ⟨rest, hs, hf⟩ := h.perm_held hz
  refine (hf _).trans (List.Perm.trans ?_ (hs.symm.cons card))
  simp only [Zone.push, List.append_assoc, List.singleton_append]
  exact List.perm_middle

/-- Taking a card out of one zone and putting it on top of another leaves
what the seat holds. -/
theorem Distinct.held_relay {take : Zone → Zone} {origin destination : ZoneId} (h : s.Distinct)
    (htake : ∀ z, (take z).spec = z.spec) (hz : s.zone? origin = some z)
    (hcard : (card :: (take z).cards).Perm z.cards) (hd : (s.zone? destination).isSome) :
    ((s.modifyZone origin take).modifyZone destination (·.push card)).held.Perm s.held := by
  have hd' : ((s.modifyZone origin take).zone? destination).isSome := by
    rw [zone?_modifyZone htake]
    split
    · simp [hz]
    · exact hd
  refine ((h.modifyZone htake).held_push hd').trans ?_
  obtain ⟨rest, hs, hf⟩ := h.perm_held hz
  exact ((hf take).cons card).trans ((hcard.append_right rest).trans hs.symm)

end Seat

/-! ## §2 Duels -/

namespace Duel

/-- The cards in all zones, player by player. -/
def held (d : Duel) : List InstanceId := d.seats.flatMap Seat.held

/-- The duel after a draw of a card, which was on top of the deck. -/
def drawn (d : Duel) (p : PlayerId) (card : InstanceId) : Duel :=
  (d.modifyZone p d.catalog.rules.deck (·.dropTop)).modifyZone p d.catalog.rules.hand (·.push card)

/-- Every player has the zones of the catalog, and the cards in them are
the player's own, each of them once. -/
structure Laid (d : Duel) : Prop where
  zones : ∀ s ∈ d.seats, s.zones.map Zone.spec = d.catalog.zones
  dealt : ∀ s ∈ d.seats, s.held.Perm (d.fixture.owned s.id)

namespace Laid

variable {d : Duel} {p : PlayerId} {id : ZoneId} {z : Zone} {card : InstanceId} (h : d.Laid)
include h

theorem distinct (hz : d.catalog.zoneIds.Nodup) {s : Seat} (hs : s ∈ d.seats) : s.Distinct := by
  have hids : s.zones.map Zone.id = (s.zones.map Zone.spec).map ZoneSpec.id := by simp [Zone.id]
  rwa [Seat.Distinct, hids, h.zones s hs]

theorem congr {d' : Duel} (hs : d'.seats = d.seats) (hcatalog : d'.catalog = d.catalog)
    (hcards : d'.fixture.cards = d.fixture.cards) : d'.Laid where
  zones s hm := by rw [hcatalog]; exact h.zones s (hs ▸ hm)
  dealt s hm := by
    rw [Fixture.owned, hcards]
    exact h.dealt s (hs ▸ hm)

/-- A change of a seat that leaves the zones of the catalog and what they
hold keeps the duel laid out. -/
theorem modifySeat {f : Seat → Seat} (hf : ∀ s, (f s).id = s.id)
    (hs : ∀ s, d.seat p = .ok s →
      (f s).zones.map Zone.spec = s.zones.map Zone.spec ∧ (f s).held.Perm s.held) :
    (d.modifySeat p f).Laid := by
  constructor
  case zones =>
    intro s hm
    rw [catalog_modifySeat]
    rcases mem_seats_modifySeat hm with ⟨s₀, hs₀, rfl⟩ | ⟨hm, -⟩
    · rw [(hs s₀ hs₀).1, h.zones s₀ (seat_eq_ok hs₀).1]
    · exact h.zones s hm
  case dealt =>
    intro s hm
    rw [fixture_modifySeat hf]
    rcases mem_seats_modifySeat hm with ⟨s₀, hs₀, rfl⟩ | ⟨hm, -⟩
    · rw [hf]
      exact (hs s₀ hs₀).2.trans (h.dealt s₀ (seat_eq_ok hs₀).1)
    · exact h.dealt s hm

theorem putStats (b : Bearer) (block : StatBlock) : (d.putStats b block).Laid := by
  cases b with
  | player id =>
    exact h.modifySeat (f := fun s => { s with stats := block }) (fun _ => rfl) fun s _ =>
      ⟨rfl, List.Perm.refl _⟩
  | card id => exact h.congr rfl rfl (congrArg Fixture.cards (fixture_putStats (.card id) block))

/-- Taking a card out of one zone of a player and putting it on top of
another keeps the duel laid out. -/
theorem relay {take : Zone → Zone} {origin destination : ZoneId} (hz : d.catalog.zoneIds.Nodup)
    (htake : ∀ z, (take z).spec = z.spec) (ho : d.zone p origin = .ok z)
    (hcard : (card :: (take z).cards).Perm z.cards) (hd : ∃ z', d.zone p destination = .ok z') :
    ((d.modifyZone p origin take).modifyZone p destination (·.push card)).Laid := by
  unfold modifyZone
  rw [modifySeat_modifySeat (f := (·.modifyZone origin take)) fun _ => rfl]
  refine h.modifySeat (fun _ => rfl) fun s hs => ⟨?_, ?_⟩
  · rw [Seat.specs_modifyZone (f := (·.push card)) fun _ => rfl, Seat.specs_modifyZone htake]
  · obtain ⟨z', hd⟩ := hd
    obtain ⟨s₁, hs₁, ho⟩ := zone_eq_ok.mp ho
    obtain ⟨s₂, hs₂, hd⟩ := zone_eq_ok.mp hd
    cases hs.symm.trans hs₁
    cases hs.symm.trans hs₂
    exact (h.distinct hz (seat_eq_ok hs).1).held_relay htake ho hcard (by simp [hd])

theorem transfer {origin destination : ZoneId} (hz : d.catalog.zoneIds.Nodup)
    (ho : d.zone p origin = .ok z) (hcard : card ∈ z.cards)
    (hd : ∃ z', d.zone p destination = .ok z') : (d.transfer p card origin destination).Laid :=
  h.relay hz (fun _ => rfl) ho (List.perm_cons_erase hcard).symm hd

theorem drawn (hids : d.catalog.zoneIds.Nodup) (hz : d.zone p d.catalog.rules.deck = .ok z)
    (hcard : z.top? = some card) (hd : ∃ z', d.zone p d.catalog.rules.hand = .ok z') :
    (d.drawn p card).Laid := by
  refine h.relay hids (fun _ => rfl) hz ?_ hd
  have hcards : z.cards.dropLast ++ [card] = z.cards := List.dropLast_append_getLast? card hcard
  exact (List.perm_append_singleton card z.cards.dropLast).symm.trans (by rw [hcards])

/-! ## §3 Look-ups -/

theorem exists_zone (hp : p ∈ d.fixture.players) (hid : id ∈ d.catalog.zoneIds) :
    ∃ z, d.zone p id = .ok z := by
  obtain ⟨s, hs⟩ := seat_isOk_iff.mpr hp
  obtain ⟨spec, hspec, hid⟩ := List.mem_map.mp hid
  rw [← h.zones s (seat_eq_ok hs).1] at hspec
  obtain ⟨z, hz, rfl⟩ := List.mem_map.mp hspec
  have hsome : (s.zone? id).isSome := by
    rw [Seat.zone?, List.find?_isSome]
    exact ⟨z, hz, decide_eq_true hid⟩
  obtain ⟨z', hz'⟩ := Option.isSome_iff_exists.mp hsome
  exact ⟨z', zone_eq_ok.mpr ⟨s, hs, hz'⟩⟩

theorem mem_zoneIds (hz : d.zone p id = .ok z) : id ∈ d.catalog.zoneIds := by
  obtain ⟨s, hs, hz⟩ := zone_eq_ok.mp hz
  obtain ⟨hm, rfl⟩ := Seat.zone?_eq_some hz
  rw [Catalog.zoneIds, ← h.zones s (seat_eq_ok hs).1]
  exact List.mem_map.mpr ⟨z.spec, List.mem_map.mpr ⟨z, hm, rfl⟩, rfl⟩

/-- Zones hold cards of their player. -/
theorem mem_owned (hz : d.zone p id = .ok z) (hc : card ∈ z.cards) :
    card ∈ d.fixture.owned p := by
  obtain ⟨s, hs, hzone⟩ := zone_eq_ok.mp hz
  obtain ⟨hm, rfl⟩ := seat_eq_ok hs
  rw [← (h.dealt s hm).mem_iff]
  exact List.mem_flatMap.mpr ⟨z, (Seat.zone?_eq_some hzone).1, hc⟩

/-! ## §4 Locations -/

variable (hφ : d.fixture.Sound)
include hφ

theorem tag?_of_mem (hz : d.zone p id = .ok z) (hc : card ∈ z.cards) :
    ∃ t, d.fixture.tag? card = some t ∧ t.owner = p :=
  hφ.mem_owned_iff.mp (h.mem_owned hz hc)

theorem nodup_held {s : Seat} (hs : s ∈ d.seats) : s.held.Nodup :=
  (h.dealt s hs).nodup_iff.mpr (hφ.owned_nodup s.id)

theorem nodup_zone (hz : d.zone p id = .ok z) : z.cards.Nodup := by
  obtain ⟨s, hs, hz⟩ := zone_eq_ok.mp hz
  have hn := h.nodup_held hφ (seat_eq_ok hs).1
  rw [Seat.held, List.nodup_flatMap] at hn
  exact hn.1 z (Seat.zone?_eq_some hz).1

/-- A card lies in one zone of one player. -/
theorem unique {p' : PlayerId} {id' : ZoneId} {z' : Zone} (hz : d.zone p id = .ok z)
    (hc : card ∈ z.cards) (hz' : d.zone p' id' = .ok z') (hc' : card ∈ z'.cards) :
    p = p' ∧ id = id' := by
  obtain ⟨t, ht, rfl⟩ := h.tag?_of_mem hφ hz hc
  obtain ⟨t', ht', rfl⟩ := h.tag?_of_mem hφ hz' hc'
  cases ht.symm.trans ht'
  obtain ⟨s, hs, hz⟩ := zone_eq_ok.mp hz
  obtain ⟨s', hs', hz'⟩ := zone_eq_ok.mp hz'
  cases hs.symm.trans hs'
  obtain ⟨hm, rfl⟩ := Seat.zone?_eq_some hz
  obtain ⟨hm', rfl⟩ := Seat.zone?_eq_some hz'
  have hn := h.nodup_held hφ (seat_eq_ok hs).1
  rw [Seat.held, List.nodup_flatMap] at hn
  have : Std.Symm (Function.onFun List.Disjoint Zone.cards) :=
    ⟨fun _ _ hd => List.disjoint_symm hd⟩
  refine ⟨rfl, ?_⟩
  by_contra hne
  exact hn.2.forall hm hm' (fun heq => hne (congrArg Zone.id heq)) hc hc'

/-- The look-up of a location finds the zone that holds the card. -/
theorem location?_eq_some_iff :
    d.location? card = some (p, id) ↔ ∃ z, d.zone p id = .ok z ∧ card ∈ z.cards := by
  constructor
  · intro hl
    unfold location? at hl
    split at hl
    · rename_i c _
      split at hl
      · rename_i s hs
        simp only [Seat.zoneOf?, Option.map_map, Option.map_eq_some_iff, Function.comp_apply,
          Prod.mk.injEq] at hl
        obtain ⟨z, hz, rfl, rfl⟩ := hl
        have hd := h.distinct hφ.closed.zones (seat_eq_ok hs).1
        refine ⟨z, zone_eq_ok.mpr ⟨s, hs, hd.zone?_of_mem (List.mem_of_find?_eq_some hz)⟩, ?_⟩
        simpa [Zone.contains] using List.find?_some hz
      · cases hl
    · cases hl
  · intro h
    obtain ⟨z, hz, hc⟩ := h
    obtain ⟨t, ht, howner⟩ := h.tag?_of_mem hφ hz hc
    obtain ⟨c, hcard, rfl⟩ := tag?_eq_some_iff.mp ht
    obtain ⟨s, hs, hzone⟩ := zone_eq_ok.mp hz
    have howner : c.owner = p := howner
    -- The first zone that holds the card is the only one that does.
    have hsome : (s.zones.find? (·.contains card)).isSome := by
      rw [List.find?_isSome]
      exact ⟨z, (Seat.zone?_eq_some hzone).1, by simpa [Zone.contains] using hc⟩
    obtain ⟨z', hz'⟩ := Option.isSome_iff_exists.mp hsome
    have hd := h.distinct hφ.closed.zones (seat_eq_ok hs).1
    have hzone' : d.zone p z'.id = .ok z' :=
      zone_eq_ok.mpr ⟨s, hs, hd.zone?_of_mem (List.mem_of_find?_eq_some hz')⟩
    have hc' : card ∈ z'.cards := by simpa [Zone.contains] using List.find?_some hz'
    obtain ⟨-, rfl⟩ := h.unique hφ hz hc hzone' hc'
    simp [location?, hcard, howner, hs, Seat.zoneOf?, hz']

theorem exists_location? {t : CardTag} (ht : d.fixture.tag? card = some t) :
    ∃ id, d.location? card = some (t.owner, id) := by
  have howner := hφ.owners t (Fixture.tag?_id ht).1
  obtain ⟨s, hs⟩ := seat_isOk_iff.mpr howner
  obtain ⟨hm, hid⟩ := seat_eq_ok hs
  have hheld : card ∈ s.held :=
    (h.dealt s hm).mem_iff.mpr (hφ.mem_owned_iff.mpr ⟨t, ht, hid.symm⟩)
  obtain ⟨z, hz, hc⟩ := List.mem_flatMap.mp hheld
  have hd := h.distinct hφ.closed.zones hm
  refine ⟨z.id, (h.location?_eq_some_iff hφ).mpr ⟨z, ?_, hc⟩⟩
  exact zone_eq_ok.mpr ⟨s, hs, hd.zone?_of_mem hz⟩

end Laid

end Duel

end CardDuel
