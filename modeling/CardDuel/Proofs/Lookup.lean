/-
CardDuel.Proofs.Lookup — what look-ups find after an update.

Each update of `Duel.Basic` changes one seat, one zone or one block of
stats. The lemmas here say for each look-up what it finds then: the
changed thing under its own name, and under every other name what was
there before.

  §1 Seats  — after a change of a seat.
  §2 Zones  — after a change of a zone, and after a transfer.
  §3 Cards  — after a block of stats is put in place.
-/
import CardDuel.Duel.Basic

namespace CardDuel

namespace Duel

variable {d : Duel} {p q : PlayerId}

/-! ## §1 Seats -/

/-- A seat that is found is one of the two, and that of the player. -/
theorem seat_eq_ok {s : Seat} (h : d.seat p = .ok s) : s ∈ d.seats ∧ s.id = p := by
  unfold seat at h
  split at h
  · rename_i hp; cases h; exact ⟨by simp [seats], hp⟩
  · split at h
    · rename_i hp; cases h; exact ⟨by simp [seats], hp⟩
    · cases h

/-- The seat of the player is the changed one, and the other seat is as
before. The change has to leave it the player's. -/
theorem seat_modifySeat {f : Seat → Seat} (hf : ∀ s, (f s).id = s.id) :
    (d.modifySeat p f).seat q = if q = p then (d.seat p).map f else d.seat q := by
  by_cases h1 : d.first.id = p
  · by_cases hq : q = p
    · simp [modifySeat, seat, h1, hf, hq, Except.map]
    · have hne : p ≠ q := fun h => hq h.symm
      simp [modifySeat, seat, h1, hf, hq, hne]
  · by_cases h2 : d.second.id = p
    · by_cases hq : q = p
      · simp [modifySeat, seat, h1, h2, hf, hq, Except.map]
      · have hne : p ≠ q := fun h => hq h.symm
        simp [modifySeat, seat, h1, h2, hf, hq, hne]
    · by_cases hq : q = p
      · simp [modifySeat, seat, h1, h2, hq, Except.map]
      · simp [modifySeat, h1, h2, hq]

/-- A seat after the change is the changed one, or one from before that
is not the player's. -/
theorem mem_seats_modifySeat {f : Seat → Seat} {s : Seat} (h : s ∈ (d.modifySeat p f).seats) :
    (∃ s₀, d.seat p = .ok s₀ ∧ s = f s₀) ∨
      (s ∈ d.seats ∧ (d.first.id ≠ d.second.id → s.id ≠ p)) := by
  by_cases h1 : d.first.id = p
  · rw [modifySeat, if_pos h1] at h
    simp only [seats, List.mem_cons, List.not_mem_nil, or_false] at h ⊢
    rcases h with h | rfl
    · exact .inl ⟨d.first, by simp [seat, h1], h⟩
    · exact .inr ⟨.inr rfl, fun hne hp => hne (h1.trans hp.symm)⟩
  · by_cases h2 : d.second.id = p
    · rw [modifySeat, if_neg h1, if_pos h2] at h
      simp only [seats, List.mem_cons, List.not_mem_nil, or_false] at h ⊢
      rcases h with rfl | h
      · exact .inr ⟨.inl rfl, fun _ => h1⟩
      · exact .inl ⟨d.second, by simp [seat, h1, h2], h⟩
    · rw [modifySeat, if_neg h1, if_neg h2] at h
      refine .inr ⟨h, fun _ hp => ?_⟩
      simp only [seats, List.mem_cons, List.not_mem_nil, or_false] at h
      rcases h with rfl | rfl
      · exact h1 hp
      · exact h2 hp

/-- Two changes of a seat are one. -/
theorem modifySeat_modifySeat {f g : Seat → Seat} (hf : ∀ s, (f s).id = s.id) :
    (d.modifySeat p f).modifySeat p g = d.modifySeat p fun s => g (f s) := by
  by_cases h1 : d.first.id = p
  · simp [modifySeat, h1, hf]
  · by_cases h2 : d.second.id = p <;> simp [modifySeat, h1, h2, hf]

/-! What no seat holds is not changed with a seat: the catalog, the cards
in play and the generator. -/

@[simp] theorem catalog_modifySeat (f : Seat → Seat) : (d.modifySeat p f).catalog = d.catalog := by
  unfold modifySeat
  split
  · rfl
  · split <;> rfl

@[simp] theorem cards_modifySeat (f : Seat → Seat) : (d.modifySeat p f).cards = d.cards := by
  unfold modifySeat
  split
  · rfl
  · split <;> rfl

@[simp] theorem generator_modifySeat (f : Seat → Seat) :
    (d.modifySeat p f).generator = d.generator := by
  unfold modifySeat
  split
  · rfl
  · split <;> rfl

@[simp] theorem card_modifySeat (f : Seat → Seat) (id : InstanceId) :
    (d.modifySeat p f).card id = d.card id := by
  simp [card]

/-! ## §2 Zones -/

end Duel

namespace Seat

/-- The zone of that number is the changed one, and every other zone is as
before. The change may not touch what the catalog says of the zone. -/
theorem zone?_modifyZone {s : Seat} {f : Zone → Zone} (hf : ∀ z, (f z).spec = z.spec)
    (id id' : ZoneId) :
    (s.modifyZone id f).zone? id' = if id' = id then (s.zone? id).map f else s.zone? id' := by
  have hid (z : Zone) : (if z.id = id then f z else z).id = z.id := by
    split <;> simp [Zone.id, hf]
  simp only [zone?, modifyZone, List.find?_map, Function.comp_def, hid]
  by_cases h : id' = id
  · subst h
    cases hz : s.zones.find? (·.id = id') with
    | none => simp
    | some z =>
      have hz' : z.id = id' := by simpa using List.find?_some hz
      simp [hz']
  · cases hz : s.zones.find? (·.id = id') with
    | none => simp [h]
    | some z =>
      have hz' : z.id = id' := by simpa using List.find?_some hz
      simp [hz', h]

end Seat

namespace Duel

variable {d : Duel} {p q : PlayerId}

/-- A zone of a player is found in the seat of that player. -/
theorem zone_eq_ok {id : ZoneId} {z : Zone} :
    d.zone p id = .ok z ↔ ∃ s, d.seat p = .ok s ∧ s.zone? id = some z := by
  unfold zone
  cases d.seat p with
  | error e => simp [Bind.bind, Except.bind]
  | ok s =>
    cases hz : s.zone? id with
    | none => simp [Bind.bind, Except.bind, hz]
    | some z' => simp [Bind.bind, Except.bind, hz]

/-- The zone of that player is the changed one; every other zone, of this
player or the other, is as before. -/
theorem zone_modifyZone {f : Zone → Zone} (hf : ∀ z, (f z).spec = z.spec) (id id' : ZoneId) :
    (d.modifyZone p id f).zone q id' =
      if q = p ∧ id' = id then (d.zone p id).map f else d.zone q id' := by
  unfold zone modifyZone
  rw [seat_modifySeat (f := (·.modifyZone id f)) fun _ => rfl]
  by_cases hq : q = p
  · subst hq
    rw [if_pos rfl]
    cases d.seat q with
    | error e => simp [Bind.bind, Except.bind, Except.map]
    | ok s =>
      simp only [Except.map, Bind.bind, Except.bind, Seat.zone?_modifyZone hf, true_and]
      by_cases h : id' = id
      · subst h
        simp only [if_pos]
        cases s.zone? id' <;> rfl
      · simp only [if_neg h]
  · simp [hq]

/-- After a transfer the card is gone from its origin and lies on top of
its destination, also if the two are one zone; every other zone is as
before. -/
theorem zone_transfer {card : InstanceId} {origin destination id : ZoneId} :
    (d.transfer p card origin destination).zone q id =
      if q = p then
        if id = destination then
          ((if destination = origin then (d.zone p origin).map (·.remove card)
            else d.zone p destination)).map (·.push card)
        else if id = origin then (d.zone p origin).map (·.remove card)
        else d.zone p id
      else d.zone q id := by
  unfold transfer
  rw [zone_modifyZone (f := (·.push card)) fun _ => rfl]
  by_cases hq : q = p
  · subst hq
    by_cases h : id = destination
    · subst h
      by_cases h' : id = origin <;> simp [zone_modifyZone (f := (·.remove card)) fun _ => rfl, h']
    · by_cases h' : id = origin <;>
        simp [zone_modifyZone (f := (·.remove card)) fun _ => rfl, h, h']
  · simp [zone_modifyZone (f := (·.remove card)) fun _ => rfl, hq]

/-! ## §3 Cards -/

/-- A card that is found is in play, and has the number asked for. -/
theorem card_eq_ok {id : InstanceId} {c : Card} (h : d.card id = .ok c) : c ∈ d.cards ∧ c.id = id := by
  unfold card at h
  split at h
  · rename_i c' hc'
    cases h
    exact ⟨List.mem_of_find?_eq_some hc', by simpa using List.find?_some hc'⟩
  · cases h

/-- The stats of a card that is found are those on it. -/
theorem stats_card {id : InstanceId} {c : Card} (h : d.card id = .ok c) :
    d.stats (.card id) = .ok c.stats := by
  rw [stats, h]
  rfl

/-- The card of that number is the changed one, and every other card is as
before. The change may not touch the number. -/
theorem card_modifyCard {f : Card → Card} (hf : ∀ c, (f c).id = c.id) (id id' : InstanceId) :
    (d.modifyCard id f).card id' = if id' = id then (d.card id).map f else d.card id' := by
  have hid (c : Card) : (if c.id = id then f c else c).id = c.id := by
    split <;> simp [hf]
  simp only [card, modifyCard, List.find?_map, Function.comp_def, hid]
  by_cases h : id' = id
  · subst h
    cases hc : d.cards.find? (·.id = id') with
    | none => simp [Except.map]
    | some c =>
      have hc' : c.id = id' := by simpa using List.find?_some hc
      simp [hc', Except.map]
  · cases hc : d.cards.find? (·.id = id') with
    | none => simp [h]
    | some c =>
      have hc' : c.id = id' := by simpa using List.find?_some hc
      simp [hc', h]

/-- A bearer that exists has the block that is put in place, and every
other bearer has the stats it had. -/
theorem stats_putStats {b b' : Bearer} {block block₀ : StatBlock} (h : d.stats b = .ok block₀) :
    (d.putStats b block).stats b' = if b' = b then .ok block else d.stats b' := by
  cases b with
  | player id =>
    cases b' with
    | player id' =>
      simp only [stats, putStats, seat_modifySeat (f := fun s => { s with stats := block })
        fun _ => rfl, Bearer.player.injEq] at h ⊢
      split
      · cases hs : d.seat id with
        | ok s => rfl
        | error e => rw [hs] at h; cases h
      · rfl
    | card id' => simp [stats, putStats]
  | card id =>
    cases b' with
    | player id' => rfl
    | card id' =>
      simp only [stats, putStats, card_modifyCard (f := fun c => { c with stats := block })
        fun _ => rfl, Bearer.card.injEq] at h ⊢
      split
      · cases hs : d.card id with
        | ok c => rfl
        | error e => rw [hs] at h; cases h
      · rfl

/-! Where cards lie, the stats of bearers and the generator do not see each
other's changes. -/

theorem zone_putStats (b : Bearer) (block : StatBlock) (id : ZoneId) :
    (d.putStats b block).zone p id = d.zone p id := by
  cases b with
  | card c => rfl
  | player q =>
    simp only [zone, putStats, seat_modifySeat (f := fun s => { s with stats := block })
      fun _ => rfl]
    split
    · rename_i h
      subst h
      cases d.seat p <;> rfl
    · rfl

@[simp] theorem generator_putStats (b : Bearer) (block : StatBlock) :
    (d.putStats b block).generator = d.generator := by
  cases b with
  | player id => exact generator_modifySeat _
  | card id => rfl

@[simp] theorem stats_modifyZone (id : ZoneId) (f : Zone → Zone) (b : Bearer) :
    (d.modifyZone p id f).stats b = d.stats b := by
  cases b with
  | card c => simp [stats, modifyZone]
  | player q =>
    simp only [stats, modifyZone, seat_modifySeat (f := (·.modifyZone id f)) fun _ => rfl]
    split
    · rename_i h
      subst h
      cases d.seat q <;> rfl
    · rfl

@[simp] theorem stats_transfer (card : InstanceId) (origin destination : ZoneId) (b : Bearer) :
    (d.transfer p card origin destination).stats b = d.stats b := by
  simp [transfer]

@[simp] theorem generator_transfer (card : InstanceId) (origin destination : ZoneId) :
    (d.transfer p card origin destination).generator = d.generator := by
  simp [transfer, modifyZone]

end Duel

end CardDuel
