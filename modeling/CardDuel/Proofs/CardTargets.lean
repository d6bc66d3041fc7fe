/-
CardDuel.Proofs.CardTargets — which cards a card target means.

The candidates of a card target are the cards of a type in one zone, those
of the acting player first. A search over all of them gives those that
meet the conditions, a random one draws once and looks at the conditions
afterwards, and a chosen card has to lie in the zone but need not be of
the type. Nothing but the generator changes, and it only for a random
target. A condition on a stat whose bounds are out of order has no answer,
and then the search has none either.

  §1 Conditions — what meets them.
  §2 Candidates — their list, without doubles, and who is chosen.
  §3 Searches   — the query, kind by kind.
  §4 Types      — which targets are of the type of the effect.
-/
import CardDuel.Proofs.Availability

namespace CardDuel

open Engine Play

/-! ## §1 Conditions -/

/-- The bearer has the stat of the condition, with an effective value that
meets it. -/
def Duel.fulfils (d : Duel) (b : Bearer) (k : Condition) : Bool :=
  match d.statValue? b k.stat with
  | .ok (some value) => k.holds value
  | _ => false

/-- The bearer meets all of the conditions. -/
def Duel.meets (d : Duel) (b : Bearer) (conditions : List Condition) : Bool :=
  conditions.all (d.fulfils b)

namespace Play

variable {d : Duel}

theorem satisfies_cons {b : Bearer} {k : Condition} {rest : List Condition}
    (h : d.Readable b k.stat) :
    satisfies d b (k :: rest) = if d.fulfils b k then satisfies d b rest else .ok false := by
  obtain ⟨value, hvalue⟩ := Duel.statValue?_of_readable h
  rw [satisfies, Duel.fulfils, hvalue]
  cases value <;> rfl

/-- Conditions are checked one by one up to the first that fails, which
comes to the same as all of them, unless a stat cannot be read. -/
theorem satisfies_eq (b : Bearer) (conditions : List Condition) :
    satisfies d b conditions = .ok (d.meets b conditions) ∨
      satisfies d b conditions = .error .boundsOutOfOrder ∧
        ∃ k ∈ conditions, ¬ d.Readable b k.stat := by
  induction conditions with
  | nil => exact .inl rfl
  | cons k rest ih =>
    by_cases hread : d.Readable b k.stat
    · rw [satisfies_cons hread, Duel.meets, List.all_cons]
      cases d.fulfils b k with
      | false => exact .inl rfl
      | true =>
        rcases ih with hrest | ⟨hrest, k', hk', hread'⟩
        · exact .inl hrest
        · exact .inr ⟨hrest, k', List.mem_cons_of_mem k hk', hread'⟩
    · refine .inr ⟨?_, k, List.mem_cons_self, hread⟩
      rw [satisfies, Duel.statValue?_of_not_readable hread]
      rfl

theorem keepSatisfying_eq {α : Type} (bearer : α → Bearer) (conditions : List Condition)
    (members : List α) :
    keepSatisfying d bearer conditions members =
        .ok (members.filter fun a => d.meets (bearer a) conditions) ∨
      keepSatisfying d bearer conditions members = .error .boundsOutOfOrder ∧
        ∃ a ∈ members, ∃ k ∈ conditions, ¬ d.Readable (bearer a) k.stat := by
  induction members with
  | nil => exact .inl rfl
  | cons a rest ih =>
    rw [keepSatisfying]
    rcases satisfies_eq (d := d) (bearer a) conditions with hkept | ⟨hfault, hread⟩
    · rw [hkept]
      rcases ih with hrest | ⟨hfault, a', ha', hread⟩
      · rw [hrest]
        refine .inl (congrArg Except.ok ?_)
        rw [List.filter_cons]
      · rw [hfault]
        exact .inr ⟨rfl, a', List.mem_cons_of_mem a ha', hread⟩
    · rw [hfault]
      exact .inr ⟨rfl, a, List.mem_cons_self, hread⟩

end Play

/-! ## §2 Candidates -/

namespace Duel

variable {d : Duel} {place : ZoneId} {t : CardTypeId} {acting opponent p : PlayerId}
variable {players : List PlayerId} {card : InstanceId}

/-- The cards of a type that players have in a zone: player by player, in
the order of the zones. -/
def cardsOf (d : Duel) (place : ZoneId) (t : CardTypeId) (players : List PlayerId) :
    List InstanceId :=
  players.flatMap fun p =>
    match d.zone p place with
    | .ok z => z.cards.filter (d.isOfType t)
    | .error _ => []

theorem candidates_eq (h : ∀ p ∈ players, ∃ z, d.zone p place = .ok z) :
    candidates d place t players = .ok (d.cardsOf place t players) := by
  induction players with
  | nil => rfl
  | cons p rest ih =>
    obtain ⟨z, hz⟩ := h p List.mem_cons_self
    rw [candidates, hz, ih fun q hq => h q (List.mem_cons_of_mem p hq), cardsOf, cardsOf,
      List.flatMap_cons, hz]
    rfl

theorem mem_cardsOf :
    card ∈ d.cardsOf place t players ↔
      ∃ p ∈ players, d.Lies p card place ∧ d.isOfType t card = true := by
  simp only [cardsOf, List.mem_flatMap, Lies]
  refine exists_congr fun p => and_congr_right fun _ => ?_
  cases d.zone p place with
  | error e => simp
  | ok z => simp

theorem opponent_ne (hd : d.Sound) (h : d.opponent acting = .ok opponent) : acting ≠ opponent := by
  have hne : d.first.id ≠ d.second.id := hd.fixture.distinct
  rcases opponent_eq_ok_iff.mp h with ⟨rfl, rfl⟩ | ⟨-, rfl, rfl⟩
  · exact hne
  · exact hne.symm

theorem nodup_side (hne : acting ≠ opponent) (side : Side) :
    (side.players acting opponent).Nodup := by
  cases side <;> simp [Side.players, hne]

/-- No card is a candidate twice, since no card lies in two places. -/
theorem Sound.nodup_cardsOf (hd : d.Sound) (hplayers : players.Nodup) :
    (d.cardsOf place t players).Nodup := by
  rw [cardsOf, List.nodup_flatMap]
  constructor
  · intro p _
    split
    · rename_i z hz
      exact (hd.laid.nodup_zone hd.fixture hz).filter _
    · exact List.nodup_nil
  · refine hplayers.imp fun {p q} hne card hp hq => hne ?_
    have hp : card ∈ d.cardsOf place t [p] := by simpa [cardsOf] using hp
    have hq : card ∈ d.cardsOf place t [q] := by simpa [cardsOf] using hq
    simp only [mem_cardsOf, List.mem_singleton, exists_eq_left] at hp hq
    obtain ⟨⟨z, hz, hin⟩, -⟩ := hp
    obtain ⟨⟨z', hz', hin'⟩, -⟩ := hq
    exact (hd.laid.unique hd.fixture hz hin hz' hin').1

/-- There are fewer candidates than there are numbers for cards. -/
theorem Sound.length_cardsOf_lt (hd : d.Sound) (hplayers : players.Nodup) :
    (d.cardsOf place t players).length < d.nextInstance.number := by
  have hsub : d.cardsOf place t players ⊆ d.cards.map Card.id := by
    intro card hcard
    obtain ⟨p, -, ⟨z, hz, hin⟩, -⟩ := mem_cardsOf.mp hcard
    obtain ⟨s, hs, hz⟩ := zone_eq_ok.mp hz
    obtain ⟨c, hc, rfl, -⟩ := hd.owner_of_mem_held (seat_eq_ok hs).1
      (List.mem_flatMap.mpr ⟨z, (Seat.zone?_eq_some hz).1, hin⟩)
    exact List.mem_map_of_mem hc
  have hlength := (List.subperm_of_subset (hd.nodup_cardsOf hplayers) hsub).length_le
  obtain ⟨hpos, hids⟩ := hd.ids_eq
  rw [hids, List.length_map, List.length_range'] at hlength
  omega

/-- A chosen card is looked for on each of the sides. -/
theorem liesIn_eq (card : InstanceId) (h : ∀ p ∈ players, ∃ z, d.zone p place = .ok z) :
    liesIn d place card players = .ok true ∧ (∃ p ∈ players, d.Lies p card place) ∨
      liesIn d place card players = .ok false ∧ ¬ ∃ p ∈ players, d.Lies p card place := by
  induction players with
  | nil => exact .inr ⟨rfl, by simp⟩
  | cons p rest ih =>
    obtain ⟨z, hz⟩ := h p List.mem_cons_self
    have hlies : d.Lies p card place ↔ card ∈ z.cards := by simp [Lies, hz]
    have hstep : liesIn d place card (p :: rest) =
        if z.contains card then .ok true else liesIn d place card rest := by
      rw [liesIn, hz]
      rfl
    rw [hstep, List.exists_mem_cons_iff, hlies]
    by_cases hin : card ∈ z.cards
    · exact .inl ⟨if_pos (by simpa [Zone.contains] using hin), .inl hin⟩
    · rw [if_neg (by simpa [Zone.contains] using hin), or_iff_right hin]
      exact ih fun q hq => h q (List.mem_cons_of_mem p hq)

/-- Where the catalog has no such zone, no player has it. -/
theorem Laid.zone_eq_error (h : d.Laid) (hp : p ∈ d.fixture.players)
    (hplace : place ∉ d.catalog.zoneIds) : d.zone p place = .error (.zoneNotFound p place) := by
  obtain ⟨s, hs⟩ := seat_isOk_iff.mpr hp
  cases hz : s.zone? place with
  | some z => exact absurd (h.mem_zoneIds (zone_eq_ok.mpr ⟨s, hs, hz⟩)) hplace
  | none => simp [zone, hs, hz, Bind.bind, Except.bind]

end Duel

/-! ## §3 Searches -/

namespace Duel

variable {d : Duel} {acting opponent : PlayerId} {source : InstanceId} {kind : CardTarget}
variable {conditions : List Condition} {place : ZoneId} {t : CardTypeId} {selection : Selection}
variable {members : List InstanceId} {g : Random.Generator} {side : Side}

/-- The search ends with those members of a list that meet the conditions,
and with the generator. Or it meets a fault, and there is a member with a
stat that a condition asks for and that cannot be read. -/
def Sifts (d : Duel) (conditions : List Condition) (members : List InstanceId)
    (g : Random.Generator) (o : Outcome Duel Answer) : Prop :=
  o = .done (.cards (members.filter fun id => d.meets (.card id) conditions))
      { d with generator := g } ∨
    o = .fault .boundsOutOfOrder ∧ ∃ id ∈ members, ∃ k ∈ conditions, ¬ d.Readable (.card id) k.stat

theorem Sifts.nil {o : Outcome Duel Answer} (h : d.Sifts conditions [] g o) :
    o = .done (.cards []) { d with generator := g } := by
  rcases h with h | ⟨-, id, hid, -⟩
  · exact h
  · cases hid

/-- A search puts to the conditions what is drawn from the pool. -/
theorem sifts_of_cardPool {pool : Pool InstanceId}
    (h : cardPool d acting source place t selection kind = .ok pool) :
    d.Sifts conditions (pool.drawn d.generator).1 (pool.drawn d.generator).2
      (d.ask (.cardTargets acting source (.card kind conditions) place t selection)) := by
  rw [Sifts, ask_cardTargets_eq, h]
  dsimp only
  rcases keepSatisfying_eq (d := d) Bearer.card conditions (pool.drawn d.generator).1 with
    hkept | ⟨hfault, hread⟩
  · rw [hkept]
    exact .inl rfl
  · rw [hfault]
    exact .inr ⟨rfl, hread⟩

/-- Nothing but the generator changes. -/
theorem ask_cardTargets_state {target : Target} {d' : Duel}
    (h : (d.ask (.cardTargets acting source target place t selection)).state? = some d') :
    d' = { d with generator := d'.generator } := by
  cases target with
  | player kind conditions =>
    cases h
    rfl
  | card kind conditions =>
    rw [ask_cardTargets_eq] at h
    split at h
    · split at h <;> cases h
      rfl
    · cases h
      rfl

/-! Pools, kind by kind. -/

theorem cardPool_source (hopponent : d.opponent acting = .ok opponent) :
    cardPool d acting source place t selection .source = .ok (.every [source]) := by
  rw [cardPool, hopponent]
  rfl

theorem Sound.candidates_eq (hd : d.Sound) (hopponent : d.opponent acting = .ok opponent)
    (hplace : place ∈ d.catalog.zoneIds) (side : Side) :
    candidates d place t (side.players acting opponent) =
      .ok (d.cardsOf place t (side.players acting opponent)) :=
  Duel.candidates_eq fun _ hp => hd.laid.exists_zone (mem_players_of_side hopponent _ hp) hplace

theorem Sound.candidates_eq_error (hd : d.Sound) (hopponent : d.opponent acting = .ok opponent)
    (hplace : place ∉ d.catalog.zoneIds) (side : Side) :
    ∃ p rest, side.players acting opponent = p :: rest ∧
      candidates d place t (side.players acting opponent) = .error (.zoneNotFound p place) := by
  obtain ⟨p, rest, hplayers⟩ : ∃ p rest, side.players acting opponent = p :: rest := by
    cases side <;> exact ⟨_, _, rfl⟩
  have hp : p ∈ d.fixture.players :=
    mem_players_of_side hopponent p (hplayers ▸ List.mem_cons_self)
  refine ⟨p, rest, hplayers, ?_⟩
  rw [hplayers, candidates, hd.laid.zone_eq_error hp hplace]
  rfl

theorem cardPool_all (hopponent : d.opponent acting = .ok opponent) :
    cardPool d acting source place t selection (.all side) =
      (candidates d (selection.zone.getD place) t (side.players acting opponent)).map Pool.every := by
  rw [cardPool, hopponent]
  show (candidates _ _ _ _ >>= fun ids => .ok (Pool.every ids)) = _
  cases candidates d (selection.zone.getD place) t (side.players acting opponent) <;> rfl

theorem cardPool_random (hopponent : d.opponent acting = .ok opponent) :
    cardPool d acting source place t selection (.random side) =
      (candidates d (selection.zone.getD place) t (side.players acting opponent)).map Pool.oneOf := by
  rw [cardPool, hopponent]
  show (candidates _ _ _ _ >>= fun ids => .ok (Pool.oneOf ids)) = _
  cases candidates d (selection.zone.getD place) t (side.players acting opponent) <;> rfl

/-- A chosen card has to lie in the zone, on one of the sides. -/
theorem Sound.cardPool_chosen (hd : d.Sound) (source : InstanceId) (t : CardTypeId) (side : Side)
    (hopponent : d.opponent acting = .ok opponent)
    (hplace : selection.zone.getD place ∈ d.catalog.zoneIds) :
    (∃ card, selection.card = some card ∧
        (∃ p ∈ side.players acting opponent, d.Lies p card (selection.zone.getD place)) ∧
        cardPool d acting source place t selection (.chosen side) = .ok (.every [card])) ∨
      (∀ card, selection.card = some card →
        ¬ ∃ p ∈ side.players acting opponent, d.Lies p card (selection.zone.getD place)) ∧
        cardPool d acting source place t selection (.chosen side) = .ok (.every []) := by
  rw [cardPool, hopponent]
  cases selection.card with
  | none => exact .inr ⟨nofun, rfl⟩
  | some card =>
    have hzones (p : PlayerId) (hp : p ∈ side.players acting opponent) :
        ∃ z, d.zone p (selection.zone.getD place) = .ok z :=
      hd.laid.exists_zone (mem_players_of_side hopponent p hp) hplace
    show (∃ _, _ ∧ _ ∧ (liesIn _ _ _ _ >>= _) = _) ∨ _ ∧ (liesIn _ _ _ _ >>= _) = _
    rcases liesIn_eq card hzones with ⟨hfound, hlies⟩ | ⟨hfound, hlies⟩
    · rw [hfound]
      exact .inl ⟨card, rfl, hlies, rfl⟩
    · rw [hfound]
      refine .inr ⟨?_, rfl⟩
      rintro _ ⟨⟩
      exact hlies

end Duel

/-- What a search of a kind has to end with. The cards of the type are
listed first; a search among all of them sifts the list, one at random
draws a place in it and sifts the card there. The source and the card that
is chosen are sifted by themselves. -/
def Duel.Finds (d : Duel) (acting opponent : PlayerId) (source : InstanceId)
    (conditions : List Condition) (place : ZoneId) (t : CardTypeId) (chosen : Option InstanceId)
    (found : Outcome Duel Answer) : CardTarget → Prop
  | .source => d.Sifts conditions [source] d.generator found
  | .chosen side =>
    place ∈ d.catalog.zoneIds →
      (∀ card, chosen = some card →
        (∃ p ∈ side.players acting opponent, d.Lies p card place) →
          d.Sifts conditions [card] d.generator found) ∧
      ((¬ ∃ card, chosen = some card ∧
        ∃ p ∈ side.players acting opponent, d.Lies p card place) → found = .done (.cards []) d)
  | .random side =>
    (place ∈ d.catalog.zoneIds →
      (d.cardsOf place t (side.players acting opponent) = [] → found = .done (.cards []) d) ∧
      ∀ cards, d.cardsOf place t (side.players acting opponent) = cards → cards ≠ [] →
        ∃ i card, (d.generator.index? cards.length).1 = some i ∧ cards[i]? = some card ∧
          d.Sifts conditions [card] (d.generator.index? cards.length).2 found ∧
          (d.nextInstance.number ≤ UInt32.size →
            (d.generator.index? cards.length).2.calls = d.generator.calls + 1)) ∧
    (place ∉ d.catalog.zoneIds → ∃ p rest, side.players acting opponent = p :: rest ∧
      found = .refused (.lookup (.zoneNotFound p place)) d)
  | .all side =>
    (place ∈ d.catalog.zoneIds →
      (d.cardsOf place t (side.players acting opponent)).Nodup ∧
      d.Sifts conditions (d.cardsOf place t (side.players acting opponent)) d.generator found) ∧
    (place ∉ d.catalog.zoneIds → ∃ p rest, side.players acting opponent = p :: rest ∧
      found = .refused (.lookup (.zoneNotFound p place)) d)

open Duel in
/-- **What a search for card targets finds.** The zone is that of the
selection if it has one. A search among all cards gives those of the type
that meet the conditions, and none twice; one at random draws a place in
the same list, and leaves the generator if the list is empty; a chosen
card has to lie in the zone. Without the zone, the search is refused. Only
the generator changes. -/
theorem card_targets_found {catalog : Catalog} {d : Duel} (h : Visited catalog d)
    {acting opponent : PlayerId} (hopponent : d.opponent acting = .ok opponent)
    (source : InstanceId) (kind : CardTarget) (conditions : List Condition) (place : ZoneId)
    (t : CardTypeId) (selection : Selection) :
    let found := d.ask (.cardTargets acting source (.card kind conditions) place t selection)
    d.Finds acting opponent source conditions (selection.zone.getD place) t selection.card found
      kind ∧
    ∀ d', found.state? = some d' → d' = { d with generator := d'.generator } := by
  intro found
  let place' := selection.zone.getD place
  have hd := h.sound
  have hnodup (side : Side) : (side.players acting opponent).Nodup :=
    nodup_side (opponent_ne hd hopponent) side
  -- The pool decides what is drawn, and the draw what is sifted.
  have hsift {pool : Pool InstanceId}
      (hpool : cardPool d acting source place t selection kind = .ok pool) :
      d.Sifts conditions (pool.drawn d.generator).1 (pool.drawn d.generator).2 found :=
    sifts_of_cardPool hpool
  have hrefused {e : LookupError}
      (hpool : cardPool d acting source place t selection kind = .error e) :
      found = .refused (.lookup e) d := by
    show d.ask _ = _
    rw [ask_cardTargets_eq, hpool]
  refine ⟨?_, fun d' => ask_cardTargets_state⟩
  cases kind with
  | source => exact hsift (cardPool_source hopponent)
  | chosen side =>
    intro hplace
    rcases hd.cardPool_chosen source t side hopponent hplace with
      ⟨card, hcard, hlies, hpool⟩ | ⟨hnone, hpool⟩
    · refine ⟨fun card' hcard' _ => ?_, fun hno => absurd ⟨card, hcard, hlies⟩ hno⟩
      cases hcard.symm.trans hcard'
      exact hsift hpool
    · exact ⟨fun card hcard hlies => absurd hlies (hnone card hcard), fun _ => (hsift hpool).nil⟩
  | random side =>
    refine ⟨fun hplace => ?_, fun hplace => ?_⟩
    · have hpool : cardPool d acting source place t selection (.random side) =
          .ok (.oneOf (d.cardsOf place' t (side.players acting opponent))) := by
        rw [cardPool_random hopponent, hd.candidates_eq hopponent hplace]
        rfl
      have hdrawn := hsift hpool
      constructor
      · intro hnil
        rw [hnil] at hdrawn
        exact hdrawn.nil
      · rintro cards rfl hne
        obtain ⟨i, card, hi, hcard, hpicked⟩ :=
          Random.Generator.pick?_of_ne_nil (g := d.generator) hne
        refine ⟨i, card, hi, hcard, ?_, fun hnext => ?_⟩
        · rw [Pool.drawn, hpicked] at hdrawn
          exact hdrawn
        · have hlength : (d.cardsOf place' t (side.players acting opponent)).length <
              d.nextInstance.number := hd.length_cardsOf_lt (hnodup side)
          have hsize : UInt32.size ≤ Points.greatest.val := by decide
          have hbound : (d.cardsOf place' t (side.players acting opponent)).length ≤
              Points.greatest.val := by omega
          exact Random.Generator.calls_index? (List.length_pos_iff.mpr hne) hbound
    · obtain ⟨p, rest, hplayers, herror⟩ :=
        hd.candidates_eq_error (t := t) hopponent hplace side
      refine ⟨p, rest, hplayers, hrefused ?_⟩
      rw [cardPool_random hopponent, herror]
      rfl
  | all side =>
    refine ⟨fun hplace => ?_, fun hplace => ?_⟩
    · have hpool : cardPool d acting source place t selection (.all side) =
          .ok (.every (d.cardsOf place' t (side.players acting opponent))) := by
        rw [cardPool_all hopponent, hd.candidates_eq hopponent hplace]
        rfl
      exact ⟨hd.nodup_cardsOf (hnodup side), hsift hpool⟩
    · obtain ⟨p, rest, hplayers, herror⟩ :=
        hd.candidates_eq_error (t := t) hopponent hplace side
      refine ⟨p, rest, hplayers, hrefused ?_⟩
      rw [cardPool_all hopponent, herror]
      rfl

namespace Starter

/-- The starter catalog, but the life of creatures is asked to be one at
least and nought at most. -/
def crossedLife : Catalog :=
  { catalog {} with
    cardTypes :=
      [{ creature with
          stats := [{ name := "Life", base := 1, low := 1, high := 0 },
            { name := "Attack", base := 1 }] }, spell] }

end Starter

/-- There are three cards in the decks, and two of them are creatures. The
acting player's comes first, whatever the seats. -/
theorem creatures_found_in_decks :
    ∃ d, Visited (Starter.catalog {}) d ∧ d.opponent ⟨2⟩ = .ok ⟨1⟩ ∧
      d.cardsOf Starter.deck Starter.creature.id [⟨2⟩, ⟨1⟩] = [⟨3⟩, ⟨1⟩] ∧
      d.Sifts [⟨"Life", .greater, 0⟩] [⟨3⟩, ⟨1⟩] d.generator
        (d.ask (.cardTargets ⟨2⟩ ⟨3⟩ (.card (.all .both) [⟨"Life", .greater, 0⟩]) Starter.board
          Starter.creature.id { zone := some Starter.deck })) := by
  obtain ⟨d, hstart, hopponent, hcards, hplace⟩ :=
    @Duel.exists_of_start (Starter.catalog {}) 7 ⟨⟨1⟩, [⟨1⟩, ⟨2⟩]⟩ ⟨⟨2⟩, [⟨1⟩]⟩
      (fun d => d.opponent ⟨2⟩ = .ok ⟨1⟩ ∧
        d.cardsOf Starter.deck Starter.creature.id [⟨2⟩, ⟨1⟩] = [⟨3⟩, ⟨1⟩] ∧
        Starter.deck ∈ d.catalog.zoneIds)
      (by decide +kernel)
  have hvisited : Visited (Starter.catalog {}) d := .start hstart
  obtain ⟨-, hsifts⟩ :=
    (card_targets_found hvisited hopponent ⟨3⟩ (.all .both) [⟨"Life", .greater, 0⟩] Starter.board
      Starter.creature.id { zone := some Starter.deck }).1.1 hplace
  refine ⟨d, hvisited, hopponent, hcards, ?_⟩
  rw [← hcards]
  exact hsifts

/-- Validation does not look at the bounds of stats. Where those of life
are out of order, a search among creatures with a condition on it has no
answer. -/
theorem search_meets_fault :
    ∃ d, Visited Starter.crossedLife d ∧ d.opponent ⟨1⟩ = .ok ⟨2⟩ ∧
      Starter.deck ∈ d.catalog.zoneIds ∧
      d.cardsOf Starter.deck Starter.creature.id [⟨1⟩] = [⟨1⟩] ∧
      d.ask (.cardTargets ⟨1⟩ ⟨1⟩ (.card (.all .acting) [⟨"Life", .greater, 0⟩]) Starter.deck
        Starter.creature.id {}) = .fault .boundsOutOfOrder := by
  obtain ⟨d, hstart, hfacts⟩ :=
    @Duel.exists_of_start Starter.crossedLife 7 ⟨⟨1⟩, [⟨1⟩]⟩ ⟨⟨2⟩, []⟩
      (fun d => d.opponent ⟨1⟩ = .ok ⟨2⟩ ∧ Starter.deck ∈ d.catalog.zoneIds ∧
        d.cardsOf Starter.deck Starter.creature.id [⟨1⟩] = [⟨1⟩] ∧
        d.ask (.cardTargets ⟨1⟩ ⟨1⟩ (.card (.all .acting) [⟨"Life", .greater, 0⟩]) Starter.deck
          Starter.creature.id {}) = .fault .boundsOutOfOrder)
      (by decide +kernel)
  exact ⟨d, .start hstart, hfacts⟩

/-! ## §4 Types -/

/-- What a search of a kind makes sure of about a card that it gives: it is
the source; or it is the one that is chosen, and lies in the zone; or it
lies in the zone and is of the type. -/
def Duel.Admits (d : Duel) (source : InstanceId) (place : ZoneId) (t : CardTypeId)
    (selection : Selection) (id : InstanceId) : CardTarget → Prop
  | .source => id = source
  | .chosen _ => selection.card = some id ∧ ∃ p, d.Lies p id (selection.zone.getD place)
  | .random _ | .all _ =>
    (∃ p, d.Lies p id (selection.zone.getD place)) ∧ d.isOfType t id = true

/-- What an effect on cards does to one of its targets. -/
def Effect.onCard (fire : Dispatch) (selection : Selection) (e : Effect) (applied : Bool)
    (card : InstanceId) : Engine Bool :=
  match e with
  | .player _ => return applied
  | .card e => applyAndNotify fire (.card card) e.stat (applyCardEffect card e) applied
  | .move e => moveIfThere fire (selection.zone.getD e.zone) e.destination applied card

namespace Play

variable {d : Duel} {acting : PlayerId} {source : InstanceId} {kind : CardTarget}
variable {conditions : List Condition} {place : ZoneId} {t : CardTypeId} {selection : Selection}

theorem admits_of_cardPool {pool : Pool InstanceId}
    (h : cardPool d acting source place t selection kind = .ok pool) :
    ∀ id ∈ pool.members, d.Admits source place t selection id kind := by
  obtain ⟨opponent, -, h⟩ := Except.bind_eq_ok_iff.mp h
  cases kind with
  | source =>
    cases h
    exact fun id hid => List.mem_singleton.mp hid
  | chosen side =>
    cases hcard : selection.card with
    | none =>
      rw [hcard] at h
      cases h
      exact fun id hid => absurd hid List.not_mem_nil
    | some card =>
      rw [hcard] at h
      obtain ⟨found, hfound, h⟩ := Except.bind_eq_ok_iff.mp h
      cases h
      cases found with
      | false => exact fun id hid => absurd hid List.not_mem_nil
      | true =>
        intro id hid
        obtain rfl := List.mem_singleton.mp hid
        exact ⟨hcard, lies_of_liesIn hfound⟩
  | random side | all side =>
    obtain ⟨ids, hids, h⟩ := Except.bind_eq_ok_iff.mp h
    cases h
    intro id hid
    obtain ⟨p, z, hz, hin, htype⟩ := of_mem_candidates hids id hid
    exact ⟨⟨p, z, hz, hin⟩, htype⟩

theorem resolve_of_unavailable {e : Effect} {target : Target} (fire : Dispatch) {s : Scene}
    (h : available s.duel acting e target selection = false) :
    resolve fire acting source e target selection s = .done false s := by
  rw [resolve, bind_duel, if_neg (by simp [h])]
  rfl

variable {e : Effect} (hplace : e.zone? = some place) (htype : e.cardType? = some t)
include hplace htype

/-- What is available resolves to the targets that are drawn from the pool,
one after the other, and to nothing if there is no pool. -/
theorem resolve_of_available (fire : Dispatch) {s : Scene}
    (h : available s.duel acting e (.card kind conditions) selection = true) :
    resolve fire acting source e (.card kind conditions) selection s =
      ((cardPool s.duel acting source place t selection kind).toOption.elim (pure false)
        fun pool => pool.targets .card conditions >>= fun ids =>
          ids.foldlM (e.onCard fire selection) false) s := by
  rw [resolve, bind_duel, if_pos h]
  cases e with
  | player e => cases hplace
  | card e | move e =>
    cases hplace
    cases htype
    dsimp only
    cases cardPool s.duel acting source e.zone e.cardType selection kind <;> rfl

/-- Resolving an effect on cards comes to applying it to one target after
the other. -/
theorem resolve_eq_foldlM (fire : Dispatch) (s : Scene) :
    resolve fire acting source e (.card kind conditions) selection s = .done false s ∨
      resolve fire acting source e (.card kind conditions) selection s =
        .fault .boundsOutOfOrder ∨
      ∃ (ids : List InstanceId) (g : Random.Generator),
        (∀ id ∈ ids, s.duel.Admits source place t selection id kind) ∧
        resolve fire acting source e (.card kind conditions) selection s =
          ids.foldlM (e.onCard fire selection) false
            { s with duel := { s.duel with generator := g } } := by
  cases havailable : available s.duel acting e (.card kind conditions) selection with
  | false => exact .inl (resolve_of_unavailable fire havailable)
  | true =>
    rw [resolve_of_available hplace htype fire havailable]
    cases hpool : cardPool s.duel acting source place t selection kind with
    | error cause => exact .inl rfl
    | ok pool =>
      right
      show (pool.targets .card conditions >>= _) s = _ ∨
        ∃ ids g, _ ∧ (pool.targets .card conditions >>= _) s = _
      rw [bind_eq, targets_eq]
      rcases keepSatisfying_eq (d := s.duel) Bearer.card conditions
        (pool.drawn s.duel.generator).1 with hkept | ⟨hfault, -⟩
      · rw [hkept]
        exact .inr ⟨_, _, fun id hid =>
          admits_of_cardPool hpool id (mem_of_drawn (List.mem_filter.mp hid).1), rfl⟩
      · rw [hfault]
        exact .inl rfl

end Play

/-- **Targets are of the type that is asked for, unless they are chosen.**
A search at random or among all cards gives cards of the type only. So an
effect on cards that looks for its targets in this way comes to nothing,
or to applying it to some cards of the type, one after the other. A card
that is chosen lies in the zone, and that is all. -/
theorem typed_unless_chosen (d : Duel) (acting : PlayerId) (source : InstanceId)
    (kind : CardTarget) (conditions : List Condition) (place : ZoneId) (t : CardTypeId)
    (selection : Selection) :
    (∀ ids d', d.ask (.cardTargets acting source (.card kind conditions) place t selection) =
        .done (.cards ids) d' →
      ∀ id ∈ ids, d.Admits source place t selection id kind) ∧
    ∀ (e : Effect), e.zone? = some place → e.cardType? = some t →
      ∀ (fire : Dispatch) (s : Scene), s.duel = d →
        resolve fire acting source e (.card kind conditions) selection s = .done false s ∨
          resolve fire acting source e (.card kind conditions) selection s =
            .fault .boundsOutOfOrder ∨
          ∃ (ids : List InstanceId) (g : Random.Generator),
            (∀ id ∈ ids, d.Admits source place t selection id kind) ∧
            resolve fire acting source e (.card kind conditions) selection s =
              ids.foldlM (e.onCard fire selection) false
                { s with duel := { d with generator := g } } := by
  refine ⟨fun ids d' h => ?_, fun e hplace htype fire s hs => ?_⟩
  · rw [Duel.ask_cardTargets_eq] at h
    cases hpool : cardPool d acting source place t selection kind with
    | error e =>
      rw [hpool] at h
      cases h
    | ok pool =>
      rw [hpool] at h
      dsimp only at h
      split at h
      · rename_i kept hkept
        cases h
        exact fun id hid =>
          admits_of_cardPool hpool id (mem_of_drawn (mem_of_keepSatisfying hkept id hid))
      · cases h
  · subst hs
    exact resolve_eq_foldlM hplace htype fire s

namespace Starter

/-- A creature that has a creature of the acting player's deck drawn when
told to, the one that is chosen. -/
def mentor : CardSpec where
  id := ⟨3⟩
  name := "Mentor"
  cardType := creature.id
  abilities :=
    [.activated { effect := .move ⟨deck, creature.id, hand⟩, target := .card (.chosen .acting) [] }]

end Starter

/-- Of the cards in the decks, a search at random gives a creature. -/
theorem creature_found_at_random :
    ∃ d ids d', Visited (Starter.catalog {}) d ∧
      d.ask (.cardTargets ⟨2⟩ ⟨3⟩ (.card (.random .both) []) Starter.deck Starter.creature.id {}) =
        .done (.cards ids) d' ∧
      ids ≠ [] ∧ ∀ id ∈ ids, d.isOfType Starter.creature.id id = true := by
  obtain ⟨d, hstart, d', -, id, -, hfound⟩ :=
    @Duel.exists_of_start (Starter.catalog {}) 7 ⟨⟨1⟩, [⟨1⟩, ⟨2⟩]⟩ ⟨⟨2⟩, [⟨1⟩]⟩
      (fun d => ∃ d' ∈ (d.ask (.cardTargets ⟨2⟩ ⟨3⟩ (.card (.random .both) []) Starter.deck
          Starter.creature.id {})).state?, ∃ id ∈ [⟨1⟩, ⟨2⟩, ⟨3⟩],
        d.ask (.cardTargets ⟨2⟩ ⟨3⟩ (.card (.random .both) []) Starter.deck Starter.creature.id
          {}) = .done (.cards [id]) d')
      (by decide +kernel)
  have hadmits := (typed_unless_chosen d ⟨2⟩ ⟨3⟩ (.random .both) [] Starter.deck
    Starter.creature.id {}).1 [id] d' hfound
  exact ⟨d, [id], d', .start hstart, hfound, List.cons_ne_nil id [],
    fun id' hid' => (hadmits id' hid').2⟩

/-- A search for creatures gives a spell, if the spell is chosen, and an
effect that has creatures drawn takes it out of the deck. It does not stay
in the hand, since it is a spell. -/
theorem spell_chosen_as_creature :
    ∃ d d', Visited (Starter.catalog { extraCards := [Starter.mentor] }) d ∧
      d.isOfType Starter.creature.id ⟨2⟩ = false ∧ d.isOfType Starter.spell.id ⟨2⟩ = true ∧
      d.ask (.cardTargets ⟨1⟩ ⟨1⟩ (.card (.chosen .acting) []) Starter.deck Starter.creature.id
        { card := some ⟨2⟩ }) = .done (.cards [⟨2⟩]) d ∧
      d.perform 64 (.activate ⟨1⟩ ⟨1⟩ 0 { card := some ⟨2⟩ }) = .done (.resolved true) d' ∧
      d.location? ⟨2⟩ = some (⟨1⟩, Starter.deck) ∧
      d'.location? ⟨2⟩ = some (⟨1⟩, Starter.graveyard) := by
  obtain ⟨d, hstart, d', -, hfacts⟩ :=
    @Duel.exists_of_start (Starter.catalog { extraCards := [Starter.mentor] }) 7
      ⟨⟨1⟩, [⟨3⟩, ⟨2⟩]⟩ ⟨⟨2⟩, []⟩
      (fun d => ∃ d' ∈ (d.perform 64 (.activate ⟨1⟩ ⟨1⟩ 0 { card := some ⟨2⟩ })).state?,
        d.isOfType Starter.creature.id ⟨2⟩ = false ∧ d.isOfType Starter.spell.id ⟨2⟩ = true ∧
        d.ask (.cardTargets ⟨1⟩ ⟨1⟩ (.card (.chosen .acting) []) Starter.deck Starter.creature.id
          { card := some ⟨2⟩ }) = .done (.cards [⟨2⟩]) d ∧
        d.perform 64 (.activate ⟨1⟩ ⟨1⟩ 0 { card := some ⟨2⟩ }) = .done (.resolved true) d' ∧
        d.location? ⟨2⟩ = some (⟨1⟩, Starter.deck) ∧
        d'.location? ⟨2⟩ = some (⟨1⟩, Starter.graveyard))
      (by decide +kernel)
  exact ⟨d, d', .start hstart, hfacts⟩

end CardDuel
