/-
CardDuel.Proofs.Relocation — a card goes where its type wants it.

A card type may name the zone that its cards go to after the abilities of
a move have acted. A move leaves that last step out when the card is no
longer where the move put it, so a chain that moves the card itself seems
to get around it. It does not: what moved the card away was a move as
well. Between two steps of a chain the card lies where the latest move
that is under way put it, or already where its type wants it, and the
chain keeps it so, whatever it does to the card.

  §1 Places — where a card lies after a transfer.
  §2 Chains — the invariant, with the place as its index.
  §3 Moves  — every move that is done, at whatever depth.
-/
import CardDuel.Catalog.Starter
import CardDuel.Proofs.Destruction
import CardDuel.Proofs.Partition

namespace CardDuel

open Engine Play

/-! ## §1 Places -/

namespace Duel

/-- The card lies in that zone of the player. -/
def Lies (d : Duel) (p : PlayerId) (id : InstanceId) (place : ZoneId) : Prop :=
  ∃ z, d.zone p place = .ok z ∧ id ∈ z.cards

variable {d d' : Duel} {p q : PlayerId} {id card : InstanceId}
  {place origin destination : ZoneId}

instance : Decidable (d.Lies p id place) :=
  match h : d.zone p place with
  | .ok z => decidable_of_iff (id ∈ z.cards) (by simp [Lies, h])
  | .error _ => .isFalse (by simp [Lies, h])

theorem Lies.congr (h : d.Lies p id place) (hz : d'.zone p place = d.zone p place) :
    d'.Lies p id place := by
  rwa [Lies, hz]

/-- A card lies where it is put. -/
theorem lies_transfer (ho : ∃ z, d.zone p origin = .ok z) (hd : ∃ z, d.zone p destination = .ok z) :
    (d.transfer p id origin destination).Lies p id destination := by
  obtain ⟨z, hz⟩ := ho
  obtain ⟨z', hz'⟩ := hd
  rw [Lies, zone_transfer]
  by_cases heq : destination = origin
  · simp [heq, hz, Except.map, Zone.push]
  · simp [heq, hz', Except.map, Zone.push]

/-- The transfer of another card leaves a card where it is. -/
theorem Lies.transfer (h : d.Lies p id place) (hne : id ≠ card) :
    (d.transfer q card origin destination).Lies p id place := by
  obtain ⟨z, hz, hid⟩ := h
  have hremove (z : Zone) : id ∈ (z.remove card).cards ↔ id ∈ z.cards := by
    simp [Zone.remove, List.mem_erase_of_ne hne]
  have hpush (z : Zone) : id ∈ (z.push card).cards ↔ id ∈ z.cards := by
    simp [Zone.push, hne]
  rw [Lies, zone_transfer]
  by_cases hq : p = q
  · subst hq
    by_cases hd : place = destination
    · subst hd
      by_cases ho : place = origin
      · subst ho
        simp [hz, Except.map, hpush, hremove, hid]
      · simp [hz, ho, Except.map, hpush, hid]
    · by_cases ho : place = origin
      · subst ho
        simp [hz, hd, Except.map, hremove, hid]
      · simp [hz, hd, ho, hid]
  · simp [hq, hz, hid]

end Duel

/-! ## §2 Chains -/

variable {φ : Fixture} {t : CardTag} {home : ZoneId} {s s' : Scene}

/-- The card lies in the place, or else where its type wants it. -/
def homing (t : CardTag) (home place : ZoneId) (s : Scene) : Prop :=
  s.duel.Lies t.owner t.id place ∨ s.duel.Lies t.owner t.id home

/-- The type of the card wants it in that zone after a move. -/
def Fixture.Wants (φ : Fixture) (t : CardTag) (home : ZoneId) : Prop :=
  (φ.catalog.cardType? t.cardType).bind (·.zoneAfterTrigger) = some home

/-- The relocation after a move brings the card home if it still lies
where the move put it. If it does not, it is home already. -/
theorem wp_relocate_home {place : ZoneId} (hφ : φ.Sound) (ht : φ.tag? t.id = some t)
    (hhome : φ.Wants t home) (hplace : place ∈ φ.catalog.zoneIds)
    (hs : Standing φ (homing t home place) s) :
    wp .all (relocate t.owner t.id t.cardType place)
      (fun _ => Standing φ fun s => s.duel.Lies t.owner t.id home) s := by
  have howner := hφ.owners t (Fixture.tag?_id ht).1
  refine wp_relocate hφ hs howner hplace (fun hleft => ?_) fun after z hafter hz _ => ?_
  · rcases hs.holds with hlies | hlies
    · by_cases heq : home = place
      · exact heq ▸ hlies
      · obtain ⟨z, hz, hin⟩ := hlies
        exact absurd hin (hleft home z hhome heq hz)
    · exact hlies
  · cases hhome.symm.trans hafter
    have hids := hφ.closed.mem_of_sends (Catalog.sends_of_after hhome)
    exact Duel.lies_transfer ⟨z, hz⟩ (hs.zone howner hids)

/-- **Moves keep the invariant**, those of the card itself too: while such
a move is under way the index is the place that it puts the card in, and
when it is done the card is home. -/
theorem moves_homing (hφ : φ.Sound) (ht : φ.tag? t.id = some t) (hhome : φ.Wants t home) :
    Moves φ .all (homing t home) where
  sound := hφ
  moved {fire place s p z id origin destination selection} hfire hs ho hid hsends := by
    have hd := hφ.closed.mem_of_sends hsends
    have hp := hs.mem_players ho
    by_cases heq : id = t.id
    · subst heq
      refine wp_move (i := destination) hφ hfire hs ho hid hd (.inl ?_)
        fun t' s₁ ht' howner hs₁ => ?_
      · obtain ⟨t', ht', rfl⟩ := hs.tag? hφ ho hid
        cases ht.symm.trans ht'
        exact Duel.lies_transfer ⟨z, ho⟩ (hs.zone hp hd)
      · cases ht.symm.trans ht'
        subst howner
        refine wp_mono (wp_relocate_home hφ ht hhome hd hs₁) fun _ s₂ hs₂ => ?_
        exact ⟨hs₂.fixture, hs₂.laid, .inr hs₂.holds⟩
    · have hkept {s : Scene} (h : homing t home place s) (origin destination : ZoneId) :
          homing t home place { s with duel := s.duel.transfer p id origin destination } :=
        Or.imp (fun h => h.transfer fun h => heq h.symm) (fun h => h.transfer fun h => heq h.symm) h
      refine wp_move (i := place) hφ hfire hs ho hid hd (hkept hs.holds _ _)
        fun t' s₁ _ _ hs₁ => ?_
      exact wp_relocate hφ hs₁ hp hd (fun _ => hs₁.holds) fun after _ _ _ _ => hkept hs₁.holds _ _
  read _ _ := trivial

theorem upkeep_homing (hφ : φ.Sound) (ht : φ.tag? t.id = some t) (hhome : φ.Wants t home)
    (limit : Nat) : Upkeep φ .all (homing t home) limit fun _ _ _ i => i :=
  have M : Moves φ .all (homing t home) := moves_homing hφ ht hhome
  have hkept {place : ZoneId} {s : Scene} (h : homing t home place s) (d : Duel)
      (hzone : ∀ p place, d.zone p place = s.duel.zone p place) (journal : List Event)
      (depth : Nat) : homing t home place ⟨d, journal, depth⟩ :=
    Or.imp (fun h => h.congr (hzone _ _)) (fun h => h.congr (hzone _ _)) h
  { M with
    draw := fun hs _ => hkept hs.holds _ (fun _ _ => rfl) _ _
    write := fun {place s b name block stat} adjustment amount turns hs _ _ _ => by
      split
      · exact hkept hs.holds _ (fun p place => Duel.zone_putStats b _ place) _ _
      · trivial
    swap := id
    notify := fun hfire _ hs => M.wp_notify hfire hs (hkept hs.holds _ (fun _ _ => rfl) _ _)
    enter := fun _ _ hs _ => hkept hs.holds _ (fun _ _ => rfl) _ _
    leave := fun hs => hkept hs.holds _ (fun _ _ => rfl) _ _
    leave_refused := fun _ => trivial
    stop := fun _ _ _ => trivial
    rounds := trivial }

/-! ## §3 Moves -/

/-- In a sound duel, in the midst of a chain or not, a move that is done
brings its card home. -/
theorem Duel.Sound.wp_move_home {limit rounds : Nat} {player : PlayerId} {card : InstanceId}
    {origin destination : ZoneId} {selection : Selection} {c : Card} {ct : CardType}
    (hs : s.duel.Sound) (hc : s.duel.card card = .ok c)
    (hct : s.duel.catalog.cardType? c.cardType = some ct)
    (hhome : ct.zoneAfterTrigger = some home) :
    wp .all (move (dispatch limit rounds) player card origin destination selection)
      (fun _ s' => s'.duel.Sound ∧ s'.duel.Lies player card home) s := by
  obtain ⟨-, rfl⟩ := Duel.card_eq_ok hc
  have hφ := hs.fixture
  have ht : s.duel.fixture.tag? c.tag.id = some c.tag := Duel.tag?_eq_some_iff.mpr ⟨c, hc, rfl⟩
  have hwants : s.duel.fixture.Wants c.tag home := by
    show (s.duel.catalog.cardType? c.cardType).bind (·.zoneAfterTrigger) = some home
    rw [hct]
    exact hhome
  have U := upkeep_homing hφ ht hwants limit
  have hstanding : Standing s.duel.fixture (fun _ => True) s := ⟨rfl, hs.laid, trivial⟩
  have early : Exits.all.Early s := ⟨fun _ => trivial, fun _ _ _ => trivial⟩
  refine wp_moveAction hφ hstanding early fun z hz hin hd => ?_
  obtain ⟨t, ht', rfl⟩ := hstanding.tag? hφ hz hin
  cases ht.symm.trans ht'
  have hlies : (s.duel.transfer c.owner c.id origin destination).Lies c.owner c.id destination :=
    Duel.lies_transfer ⟨z, hz⟩ (hstanding.zone (hstanding.mem_players hz) hd)
  have hmove : wp .all (move (dispatch limit rounds) c.owner c.id origin destination selection)
      (fun _ => Standing s.duel.fixture fun s => s.duel.Lies c.owner c.id home) s := by
    refine wp_move (i := destination) hφ (U.keeps_dispatch rounds) hstanding hz hin hd (.inl hlies)
      fun t' s₁ ht' _ hs₁ => ?_
    cases ht.symm.trans ht'
    exact wp_relocate_home hφ ht hwants hd hs₁
  exact wp_mono hmove fun _ s' hs' => ⟨⟨hs'.fixture ▸ hφ, hs'.laid⟩, hs'.holds⟩

/-- A card that lies in a zone lies nowhere else, and there once. -/
theorem Duel.Sound.lies_once {d : Duel} {p : PlayerId} {id : InstanceId} {place : ZoneId}
    (hd : d.Sound) (h : d.Lies p id place) :
    d.held.count id = 1 ∧ ∀ q place', d.Lies q id place' → q = p ∧ place' = place := by
  obtain ⟨z, hz, hin⟩ := h
  constructor
  · obtain ⟨t, ht, -⟩ := hd.laid.tag?_of_mem hd.fixture hz hin
    obtain ⟨c, hc, -⟩ := Duel.tag?_eq_some_iff.mp ht
    obtain ⟨hmem, rfl⟩ := Duel.card_eq_ok hc
    exact hd.count_held hmem
  · intro q place' h
    obtain ⟨z', hz', hin'⟩ := h
    exact hd.laid.unique hd.fixture hz' hin' hz hin

/-- **A card goes where its type wants it.** When a move of a card is done
and the type of the card names the zone for afterwards, the card lies in
that zone of the player, and nowhere else: whichever zones the move was
between, and whatever the chain did in the meantime, to this card or to
others. The same holds of the moves inside a chain, wherever in a sound
duel they are made. -/
theorem move_ends_home {log : List Action} {d : Duel} (h : Reached log d) (limit : Nat) :
    (∀ player card origin destination selection reply d' c ct home, d.card card = .ok c →
      d.catalog.cardType? c.cardType = some ct → ct.zoneAfterTrigger = some home →
        d.perform limit (.move player card origin destination selection) = .done reply d' →
          d'.Lies player card home ∧ d'.held.count card = 1 ∧
            ∀ q place, d'.Lies q card place → q = player ∧ place = home) ∧
    (∀ rounds player card origin destination selection s s' c ct home, s.duel.Sound →
      s.duel.card card = .ok c → s.duel.catalog.cardType? c.cardType = some ct →
        ct.zoneAfterTrigger = some home →
          move (dispatch limit rounds) player card origin destination selection s = .done () s' →
            s'.duel.Lies player card home ∧ s'.duel.held.count card = 1 ∧
              ∀ q place, s'.duel.Lies q card place → q = player ∧ place = home) := by
  constructor
  · intro player card origin destination selection reply d' c ct home hc hct hhome hdone
    have hrun : wp .all (Action.run (dispatch limit (limit + 1))
        (.move player card origin destination selection))
        (fun _ s' => s'.duel.Sound ∧ s'.duel.Lies player card home) ⟨d, [], 0⟩ :=
      wp_map.mpr (Duel.Sound.wp_move_home h.sound hc hct hhome)
    have hrun := perform_of_wp hrun
    rw [hdone] at hrun
    obtain ⟨s', rfl, hs', hlies⟩ := hrun
    exact ⟨hlies, hs'.lies_once hlies⟩
  · intro rounds player card origin destination selection s s' c ct home hs hc hct hhome hdone
    obtain ⟨hs', hlies⟩ := wp_done (hs.wp_move_home hc hct hhome) hdone
    exact ⟨hlies, hs'.lies_once hlies⟩

/-- A spell that goes back to the hand when it is played. -/
def echo : CardSpec where
  id := ⟨3⟩
  name := "Echo"
  cardType := Starter.spell.id
  abilities :=
    [.triggered
      { trigger := .cardEntered Starter.board
        effect := .move ⟨Starter.board, Starter.spell.id, Starter.hand⟩
        target := .card .source [] }]

/-- A spell is played that moves itself from the board to the hand. It is
in the graveyard when all is done. -/
theorem echo_ends_in_graveyard :
    ∃ d d' c s, Reached [] d ∧ d.card ⟨1⟩ = .ok c ∧
      d.catalog.cardType? c.cardType = some Starter.spell ∧
      d.perform 8 (.move ⟨1⟩ ⟨1⟩ Starter.deck Starter.board {}) = .done .nothing d' ∧
      (d.record 8 (.move ⟨1⟩ ⟨1⟩ Starter.deck Starter.board {})).state? = some s ∧
      .dispatched 1 ⟨1⟩ .cardEntered ∈ s.journal ∧ d'.Lies ⟨1⟩ ⟨1⟩ Starter.graveyard := by
  obtain ⟨d, h, c, -, hc, hct, d', -, hdone, s, hs, hmem⟩ :=
    @Reached.exists_of_performAll 8 (Starter.catalog { extraCards := [echo] }) 7 ⟨⟨1⟩, [⟨3⟩]⟩
      ⟨⟨2⟩, []⟩ []
      (fun d => ∃ c ∈ (d.card ⟨1⟩).toOption, d.card ⟨1⟩ = .ok c ∧
        d.catalog.cardType? c.cardType = some Starter.spell ∧
        ∃ d' ∈ (d.perform 8 (.move ⟨1⟩ ⟨1⟩ Starter.deck Starter.board {})).state?,
          d.perform 8 (.move ⟨1⟩ ⟨1⟩ Starter.deck Starter.board {}) = .done .nothing d' ∧
          ∃ s ∈ (d.record 8 (.move ⟨1⟩ ⟨1⟩ Starter.deck Starter.board {})).state?,
            .dispatched 1 ⟨1⟩ .cardEntered ∈ s.journal)
      (by decide +kernel)
  exact ⟨d, d', c, s, h, hc, hct, hdone, hs, hmem,
    ((move_ends_home h 8).1 _ _ _ _ _ _ _ _ _ _ hc hct rfl hdone).1⟩

end CardDuel
