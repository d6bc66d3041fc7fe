/-
CardDuel.Proofs.Upkeep — invariants of chains.

An invariant of chains is a family of assertions on scenes. Its index
says what the chain still owes: a write of a stat adds to the debt, and
the watchers that are told of the write pay it off. `Upkeep` lists what
each single step owes to the family, and from it follows, one lemma for
each computation of `Play.Chain`, that no chain breaks the family, in
whatever order its steps come. The fixture of the duel and its layout are
part of every invariant, since with them no look-up inside a chain fails.

  §1 Invariants — `Standing`, `Keeps`, `Moves`, `Transfers` and `Upkeep`.
  §2 Look-ups   — those of a chain succeed.
  §3 Moves      — and the walks and watchers, which move cards and read
                  stats.
  §4 Writes     — and who is told of them.
  §5 Abilities  — effects, lists of abilities, and calls.
  §6 Actions    — those that do nothing but set off chains.
-/
import CardDuel.Play.Action
import CardDuel.Proofs.Calculus
import CardDuel.Proofs.Layout
import CardDuel.Proofs.Registry
import CardDuel.Proofs.Targets

namespace CardDuel

open Engine Play

/-! ## §1 Invariants -/

/-- The effect moves cards to the zone. -/
def Effect.sends (z : ZoneId) : Effect → Bool
  | .move e => e.destination = z
  | _ => false

/-- A zone that cards are sent to in the course of a chain. -/
def Catalog.Sends (c : Catalog) (z : ZoneId) : Prop :=
  z = c.rules.graveyard ∨ (∃ t ∈ c.cardTypes, t.zoneAfterTrigger = some z) ∨
    ∃ e, c.Prints (.move e) ∧ e.destination = z

instance (c : Catalog) (z : ZoneId) : Decidable (c.Sends z) :=
  have : Decidable (∃ e, c.Prints (.move e) ∧ e.destination = z) :=
    decidable_of_iff (∃ card ∈ c.cards.cards, ∃ a ∈ card.abilities, a.effect.sends z) <| by
      constructor
      · intro h
        obtain ⟨card, hcard, a, ha, hsends⟩ := h
        unfold Effect.sends at hsends
        split at hsends
        · rename_i e he
          exact ⟨e, ⟨card, hcard, a, ha, he⟩, of_decide_eq_true hsends⟩
        · cases hsends
      · intro h
        obtain ⟨e, ⟨card, hcard, a, ha, he⟩, hz⟩ := h
        refine ⟨card, hcard, a, ha, ?_⟩
        rw [he]
        exact decide_eq_true hz
  inferInstanceAs (Decidable (_ ∨ _ ∨ _))

theorem Catalog.Closed.mem_of_sends {c : Catalog} {z : ZoneId} (h : c.Closed) (hz : c.Sends z) :
    z ∈ c.zoneIds := by
  rcases hz with rfl | ⟨t, ht, hafter⟩ | ⟨e, he, rfl⟩
  · exact h.graveyard
  · exact h.after t ht z hafter
  · exact h.moves e he

/-- The bearer is one of the players or a card in play. -/
def Fixture.Knows (φ : Fixture) : Bearer → Prop
  | .player p => p ∈ φ.players
  | .card id => (φ.tag? id).isSome

/-- The generator after a draw of an amount or of a place in a list. -/
inductive Random.Generator.Draws (g : Random.Generator) : Random.Generator → Prop where
  | amount (a : Amount) : Draws g (a.roll g).2
  | place (length : Nat) : Draws g (g.index? length).2

/-- The duel has the fixture, is laid out, and the scene is as `J` says. -/
structure Standing (φ : Fixture) (J : Scene → Prop) (s : Scene) : Prop where
  fixture : s.duel.fixture = φ
  laid : s.duel.Laid
  holds : J s

section
variable {ι : Type} (φ : Fixture) (X : Exits) (J : ι → Scene → Prop)

/-- Calls on cards in play keep the invariant, whatever is owed. -/
def Keeps (fire : Dispatch) : Prop :=
  ∀ i player card kind accepts selection s, (φ.tag? card).isSome → Standing φ (J i) s →
    wp X (fire player card kind accepts selection) (fun _ => Standing φ (J i)) s

/-- What is owed after a write that may have met no stat. -/
def owed {ι : Type} (owe : Bearer → String → StatChange → ι → ι) (b : Bearer) (name : String) :
    Option StatChange → ι → ι
  | none, i => i
  | some change, i => owe b name change i

@[simp] theorem owed_const {ι : Type} {b : Bearer} {name : String} {change : Option StatChange}
    {i : ι} : owed (fun _ _ _ i => i) b name change i = i := by
  cases change <;> rfl

/-- What moves and reads of stats owe to an invariant. -/
structure Moves : Prop where
  sound : φ.Sound
  moved : ∀ {fire i s p z card origin destination selection}, Keeps φ X J fire →
    Standing φ (J i) s → s.duel.zone p origin = .ok z → card ∈ z.cards →
      φ.catalog.Sends destination →
        wp X (move fire p card origin destination selection) (fun _ => Standing φ (J i)) s
  read : ∀ {i s b stat cause}, Standing φ (J i) s → s.duel.statValue? b stat = .error cause →
    X.fault cause

/-- What is asked instead of an invariant that every transfer of a card
keeps, since then every move keeps it. -/
structure Transfers : Prop where
  sound : φ.Sound
  transfer : ∀ {i s p z card origin destination}, Standing φ (J i) s →
    s.duel.zone p origin = .ok z → card ∈ z.cards → φ.catalog.Sends destination →
      J i { s with duel := s.duel.transfer p card origin destination }
  read : ∀ {i s b stat cause}, Standing φ (J i) s → s.duel.statValue? b stat = .error cause →
    X.fault cause

/-- What the steps of a chain owe to an invariant. A write adds to what
is owed, `owe` says what; telling the watchers pays it off. -/
structure Upkeep (limit : Nat) (owe : Bearer → String → StatChange → ι → ι) : Prop
    extends Moves φ X J where
  draw : ∀ {i s g}, Standing φ (J i) s → s.duel.generator.Draws g →
    J i { s with duel := { s.duel with generator := g } }
  write : ∀ {i s b name block stat} (adjustment : Adjustment) (amount : Points) (turns : UInt32),
    Standing φ (J i) s → φ.Knows b → s.duel.stats b = .ok block → block.get? name = some stat →
      match adjustment.apply amount turns stat with
      | .ok (change, stat') =>
        J (owe b name change i)
          ⟨s.duel.putStats b (block.put name stat'), .wrote b name change :: s.journal, s.depth⟩
      | .error cause => X.fault cause
  swap : ∀ {i s b name change b' name' change'},
    J (owe b name change (owe b' name' change' i)) s →
      J (owe b' name' change' (owe b name change i)) s
  notify : ∀ {fire i s b name change}, Keeps φ X J fire → φ.Knows b →
    Standing φ (J (owe b name change i)) s →
      wp X (notify fire b name change) (fun _ => Standing φ (J i)) s
  enter : ∀ {i s} card kind, Standing φ (J i) s → s.depth < limit →
    J i ⟨s.duel, .dispatched s.depth card kind :: s.journal, s.depth + 1⟩
  leave : ∀ {i s}, Standing φ (J i) s → J i { s with depth := s.depth - 1 }
  leave_refused : ∀ {e s}, X.refused e s → X.refused e { s with depth := s.depth - 1 }
  stop : ∀ {i s} card kind, Standing φ (J i) s → X.refused (.depthLimit limit kind card) s
  rounds : X.fault .outOfRounds

end

/-! ## §2 Look-ups -/

variable {ι : Type} {φ : Fixture} {X : Exits} {J : ι → Scene → Prop} {i : ι} {s : Scene}
variable {fire : Dispatch} {player p : PlayerId} {id : InstanceId} {place : ZoneId} {z : Zone}
  {t : CardTag}

theorem CardSpec.mem_abilities_of_activated {spec : CardSpec} {a : ActivatedAbility} {index : Nat}
    (h : spec.activated[index]? = some a) : .activated a ∈ spec.abilities := by
  obtain ⟨ability, hability, ha⟩ := List.mem_filterMap.mp (List.mem_of_getElem? h)
  cases ability with
  | triggered a' => cases ha
  | activated a' => cases ha; exact hability

/-- A card with a print is in play, and the print is one of the catalog. -/
theorem Duel.printed_of_specOf {d : Duel} {spec : CardSpec} (h : d.specOf id = .ok spec) :
    (d.fixture.tag? id).isSome ∧ spec ∈ d.catalog.cards.cards := by
  obtain ⟨c, hc, hprint⟩ := Except.bind_eq_ok_iff.mp h
  constructor
  · rw [Duel.tag?_eq_some_iff.mpr ⟨c, hc, rfl⟩]
    rfl
  · split at hprint
    · rename_i spec' hspec'
      cases hprint
      exact Registry.mem_of_get? hspec'
    · cases hprint

namespace Standing

variable {I : Scene → Prop}

theorem catalog (h : Standing φ I s) : s.duel.catalog = φ.catalog :=
  congrArg Fixture.catalog h.fixture

theorem seat (h : Standing φ I s) (hp : p ∈ φ.players) : ∃ st, s.duel.seat p = .ok st :=
  Duel.seat_isOk_iff.mpr (h.fixture ▸ hp)

theorem mem_players (h : Standing φ I s) (hz : s.duel.zone p place = .ok z) : p ∈ φ.players := by
  obtain ⟨st, hst, -⟩ := Duel.zone_eq_ok.mp hz
  exact h.fixture ▸ Duel.seat_isOk_iff.mp ⟨st, hst⟩

theorem zone (h : Standing φ I s) (hp : p ∈ φ.players) (hid : place ∈ φ.catalog.zoneIds) :
    ∃ z, s.duel.zone p place = .ok z :=
  h.laid.exists_zone (h.fixture ▸ hp) (h.catalog ▸ hid)

theorem mem_zoneIds (h : Standing φ I s) (hz : s.duel.zone p place = .ok z) :
    place ∈ φ.catalog.zoneIds :=
  h.catalog ▸ h.laid.mem_zoneIds hz

theorem card (h : Standing φ I s) (ht : φ.tag? id = some t) :
    ∃ c, s.duel.card id = .ok c ∧ c.tag = t := by
  rw [← h.fixture] at ht
  exact Duel.tag?_eq_some_iff.mp ht

theorem tag? (h : Standing φ I s) (hφ : φ.Sound) (hz : s.duel.zone p place = .ok z)
    (hc : id ∈ z.cards) : ∃ t, φ.tag? id = some t ∧ t.owner = p := by
  have hfix := h.fixture
  subst hfix
  exact h.laid.tag?_of_mem hφ hz hc

theorem stats {b : Bearer} (h : Standing φ I s) (hb : φ.Knows b) :
    ∃ block, s.duel.stats b = .ok block := by
  cases b with
  | player q =>
    obtain ⟨st, hst⟩ := h.seat hb
    exact ⟨st.stats, by simp [Duel.stats, hst, Except.map]⟩
  | card c =>
    obtain ⟨t, ht⟩ := Option.isSome_iff_exists.mp hb
    obtain ⟨c, hc, -⟩ := h.card ht
    exact ⟨c.stats, by simp [Duel.stats, hc, Except.map]⟩

/-- A bearer with stats is in the duel. -/
theorem knows {b : Bearer} {block : StatBlock} (h : Standing φ I s)
    (hb : s.duel.stats b = .ok block) : φ.Knows b := by
  cases b with
  | player q =>
    cases hst : s.duel.seat q with
    | error e => simp [Duel.stats, hst, Except.map] at hb
    | ok st => exact h.fixture ▸ Duel.seat_isOk_iff.mp ⟨st, hst⟩
  | card id =>
    cases hc : s.duel.card id with
    | error e => simp [Duel.stats, hc, Except.map] at hb
    | ok c =>
      have ht : s.duel.fixture.tag? id = some c.tag := Duel.tag?_eq_some_iff.mpr ⟨c, hc, rfl⟩
      rw [h.fixture] at ht
      simp [Fixture.Knows, ht]

theorem printed {spec : CardSpec} (h : Standing φ I s) (hspec : s.duel.specOf id = .ok spec) :
    (φ.tag? id).isSome ∧ spec ∈ φ.catalog.cards.cards := by
  rw [← h.fixture]
  exact Duel.printed_of_specOf hspec

theorem specOf (h : Standing φ I s) (hφ : φ.Sound) (ht : φ.tag? id = some t) :
    ∃ spec, s.duel.specOf id = .ok spec := by
  obtain ⟨c, hc, rfl⟩ := h.card ht
  obtain ⟨spec, hspec, -⟩ := hφ.printed _ (Fixture.tag?_id ht).1
  have hspec : s.duel.catalog.card? c.spec = some spec := by rw [h.catalog]; exact hspec
  exact ⟨spec, by simp [Duel.specOf, hc, hspec, Bind.bind, Except.bind]⟩

/-- A transfer between two zones of a player keeps fixture and layout. -/
theorem transfer {I' : Scene → Prop} {origin destination : ZoneId}
    (h : Standing φ I s) (hφ : φ.Sound) (ho : s.duel.zone p origin = .ok z)
    (hcard : id ∈ z.cards) (hd : destination ∈ φ.catalog.zoneIds)
    (hI : I' { s with duel := s.duel.transfer p id origin destination }) :
    Standing φ I' { s with duel := s.duel.transfer p id origin destination } where
  fixture := (Duel.fixture_transfer ..).trans h.fixture
  laid := by
    have hids := hφ.closed.zones
    rw [← h.catalog] at hids
    exact h.laid.transfer hids ho hcard (h.zone (h.mem_players ho) hd)
  holds := hI

theorem putStats {I' : Scene → Prop} {b : Bearer} {block : StatBlock} {journal : List Event}
    (h : Standing φ I s) (hI : I' ⟨s.duel.putStats b block, journal, s.depth⟩) :
    Standing φ I' ⟨s.duel.putStats b block, journal, s.depth⟩ where
  fixture := (Duel.fixture_putStats ..).trans h.fixture
  laid := h.laid.putStats b block
  holds := hI

end Standing

/-! ## §3 Moves -/

theorem Catalog.sends_of_after {c : Catalog} {ct : CardTypeId} {after : ZoneId}
    (h : (c.cardType? ct).bind (·.zoneAfterTrigger) = some after) : c.Sends after := by
  obtain ⟨t, ht, hafter⟩ := Option.bind_eq_some_iff.mp h
  exact .inr (.inl ⟨t, List.mem_of_find?_eq_some ht, hafter⟩)

section
variable {I I' : Scene → Prop}

/-- A relocation comes to an assertion, if the scene is so whenever the
card is left where it is, and if the transfer makes it so otherwise. -/
theorem wp_relocate {ct : CardTypeId} (hφ : φ.Sound) (hs : Standing φ I s)
    (hp : player ∈ φ.players) (hd : place ∈ φ.catalog.zoneIds)
    (stay : (∀ after z, (φ.catalog.cardType? ct).bind (·.zoneAfterTrigger) = some after →
      after ≠ place → s.duel.zone player place = .ok z → id ∉ z.cards) → I' s)
    (go : ∀ after z, (φ.catalog.cardType? ct).bind (·.zoneAfterTrigger) = some after →
      s.duel.zone player place = .ok z → id ∈ z.cards →
        I' { s with duel := s.duel.transfer player id place after }) :
    wp X (relocate player id ct place) (fun _ => Standing φ I') s := by
  simp only [relocate, wp_bind, wp_duel, hs.catalog]
  split
  · rename_i hnone
    refine ⟨hs.fixture, hs.laid, stay fun after _ hafter => ?_⟩
    rw [hnone] at hafter
    cases hafter
  · rename_i after hafter
    split
    · rename_i heq
      refine ⟨hs.fixture, hs.laid, stay fun after' _ hafter' hne => ?_⟩
      cases hafter.symm.trans hafter'
      exact absurd heq hne
    · obtain ⟨z, hz⟩ := hs.zone hp hd
      rw [wp_bind, wp_find_ok hz]
      split
      · rename_i hcard
        have hcard : id ∈ z.cards := by simpa [Zone.contains] using hcard
        have hids := hφ.closed.mem_of_sends (Catalog.sends_of_after hafter)
        obtain ⟨z', hz'⟩ := hs.zone hp hids
        rw [wp_bind, wp_find_ok hz', wp_modifyDuel]
        exact hs.transfer hφ hz hcard hids (go after z hafter hz hcard)
      · rename_i hcard
        refine ⟨hs.fixture, hs.laid, stay fun _ z' _ _ hz' hin => hcard ?_⟩
        cases hz.symm.trans hz'
        simpa [Zone.contains] using hin

/-- A move is a transfer, the abilities that it sets off, and the
relocation. -/
theorem wp_move {destination : ZoneId} {selection : Selection} (hφ : φ.Sound)
    (hfire : Keeps φ X J fire) (hs : Standing φ I s) (ho : s.duel.zone player place = .ok z)
    (hcard : id ∈ z.cards) (hd : destination ∈ φ.catalog.zoneIds)
    (hJ : J i { s with duel := s.duel.transfer player id place destination })
    (relocation : ∀ t s₁, φ.tag? id = some t → t.owner = player → Standing φ (J i) s₁ →
      wp X (relocate player id t.cardType destination) (fun _ => Standing φ I') s₁) :
    wp X (move fire player id place destination selection) (fun _ => Standing φ I') s := by
  obtain ⟨t, ht, howner⟩ := hs.tag? hφ ho hcard
  obtain ⟨c, hc, rfl⟩ := hs.card ht
  obtain ⟨z', hz'⟩ := hs.zone (hs.mem_players ho) hd
  have hknown : (φ.tag? id).isSome := by simp [ht]
  simp only [move, wp_bind]
  rw [wp_find_ok hc, wp_find_ok ho, if_pos (by simpa [Zone.contains] using hcard), wp_bind,
    wp_find_ok hz', wp_bind, wp_modifyDuel, wp_bind]
  refine wp_mono (hfire i _ _ _ _ _ _ hknown (hs.transfer hφ ho hcard hd hJ)) fun _ s₁ hs₁ => ?_
  rw [wp_bind]
  refine wp_mono (hfire i _ _ _ _ _ _ hknown hs₁) fun _ s₂ hs₂ => ?_
  exact relocation c.tag s₂ ht howner hs₂

end

namespace Transfers

variable (T : Transfers φ X J)
include T

/-- A move keeps the invariant if its transfer does. -/
theorem wp_move {I : Scene → Prop} {destination : ZoneId} {selection : Selection}
    (hfire : Keeps φ X J fire) (hs : Standing φ I s) (ho : s.duel.zone player place = .ok z)
    (hcard : id ∈ z.cards) (hd : destination ∈ φ.catalog.zoneIds)
    (hJ : J i { s with duel := s.duel.transfer player id place destination }) :
    wp X (move fire player id place destination selection) (fun _ => Standing φ (J i)) s := by
  refine CardDuel.wp_move T.sound hfire hs ho hcard hd hJ fun t s₁ _ _ hs₁ => ?_
  exact wp_relocate T.sound hs₁ (hs.mem_players ho) hd (fun _ => hs₁.holds)
    fun after z' hafter hz' hin => T.transfer hs₁ hz' hin (Catalog.sends_of_after hafter)

theorem moves : Moves φ X J where
  sound := T.sound
  moved hfire hs ho hcard hd :=
    T.wp_move hfire hs ho hcard (T.sound.closed.mem_of_sends hd) (T.transfer hs ho hcard hd)
  read := T.read

end Transfers

namespace Moves

variable (M : Moves φ X J)
include M

theorem wp_walk {kind : TriggerKind} {accepts : Trigger → Bool} (hfire : Keeps φ X J fire)
    (hs : Standing φ (J i) s) (hp : player ∈ φ.players) :
    wp X (walk fire player kind accepts) (fun _ => Standing φ (J i)) s := by
  obtain ⟨st, hst⟩ := hs.seat hp
  simp only [walk, tour, wp_bind, wp_pure]
  rw [wp_find_ok hst]
  refine wp_foldlM (I := fun _ _ => Standing φ (J i)) (fun place hplace _ tour s₁ hs₁ => ?_) hs
  have hids : place ∈ φ.catalog.zoneIds := by
    obtain ⟨z, hz, rfl⟩ := List.mem_map.mp hplace
    have hspecs := hs.laid.zones st (Duel.seat_eq_ok hst).1
    rw [Catalog.zoneIds, ← hs.catalog, ← hspecs]
    exact List.mem_map.mpr ⟨z.spec, List.mem_map_of_mem (List.mem_filter.mp hz).1, rfl⟩
  obtain ⟨z, hz⟩ := hs₁.zone hp hids
  rw [visitZone, wp_bind, wp_find_ok hz]
  refine wp_foldlM (I := fun _ _ => Standing φ (J i)) (fun id hid _ tour s₂ hs₂ => ?_) hs₁
  obtain ⟨t, ht, -⟩ := hs₁.tag? M.sound hz hid
  obtain ⟨z', hz'⟩ := hs₂.zone hp hids
  rw [visitCard, wp_bind, wp_find_ok hz']
  split
  · rw [wp_bind]
    exact hfire i _ _ _ _ _ _ (by simp [ht]) hs₂
  · exact hs₂

theorem wp_propagate {subject : Subject} {stat : String} {change : StatChange}
    (hfire : Keeps φ X J fire) (hs : Standing φ (J i) s) (hp : player ∈ φ.players) :
    wp X (propagate fire player subject stat change) (fun _ => Standing φ (J i)) s := by
  simp only [propagate, wp_bind, wp_pure]
  refine wp_mono (M.wp_walk hfire hs hp) fun _ s₁ hs₁ => ?_
  refine wp_mono (M.wp_walk hfire hs₁ hp) fun _ s₂ hs₂ => ?_
  exact M.wp_walk hfire hs₂ hp

/-- A check of a destroy condition comes to an invariant, if the scene is
so whenever there is nothing to destroy, and if the move to the graveyard
makes it so otherwise. -/
theorem wp_checkDestroy {j : ι} {index : Nat} (hs : Standing φ (J j) s) (ht : φ.tag? id = some t)
    (idle : (∀ k value z, φ.condition? t index = some k →
      s.duel.statValue? (.card id) k.stat = .ok (some value) → k.holds value →
      s.duel.zone t.owner φ.catalog.rules.board = .ok z → id ∉ z.cards) → J i s)
    (destroy : ∀ z, s.duel.zone t.owner φ.catalog.rules.board = .ok z → id ∈ z.cards →
      wp X (move fire t.owner id φ.catalog.rules.board φ.catalog.rules.graveyard {})
        (fun _ => Standing φ (J i)) s) :
    wp X (checkDestroy fire t.owner id index) (fun _ => Standing φ (J i)) s := by
  obtain ⟨c, hc, rfl⟩ := hs.card ht
  have hvalue (name : String) : s.duel.statValue? (.card id) name = c.stats.value? name := by
    simp [Duel.statValue?, Duel.stats, hc, Except.map]
  have hspared (h : ∀ k value z, φ.condition? c.tag index = some k →
      c.stats.value? k.stat = .ok (some value) → k.holds value →
      s.duel.zone c.owner φ.catalog.rules.board = .ok z → id ∉ z.cards) : Standing φ (J i) s :=
    ⟨hs.fixture, hs.laid, idle fun k value z hk hv hh hz => h k value z hk (hvalue _ ▸ hv) hh hz⟩
  simp only [checkDestroy, wp_bind, wp_duel]
  have hcondition : (φ.catalog.cardType? c.cardType).bind (·.destroyConditions[index]?) =
      φ.condition? c.tag index := rfl
  rw [wp_find_ok hc, hs.catalog, hcondition]
  cases hk : φ.condition? c.tag index with
  | none => exact hspared fun k _ _ hk' => by simp [hk] at hk'
  | some k =>
    dsimp only
    rw [wp_bind, wp_sound]
    cases hv : c.stats.value? k.stat with
    | error cause => exact M.read hs ((hvalue _).trans hv)
    | ok value =>
      cases value with
      | none =>
        refine hspared fun k' v' _ hk' hv' => ?_
        cases hk.symm.trans hk'
        rw [hv] at hv'
        cases hv'
      | some value =>
        dsimp only
        split
        · obtain ⟨z, hz⟩ := hs.zone (M.sound.owners _ (Fixture.tag?_id ht).1) M.sound.closed.board
          rw [wp_bind, wp_find_ok hz]
          split
          · rename_i hcard
            have hcard : id ∈ z.cards := by simpa [Zone.contains] using hcard
            exact destroy z hz hcard
          · rename_i hcard
            refine hspared fun _ _ z' _ _ _ hz' hcard' => hcard ?_
            cases hz.symm.trans hz'
            simpa [Zone.contains] using hcard'
        · rename_i hh
          refine hspared fun k' v' _ hk' hv' hh' => ?_
          cases hk.symm.trans hk'
          rw [hv] at hv'
          cases hv'
          exact absurd hh' hh

theorem wp_runWatcher {b : Bearer} {stat : String} {change : StatChange} {w : Watcher}
    (hfire : Keeps φ X J fire) (hs : Standing φ (J i) s) (hw : φ.Apt ⟨b, stat, w⟩) :
    wp X (runWatcher fire stat change w) (fun _ => Standing φ (J i)) s := by
  cases b with
  | player q =>
    obtain ⟨hq, rfl⟩ := hw
    exact M.wp_propagate hfire hs hq
  | card id =>
    obtain ⟨t, ht, hw⟩ := hw
    rcases hw with rfl | ⟨index, k, rfl, -, -⟩
    · exact M.wp_propagate hfire hs (M.sound.owners t (Fixture.tag?_id ht).1)
    · exact M.wp_checkDestroy hs ht (fun _ => hs.holds) fun z hz hcard =>
        M.moved hfire hs hz hcard (.inl rfl)

/-- The watchers of a stat are those that the actions register. -/
theorem apt_of_mem {I : Scene → Prop} {b : Bearer} {stat : String} {w : Watcher}
    (hs : Standing φ I s)
    (hw : w ∈ s.duel.watchers.on b stat) : φ.Apt ⟨b, stat, w⟩ := by
  have hwatchers : s.duel.watchers = φ.watchers := congrArg Fixture.watchers hs.fixture
  obtain ⟨r, hr, rfl⟩ := List.mem_map.mp hw
  obtain ⟨hmem, hon⟩ := List.mem_filter.mp hr
  obtain ⟨rfl, rfl⟩ : r.bearer = b ∧ r.stat = stat := by simpa using hon
  exact M.sound.watched r (hwatchers ▸ hmem)

/-- Telling the watchers keeps an invariant that does not look at the
journal's entry of it. -/
theorem wp_notify {I : Scene → Prop} {b : Bearer} {stat : String} {change : StatChange}
    (hfire : Keeps φ X J fire) (hs : Standing φ I s)
    (hnote : J i { s with journal := .notified b stat change :: s.journal }) :
    wp X (notify fire b stat change) (fun _ => Standing φ (J i)) s := by
  have hs₁ : Standing φ (J i) { s with journal := .notified b stat change :: s.journal } :=
    ⟨hs.fixture, hs.laid, hnote⟩
  simp only [notify, wp_bind, wp_note, wp_duel]
  exact wp_forM (I := fun _ => Standing φ (J i))
    (fun w hw _ s₂ hs₂ => M.wp_runWatcher hfire hs₂ (M.apt_of_mem hs₁ hw)) hs₁

end Moves

/-! ## §4 Writes -/

namespace Upkeep

variable {limit : Nat} {owe : Bearer → String → StatChange → ι → ι}
variable (U : Upkeep φ X J limit owe) {b : Bearer} {stat : String}
include U

/-- A write leaves its change owed, if it made one. -/
theorem wp_writeStat {adjustment : Adjustment} {amount : Points} {turns : UInt32}
    (hs : Standing φ (J i) s) (hb : φ.Knows b) :
    wp X (writeStat b stat (adjustment.apply amount turns))
      (fun change => Standing φ (J (owed owe b stat change i))) s := by
  obtain ⟨block, hblock⟩ := hs.stats hb
  rw [writeStat, wp_bind, wp_find_ok hblock]
  split
  · exact hs
  · rename_i before hbefore
    have hwrite := U.write adjustment amount turns hs hb hblock hbefore
    rw [wp_bind, wp_sound]
    split
    · rename_i r hr
      rw [hr] at hwrite
      simp only [wp_bind, wp_modifyDuel, wp_note, wp_pure]
      exact hs.putStats hwrite
    · rename_i cause hcause
      rw [hcause] at hwrite
      exact hwrite

theorem wp_adjustStat {adjustment : Adjustment} {amount : Amount} {turns : UInt32}
    (hs : Standing φ (J i) s) (hb : φ.Knows b) :
    wp X (adjustStat b stat adjustment amount turns)
      (fun change => Standing φ (J (owed owe b stat change i))) s := by
  obtain ⟨block, hblock⟩ := hs.stats hb
  rw [adjustStat, wp_bind, wp_find_ok hblock]
  split
  · rw [wp_bind, wp_draw]
    refine U.wp_writeStat ⟨hs.fixture, hs.laid.congr rfl rfl rfl, ?_⟩ hb
    exact U.draw hs (.amount amount)
  · exact hs

theorem wp_damage {amount : Points} (hs : Standing φ (J i) s) (hb : φ.Knows b) :
    wp X (damage b stat amount)
      (fun change => Standing φ (J (owed owe b stat change i))) s := by
  show wp X (writeStat b stat (Adjustment.decrease.apply amount 0)) _ s
  exact U.wp_writeStat hs hb

theorem wp_applyAndNotify {write : Engine (Option StatChange)} {before : Bool}
    (hfire : Keeps φ X J fire) (hb : φ.Knows b)
    (hwrite : wp X write
      (fun change => Standing φ (J (owed owe b stat change i))) s) :
    wp X (applyAndNotify fire b stat write before) (fun _ => Standing φ (J i)) s := by
  rw [applyAndNotify, wp_bind]
  refine wp_mono hwrite fun change s₁ hs₁ => ?_
  cases change with
  | none => exact hs₁
  | some c =>
    simp only [wp_bind, wp_pure]
    exact U.notify hfire hb hs₁

end Upkeep

/-! ## §5 Abilities -/

namespace Upkeep

variable {limit : Nat} {owe : Bearer → String → StatChange → ι → ι}
variable (U : Upkeep φ X J limit owe)
include U

/-- Finding targets keeps the invariant, and finds members of the pool. -/
theorem wp_targets {α : Type} {bearer : α → Bearer} {conditions : List Condition} {pool : Pool α}
    (hs : Standing φ (J i) s) :
    wp X (pool.targets bearer conditions)
      (fun l s' => (∀ a ∈ l, a ∈ pool.members) ∧ Standing φ (J i) s') s := by
  have hkeep (l : List α) (hl : ∀ a ∈ l, a ∈ pool.members) (s₁ : Scene)
      (hs₁ : Standing φ (J i) s₁) :
      wp X (duel >>= fun d => sound (keepSatisfying d bearer conditions l))
        (fun l s' => (∀ a ∈ l, a ∈ pool.members) ∧ Standing φ (J i) s') s₁ := by
    rw [wp_bind, wp_duel, wp_sound]
    split
    · rename_i kept hkept
      exact ⟨fun a ha => hl a (mem_of_keepSatisfying hkept a ha), hs₁⟩
    · rename_i cause hcause
      obtain ⟨b, stat, hv⟩ := statValue?_of_keepSatisfying hcause
      exact U.read hs₁ hv
  rw [Pool.targets, wp_bind]
  cases pool with
  | every members => exact hkeep members (fun _ ha => ha) s hs
  | oneOf members =>
    rw [Pool.choose, wp_bind, wp_draw, wp_pure]
    refine hkeep _ (fun a ha => ?_) _ ⟨hs.fixture, hs.laid.congr rfl rfl rfl, ?_⟩
    · simp only [Option.mem_toList, Random.Generator.pick?, Option.bind_eq_some_iff] at ha
      obtain ⟨n, -, hn⟩ := ha
      exact List.mem_of_getElem? hn
    · exact U.draw hs (.place members.length)

theorem wp_moveIfThere {destination : ZoneId} {before : Bool} (hfire : Keeps φ X J fire)
    (hs : Standing φ (J i) s) (hd : φ.catalog.Sends destination) :
    wp X (moveIfThere fire place destination before id) (fun _ => Standing φ (J i)) s := by
  rw [moveIfThere, wp_bind, wp_duel]
  split
  · rename_i owner current hlocation
    split
    · rename_i heq
      subst heq
      obtain ⟨z, hz, hcard⟩ :=
        (hs.laid.location?_eq_some_iff (hs.fixture ▸ U.sound)).mp hlocation
      simp only [wp_bind, wp_pure]
      exact U.moved hfire hs hz hcard hd
    · exact hs
  · exact hs

/-- An effect keeps the invariant. A move has to be printed on a card, so
that its destination is one of the zones that cards are sent to. -/
theorem wp_resolve {source : InstanceId} {effect : Effect} {target : Target}
    {selection : Selection} (hfire : Keeps φ X J fire) (hs : Standing φ (J i) s)
    (hsource : (φ.tag? source).isSome)
    (hprinted : ∀ e, effect = .move e → φ.catalog.Prints (.move e)) :
    wp X (resolve fire player source effect target selection) (fun _ => Standing φ (J i)) s := by
  have hcard {place' : ZoneId} {ct : CardTypeId} {kind : CardTarget} {pool : Pool InstanceId}
      (hpool : cardPool s.duel player source place' ct selection kind = .ok pool) :
      ∀ id ∈ pool.members, (φ.tag? id).isSome := by
    intro id hid
    rcases lies_of_cardPool hpool hid with rfl | ⟨p, _, z, hz, hin⟩
    · exact hsource
    · obtain ⟨t, ht, -⟩ := hs.tag? U.sound hz hin
      simp [ht]
  rw [resolve, wp_bind, wp_duel]
  split
  · split
    · split
      · exact hs
      · rename_i pool hpool
        rw [wp_bind]
        refine wp_mono (U.wp_targets hs) fun targets s₁ ⟨htargets, hs₁⟩ => ?_
        refine wp_foldlM (I := fun _ _ => Standing φ (J i)) (fun p hp _ _ s₂ hs₂ => ?_) hs₁
        have hknown : φ.Knows (.player p) :=
          hs.fixture ▸ mem_players_of_playerPool hpool (htargets p hp)
        exact U.wp_applyAndNotify hfire hknown (U.wp_adjustStat hs₂ hknown)
    · split
      · exact hs
      · rename_i pool hpool
        rw [wp_bind]
        refine wp_mono (U.wp_targets hs) fun targets s₁ ⟨htargets, hs₁⟩ => ?_
        refine wp_foldlM (I := fun _ _ => Standing φ (J i)) (fun id hid _ _ s₂ hs₂ => ?_) hs₁
        have hknown : φ.Knows (.card id) := hcard hpool id (htargets id hid)
        exact U.wp_applyAndNotify hfire hknown (U.wp_adjustStat hs₂ hknown)
    · split
      · exact hs
      · rename_i e _ _ _ _ pool hpool
        rw [wp_bind]
        refine wp_mono (U.wp_targets hs) fun targets s₁ ⟨_, hs₁⟩ => ?_
        refine wp_foldlM (I := fun _ _ => Standing φ (J i)) (fun id _ _ _ s₂ hs₂ => ?_) hs₁
        exact U.wp_moveIfThere hfire hs₂ (.inr (.inr ⟨e, hprinted e rfl, rfl⟩))
    · exact hs
  · exact hs

theorem wp_resolveAll {source : InstanceId} {selection : Selection}
    {abilities : List TriggeredAbility} (hfire : Keeps φ X J fire) (hs : Standing φ (J i) s)
    (hsource : (φ.tag? source).isSome)
    (hprinted : ∀ a ∈ abilities, ∀ e, a.effect = .move e → φ.catalog.Prints (.move e)) :
    wp X (resolveAll fire player source selection abilities) (fun _ => Standing φ (J i)) s := by
  refine wp_foldlM (I := fun _ _ => Standing φ (J i)) (fun a ha _ resolved s₁ hs₁ => ?_) hs
  rw [wp_bind]
  refine wp_mono (U.wp_resolve hfire hs₁ hsource (hprinted a ha)) fun any s₂ hs₂ => ?_
  split <;> exact hs₂

/-- **Calls keep the invariant**, by induction on the rounds: the body of
a call makes its calls with one round fewer. -/
theorem keeps_dispatch : ∀ rounds, Keeps φ X J (dispatch limit rounds) := by
  intro rounds
  induction rounds with
  | zero => exact fun _ _ _ _ _ _ _ _ _ => U.rounds
  | succ rounds ih =>
    intro i player card kind accepts selection s hknown hs
    obtain ⟨t, ht⟩ := Option.isSome_iff_exists.mp hknown
    obtain ⟨spec, hspec⟩ := hs.specOf U.sound ht
    simp only [dispatch, wp_bind, wp_depth]
    rw [wp_find_ok hspec]
    split
    · exact U.stop card kind hs
    · rename_i hlevel
      rw [wp_nested, wp_bind, wp_note]
      have hs₁ : Standing φ (J i) ⟨s.duel, .dispatched s.depth card kind :: s.journal, s.depth + 1⟩ :=
        ⟨hs.fixture, hs.laid, U.enter card kind hs (Nat.lt_of_not_le hlevel)⟩
      refine wp_exits (X := X) ?_ (fun _ _ h => U.leave_refused h) fun _ hc => hc
      refine wp_mono (U.wp_resolveAll ih hs₁ hknown fun a ha e he => ?_) fun _ s₂ hs₂ =>
        ⟨hs₂.fixture, hs₂.laid, U.leave hs₂⟩
      obtain ⟨ability, hability, ha⟩ := List.mem_filterMap.mp (List.mem_filter.mp ha).1
      refine ⟨spec, (hs.printed hspec).2, ability, hability, ?_⟩
      cases ability with
      | triggered a' => cases ha; exact he
      | activated a' => cases ha

end Upkeep

/-! ## §6 Actions -/

/-- The exits are open to a look-up of an action that fails in the scene. -/
structure Exits.Early (X : Exits) (s : Scene) : Prop where
  lookup : ∀ e, X.refused (.lookup e) s
  ability : ∀ card index count, X.refused (.abilityIndex card index count) s

/-- What is owed after several writes to the stats of a bearer. -/
def owedAll (owe : Bearer → String → StatChange → ι → ι) (b : Bearer) :
    List (String × StatChange) → ι → ι
  | [], i => i
  | (name, change) :: rest, i => owe b name change (owedAll owe b rest i)

theorem owedAll_const {b : Bearer} {i : ι} :
    ∀ changes : List (String × StatChange), owedAll (fun _ _ _ i => i) b changes i = i
  | [] => rfl
  | _ :: rest => owedAll_const rest

/-- What the ageing of stats owes to an invariant: afterwards the changes
are owed. -/
def Ages (φ : Fixture) (X : Exits) (J : ι → Scene → Prop)
    (owe : Bearer → String → StatChange → ι → ι) : Prop :=
  ∀ {i s b block}, Standing φ (J i) s → φ.Knows b → s.duel.stats b = .ok block →
    match block.tick with
    | .ok (changes, block') =>
      J (owedAll owe b changes i)
        ⟨s.duel.putStats b block', (changes.map fun c => .wrote b c.1 c.2).reverse ++ s.journal,
          s.depth⟩
    | .error cause => X.fault cause

/-- Notes enter the journal in order. -/
theorem wp_notes {α : Type} {f : α → Event} {Q : Unit → Scene → Prop} :
    ∀ {l : List α} {s : Scene}, wp X (l.forM fun a => note (f a)) Q s ↔
      Q () { s with journal := (l.map f).reverse ++ s.journal }
  | [], s => Iff.rfl
  | a :: rest, s => by
    show wp X (note (f a) >>= fun _ => rest.forM fun a => note (f a)) Q s ↔ _
    rw [wp_bind, wp_note, wp_notes]
    simp

/-- The ageing of a bearer leaves the changes owed. -/
theorem wp_ageStats {owe : Bearer → String → StatChange → ι → ι} {j : ι} {b : Bearer}
    (hs : Standing φ (J i) s) (hb : φ.Knows b)
    (hages : ∀ block, s.duel.stats b = .ok block →
      match block.tick with
      | .ok (changes, block') =>
        J (owedAll owe b changes j)
          ⟨s.duel.putStats b block', (changes.map fun c => .wrote b c.1 c.2).reverse ++ s.journal,
            s.depth⟩
      | .error cause => X.fault cause) :
    wp X (ageStats b) (fun changes => Standing φ (J (owedAll owe b changes j))) s := by
  obtain ⟨block, hblock⟩ := hs.stats hb
  have hages := hages block hblock
  rw [ageStats, wp_bind, wp_find_ok hblock, wp_bind, wp_sound]
  split
  · rename_i r hr
    obtain ⟨changes, block'⟩ := r
    rw [hr] at hages
    simp only [wp_bind, wp_modifyDuel]
    rw [wp_notes, wp_pure]
    exact hs.putStats hages
  · rename_i cause hcause
    rw [hcause] at hages
    exact hages

theorem wp_requireOnBoard {Q : Unit → Scene → Prop} (early : X.Early s)
    (hQ : ∀ z, s.duel.zone player s.duel.catalog.rules.board = .ok z → id ∈ z.cards → Q () s) :
    wp X (requireOnBoard player id) Q s := by
  rw [requireOnBoard, wp_bind, wp_duel, wp_bind, wp_find]
  split
  · rename_i z hz
    split
    · rename_i hcard
      exact hQ z hz (by simpa [Zone.contains] using hcard)
    · exact early.lookup _
  · exact early.lookup _

/-- A move that a caller asks for fails early, or is one of a card between
two zones that there are. -/
theorem wp_moveAction {I : Scene → Prop} {destination : ZoneId} {selection : Selection}
    {Q : Unit → Scene → Prop} (hφ : φ.Sound) (hs : Standing φ I s) (early : X.Early s)
    (hmove : ∀ z, s.duel.zone player place = .ok z → id ∈ z.cards →
      destination ∈ φ.catalog.zoneIds →
        wp X (move fire player id place destination selection) Q s) :
    wp X (move fire player id place destination selection) Q s := by
  by_cases hcard : ∃ z, s.duel.zone player place = .ok z ∧ id ∈ z.cards
  · obtain ⟨z, hz, hcard⟩ := hcard
    by_cases hd : destination ∈ φ.catalog.zoneIds
    · exact hmove z hz hcard hd
    · obtain ⟨t, ht, -⟩ := hs.tag? hφ hz hcard
      obtain ⟨c, hc, -⟩ := hs.card ht
      simp only [move, wp_bind]
      rw [wp_find_ok hc, wp_find_ok hz, if_pos (by simpa [Zone.contains] using hcard), wp_bind,
        wp_find]
      split
      · rename_i z' hz'
        exact absurd (hs.mem_zoneIds hz') hd
      · exact early.lookup _
  · simp only [move, wp_bind]
    rw [wp_find]
    split
    · rw [wp_find]
      split
      · rename_i z hz
        have hno : ¬ z.contains id := fun hin =>
          hcard ⟨z, hz, by simpa [Zone.contains] using hin⟩
        rw [if_neg hno, wp_refuse]
        exact early.lookup _
      · exact early.lookup _
    · exact early.lookup _

/-- A move that a caller asks for keeps an invariant that transfers keep,
if its own transfer does. -/
theorem Transfers.wp_moveAction {destination : ZoneId} {selection : Selection}
    (T : Transfers φ X J) (hfire : Keeps φ X J fire) (hs : Standing φ (J i) s) (early : X.Early s)
    (hJ : ∀ z, s.duel.zone player place = .ok z → id ∈ z.cards →
      J i { s with duel := s.duel.transfer player id place destination }) :
    wp X (move fire player id place destination selection) (fun _ => Standing φ (J i)) s :=
  CardDuel.wp_moveAction T.sound hs early fun z hz hcard hd =>
    T.wp_move hfire hs hz hcard hd (hJ z hz hcard)

namespace Upkeep

variable {limit : Nat} {owe : Bearer → String → StatChange → ι → ι}
variable (U : Upkeep φ X J limit owe)
include U

theorem mem_players_current (hs : Standing φ (J i) s) : s.duel.current ∈ φ.players := by
  have hcurrent : s.duel.current = φ.current := congrArg Fixture.current hs.fixture
  rw [hcurrent]
  exact U.sound.current

/-- Who is aged at the end of a player's turn is in the duel. -/
theorem knows_of_mem_aged {I : Scene → Prop} {st : Seat} {b : Bearer} (hs : Standing φ I s)
    (hst : s.duel.seat player = .ok st)
    (hb : b ∈ .player player :: (st.zones.flatMap (·.cards)).map .card) : φ.Knows b := by
  rcases List.mem_cons.mp hb with rfl | hb
  · exact hs.fixture ▸ Duel.seat_isOk_iff.mp ⟨st, hst⟩
  · obtain ⟨id, hid, rfl⟩ := List.mem_map.mp hb
    obtain ⟨hm, rfl⟩ := Duel.seat_eq_ok hst
    have howned := (hs.laid.dealt st hm).mem_iff.mp hid
    rw [hs.fixture, U.sound.mem_owned_iff] at howned
    obtain ⟨t, ht, -⟩ := howned
    simp [Fixture.Knows, ht]

/-- Telling the watchers of the changes of a bearer pays them off. -/
theorem wp_expireBearer {j : ι} {b : Bearer} (hfire : Keeps φ X J fire)
    (hs : Standing φ (J i) s) (hb : φ.Knows b)
    (hages : ∀ block, s.duel.stats b = .ok block →
      match block.tick with
      | .ok (changes, block') =>
        J (owedAll owe b changes j)
          ⟨s.duel.putStats b block', (changes.map fun c => .wrote b c.1 c.2).reverse ++ s.journal,
            s.depth⟩
      | .error cause => X.fault cause) :
    wp X (expireBearer fire b) (fun _ => Standing φ (J j)) s := by
  rw [expireBearer, wp_bind]
  refine wp_mono (wp_ageStats hs hb hages) fun changes s₁ hs₁ => ?_
  -- The changes still to be told are owed.
  exact wp_forM (I := fun rest => Standing φ (J (owedAll owe b rest j)))
    (fun c _ rest s₂ hs₂ => U.notify hfire hb hs₂) hs₁

/-- Bearers are aged one after the other; `next` says what the ageing of
one of them does to the index. -/
theorem wp_expireAll (next : ι → Bearer → ι) (hfire : Keeps φ X J fire)
    (hages : ∀ {i s b block}, Standing φ (J i) s → φ.Knows b → s.duel.stats b = .ok block →
      match block.tick with
      | .ok (changes, block') =>
        J (owedAll owe b changes (next i b))
          ⟨s.duel.putStats b block', (changes.map fun c => .wrote b c.1 c.2).reverse ++ s.journal,
            s.depth⟩
      | .error cause => X.fault cause) :
    ∀ {bearers : List Bearer} {i s}, (∀ b ∈ bearers, φ.Knows b) → Standing φ (J i) s →
      wp X (bearers.forM (expireBearer fire)) (fun _ => Standing φ (J (bearers.foldl next i))) s := by
  intro bearers
  induction bearers with
  | nil => intro i s _ hs; exact hs
  | cons b rest ih =>
    intro i s hknown hs
    have hb := hknown b List.mem_cons_self
    show wp X (expireBearer fire b >>= fun _ => rest.forM (expireBearer fire)) _ s
    rw [wp_bind]
    refine wp_mono (U.wp_expireBearer hfire hs hb fun block hblock => hages hs hb hblock)
      fun _ s₁ hs₁ => ?_
    exact ih (fun b' hb' => hknown b' (List.mem_cons_of_mem _ hb')) hs₁

theorem wp_expire (ages : Ages φ X J owe) (hfire : Keeps φ X J fire) (hs : Standing φ (J i) s)
    (hp : player ∈ φ.players) : wp X (expire fire player) (fun _ => Standing φ (J i)) s := by
  obtain ⟨st, hst⟩ := hs.seat hp
  rw [expire, wp_bind, wp_find_ok hst]
  have hall := U.wp_expireAll (fun i _ => i) hfire ages
    (fun b hb => U.knows_of_mem_aged hs hst hb) hs
  rwa [List.foldl_fixed] at hall

theorem wp_startTurn (hfire : Keeps φ X J fire) (hs : Standing φ (J i) s) :
    wp X (startTurn fire) (fun _ => Standing φ (J i)) s := by
  rw [startTurn, wp_bind, wp_duel]
  exact U.wp_walk hfire hs (U.mem_players_current hs)

theorem wp_endTurn (ages : Ages φ X J owe) (hfire : Keeps φ X J fire)
    (hs : Standing φ (J i) s) : wp X (endTurn fire) (fun _ => Standing φ (J i)) s := by
  have hp := U.mem_players_current hs
  simp only [endTurn, wp_bind, wp_duel, wp_pure]
  refine wp_mono (U.wp_walk hfire hs hp) fun _ s₁ hs₁ => ?_
  exact U.wp_expire ages hfire hs₁ hp

theorem wp_attackOf {Q : Points → Scene → Prop} (hs : Standing φ (J i) s)
    (ht : φ.tag? id = some t) (hQ : ∀ value, Q value s) : wp X (attackOf id) Q s := by
  obtain ⟨c, hc, -⟩ := hs.card ht
  simp only [attackOf, wp_bind, wp_duel, wp_pure]
  rw [wp_find_ok hc, wp_sound]
  split
  · exact hQ _
  · rename_i cause hcause
    have hvalue : s.duel.statValue? (.card id) s.duel.catalog.rules.attackStat = .error cause := by
      simpa [Duel.statValue?, Duel.stats, hc, Except.map] using hcause
    exact U.read hs hvalue

theorem wp_notifyBlow {b : Bearer} {life : String} {blow : Option StatChange}
    (hfire : Keeps φ X J fire) (hb : φ.Knows b)
    (hs : Standing φ (J (owed owe b life blow i)) s) :
    wp X (notifyBlow fire b life blow) (fun _ => Standing φ (J i)) s := by
  cases blow with
  | none => exact hs
  | some change => exact U.notify hfire hb hs

theorem wp_attackPlayer (hfire : Keeps φ X J fire) (hs : Standing φ (J i) s) (early : X.Early s) :
    wp X (attackPlayer fire player id) (fun _ => Standing φ (J i)) s := by
  simp only [attackPlayer, wp_bind, wp_duel]
  rw [wp_find]
  split
  · rename_i defender hdefender
    have hknown : φ.Knows (.player defender) := hs.fixture ▸ (Duel.opponent_eq_ok hdefender).2
    refine wp_requireOnBoard early fun z hz hcard => ?_
    obtain ⟨t, ht, -⟩ := hs.tag? U.sound hz hcard
    refine U.wp_attackOf hs ht fun attack => ?_
    refine wp_mono (U.wp_damage hs hknown) fun blow s₁ hs₁ => ?_
    exact U.wp_notifyBlow hfire hknown hs₁
  · exact early.lookup _

theorem wp_attackCard {target : InstanceId} (hfire : Keeps φ X J fire)
    (hs : Standing φ (J i) s) (early : X.Early s) :
    wp X (attackCard fire player id target) (fun _ => Standing φ (J i)) s := by
  simp only [attackCard, wp_bind, wp_duel]
  rw [wp_find]
  split
  · rename_i defender hdefender
    refine wp_requireOnBoard early fun z hz hcard => ?_
    obtain ⟨t, ht, -⟩ := hs.tag? U.sound hz hcard
    refine wp_requireOnBoard early fun z' hz' htarget => ?_
    obtain ⟨t', ht', -⟩ := hs.tag? U.sound hz' htarget
    have hknown : φ.Knows (.card id) := by simp [Fixture.Knows, ht]
    have hknown' : φ.Knows (.card target) := by simp [Fixture.Knows, ht']
    refine U.wp_attackOf hs ht fun attack => ?_
    refine U.wp_attackOf hs ht' fun answer => ?_
    refine wp_mono (U.wp_damage hs hknown') fun blow s₁ hs₁ => ?_
    refine wp_mono (U.wp_damage hs₁ hknown) fun counterblow s₂ hs₂ => ?_
    -- Both changes are owed; the one of the attacked card is paid off first.
    have hs₂' : Standing φ (J (owed owe (.card target) s.duel.catalog.rules.lifeStat blow
        (owed owe (.card id) s.duel.catalog.rules.lifeStat counterblow i))) s₂ := by
      cases blow with
      | none => exact hs₂
      | some change =>
        cases counterblow with
        | none => exact hs₂
        | some change' => exact ⟨hs₂.fixture, hs₂.laid, U.swap hs₂.holds⟩
    refine wp_mono (U.wp_notifyBlow hfire hknown' hs₂') fun _ s₃ hs₃ => ?_
    exact U.wp_notifyBlow hfire hknown hs₃
  · exact early.lookup _

theorem wp_activate {index : Nat} {selection : Selection} (hfire : Keeps φ X J fire)
    (hs : Standing φ (J i) s) (early : X.Early s) :
    wp X (activate fire player id index selection) (fun _ => Standing φ (J i)) s := by
  simp only [activate, wp_bind]
  rw [wp_find]
  split
  · rw [wp_find]
    split
    · rename_i spec hspec
      split
      · rename_i a ha
        obtain ⟨hknown, hspec⟩ := hs.printed hspec
        exact U.wp_resolve hfire hs hknown fun e he =>
          ⟨spec, hspec, _, CardSpec.mem_abilities_of_activated ha, he⟩
      · exact early.ability _ _ _
    · exact early.lookup _
  · exact early.lookup _

theorem wp_call {rounds : Nat} {kind : TriggerKind} {accepts : Trigger → Bool}
    {selection : Selection} (hs : Standing φ (J i) s) (early : X.Early s) :
    wp X (dispatch limit rounds player id kind accepts selection) (fun _ => Standing φ (J i)) s := by
  by_cases hknown : (φ.tag? id).isSome
  · exact U.keeps_dispatch rounds i player id kind accepts selection s hknown hs
  · cases rounds with
    | zero => exact U.rounds
    | succ rounds =>
      simp only [dispatch, wp_bind]
      rw [wp_find]
      split
      · rename_i spec hspec
        exact absurd (hs.printed hspec).1 hknown
      · exact early.lookup _

end Upkeep

/-- The action does to the duel nothing but what chains do. Moves are not
among these actions, since they may lead to any zone. -/
def Action.chains : Action → Bool
  | startTurn | endTurn | attackPlayer .. | attackCard .. | activate .. | dispatch .. => true
  | _ => false

/-- **Actions keep the invariant** if all they do is to set off chains. -/
theorem Upkeep.wp_run {limit rounds : Nat} {owe : Bearer → String → StatChange → ι → ι}
    (U : Upkeep φ X J limit owe) {a : Action} (ages : a = .endTurn → Ages φ X J owe)
    (ha : a.chains) (hs : Standing φ (J i) s) (early : X.Early s) :
    wp X (a.run (dispatch limit rounds)) (fun _ => Standing φ (J i)) s := by
  have hfire := U.keeps_dispatch rounds
  cases a with
  | startTurn => exact wp_map.mpr (U.wp_startTurn hfire hs)
  | endTurn => exact wp_map.mpr (U.wp_endTurn (@ages rfl) hfire hs)
  | attackPlayer attacker card => exact wp_map.mpr (U.wp_attackPlayer hfire hs early)
  | attackCard attacker card target => exact wp_map.mpr (U.wp_attackCard hfire hs early)
  | activate player card index selection => exact wp_map.mpr (U.wp_activate hfire hs early)
  | dispatch player card kind accepts selection => exact wp_map.mpr (U.wp_call hs early)
  | _ => cases ha

end CardDuel
