/-
CardDuel.Proofs.Reached — duels that actions lead to.

A duel is sound if its fixture is and if it is laid out. Duels start
sound, every action leaves a sound duel behind, done or refused, and so
every duel that is reached is sound. An action is refused in two ways
only: a look-up of its own fails, and then nothing has changed, or a
chain reaches the depth limit, and then the fixture has not changed.

  §1 New cards     — creating a card keeps a duel sound; how duels start.
  §2 Registrations — what registering watchers adds to the table.
  §3 Fixtures      — what each action does to the fixture.
  §4 Actions       — every action, one by one.
  §5 Runs          — every duel that is reached.
-/
import CardDuel.Duel.Setup
import CardDuel.Proofs.Upkeep

namespace CardDuel

open Engine Play

/-- The fixture of the duel is sound, and the duel is laid out. -/
structure Duel.Sound (d : Duel) : Prop where
  fixture : d.fixture.Sound
  laid : d.Laid

theorem Duel.Sound.tag?_of_mem {d : Duel} (hd : d.Sound) {c : Card} (hc : c ∈ d.cards) :
    d.fixture.tag? c.id = some c.tag :=
  hd.fixture.tag?_of_mem (t := c.tag) (List.mem_map_of_mem hc)

theorem Duel.Sound.nodup_ids {d : Duel} (hd : d.Sound) : (d.cards.map Card.id).Nodup :=
  d.ids_fixture ▸ hd.fixture.nodup

theorem Duel.Sound.card_of_mem {d : Duel} (hd : d.Sound) {c : Card} (hc : c ∈ d.cards) :
    d.card c.id = .ok c := by
  obtain ⟨c', hc', -⟩ := Duel.tag?_eq_some_iff.mp (hd.tag?_of_mem hc)
  obtain ⟨hmem, hid⟩ := Duel.card_eq_ok hc'
  rw [hc', List.inj_on_of_nodup_map hd.nodup_ids hmem hc hid]

/-! ## §1 New cards -/

namespace Fixture

variable {φ : Fixture} {t t' : CardTag} {id : InstanceId}

/-- The fixture with one more card. -/
def extend (φ : Fixture) (t : CardTag) : Fixture :=
  { φ with cards := φ.cards ++ [t], nextInstance := φ.nextInstance.next }

theorem tag?_extend (h : φ.tag? id = some t') : (φ.extend t).tag? id = some t' := by
  unfold tag? at h ⊢
  rw [extend, List.find?_append, h]
  rfl

theorem owned_extend (p : PlayerId) :
    (φ.extend t).owned p = φ.owned p ++ if t.owner = p then [t.id] else [] := by
  simp only [owned, extend, List.filter_append, List.map_append]
  split <;> simp [*]

theorem Apt.extend {r : Registration} (h : φ.Apt r) : (φ.extend t).Apt r := by
  unfold Apt at h ⊢
  split
  · rename_i p hbearer
    rw [hbearer] at h
    exact h
  · rename_i id hbearer
    rw [hbearer] at h
    obtain ⟨t', ht', h⟩ := h
    exact ⟨t', tag?_extend ht', h⟩

/-- The fixture with one more card is sound if the card has the next
number and refers to things that exist. -/
theorem Sound.extend (h : φ.Sound) (hid : t.id = φ.nextInstance) (howner : t.owner ∈ φ.players)
    (hprinted : ∃ spec, φ.catalog.card? t.spec = some spec ∧ spec.cardType = t.cardType) :
    (φ.extend t).Sound where
  closed := h.closed
  distinct := h.distinct
  current := h.current
  numbers := by
    simp only [Fixture.extend, List.map_append, List.length_append, h.numbers, List.map_cons,
      List.map_nil, List.length_singleton, List.range_succ, hid, h.next]
  next := by simp [Fixture.extend, h.next, InstanceId.next]
  owners t' ht' := by
    rcases List.mem_append.mp ht' with hm | hm
    · exact h.owners t' hm
    · rw [List.mem_singleton.mp hm]
      exact howner
  printed t' ht' := by
    rcases List.mem_append.mp ht' with hm | hm
    · exact h.printed t' hm
    · rw [List.mem_singleton.mp hm]
      exact hprinted
  watched r hr := (h.watched r hr).extend

end Fixture

namespace Duel

variable {d d' : Duel} {owner : PlayerId} {card : CardId} {place : ZoneId} {id : InstanceId}

/-- The duel with one more card, which lies nowhere yet. -/
def enroll (d : Duel) (c : Card) : Duel :=
  { d with cards := d.cards ++ [c], nextInstance := d.nextInstance.next }

@[simp] theorem fixture_enroll (c : Card) : (d.enroll c).fixture = d.fixture.extend c.tag := by
  simp [fixture, enroll, Fixture.extend]

theorem card_enroll {c c' : Card} (h : d.card id = .ok c') : (d.enroll c).card id = .ok c' := by
  unfold Duel.card at h ⊢
  split at h
  · rename_i c'' hfind
    cases h
    simp [enroll, hfind]
  · cases h

theorem create_eq_ok (h : d.create owner card place = .ok (id, d')) :
    ∃ spec t z, d.catalog.card? card = some spec ∧
      d.catalog.cardType? spec.cardType = some t ∧ d.zone owner place = .ok z ∧
      id = d.nextInstance ∧
        d' = (d.enroll (.ofSpec d.nextInstance spec t owner)).modifyZone owner place
          (·.push d.nextInstance) := by
  unfold create at h
  split at h
  · rename_i spec hspec
    dsimp only [Bind.bind, Except.bind] at h
    split at h
    · rename_i t ht
      obtain ⟨z, hz, h⟩ := Except.bind_eq_ok_iff.mp h
      cases h
      exact ⟨spec, t, z, hspec, ht, hz, rfl, rfl⟩
    · cases h
  · cases h

/-- A new card on top of a zone keeps the duel laid out. -/
theorem Laid.create (hl : d.Laid) (hφ : d.fixture.Sound)
    (h : d.create owner card place = .ok (id, d')) : d'.Laid := by
  obtain ⟨spec, t, z, -, -, hz, -, rfl⟩ := create_eq_ok h
  obtain ⟨s₀, hs₀, hz⟩ := zone_eq_ok.mp hz
  constructor
  case zones =>
    intro s hm
    rw [modifyZone, catalog_modifySeat]
    rcases mem_seats_modifySeat hm with ⟨s₁, hs₁, rfl⟩ | ⟨hm, -⟩
    · rw [Seat.specs_modifyZone (f := (·.push d.nextInstance)) fun _ => rfl]
      exact hl.zones s₁ (seat_eq_ok hs₁).1
    · exact hl.zones s hm
  case dealt =>
    intro s hm
    rw [fixture_modifyZone, fixture_enroll, Fixture.owned_extend]
    rcases mem_seats_modifySeat hm with ⟨s₁, hs₁, rfl⟩ | ⟨hm, hother⟩
    · obtain ⟨hm₁, hid₁⟩ := seat_eq_ok hs₁
      cases hs₀.symm.trans hs₁
      have hpush : (s₀.modifyZone place (·.push d.nextInstance)).held.Perm
          (d.nextInstance :: s₀.held) :=
        (hl.distinct hφ.closed.zones hm₁).held_push (by simp [hz])
      refine hpush.trans (((hl.dealt s₀ hm₁).cons _).trans ?_)
      show (d.nextInstance :: d.fixture.owned s₀.id).Perm
        (d.fixture.owned s₀.id ++ if owner = s₀.id then [d.nextInstance] else [])
      rw [if_pos hid₁.symm]
      exact (List.perm_append_singleton _ _).symm
    · show s.held.Perm (d.fixture.owned s.id ++ if owner = s.id then [d.nextInstance] else [])
      rw [if_neg fun howner : owner = s.id => hother hφ.distinct howner.symm, List.append_nil]
      exact hl.dealt s hm

theorem fixture_create (h : d.create owner card place = .ok (id, d')) :
    ∃ spec, d.fixture.catalog.card? card = some spec ∧ owner ∈ d.fixture.players ∧
      d'.fixture = d.fixture.extend ⟨d.nextInstance, card, spec.cardType, owner⟩ := by
  obtain ⟨spec, t, z, hspec, -, hz, -, rfl⟩ := create_eq_ok h
  obtain ⟨s, hs, -⟩ := zone_eq_ok.mp hz
  have hid : spec.id = card := Registry.id_of_get? hspec
  refine ⟨spec, hspec, seat_isOk_iff.mp ⟨s, hs⟩, ?_⟩
  rw [fixture_modifyZone, fixture_enroll, Card.tag, Card.ofSpec, hid]

theorem Sound.create (hd : d.Sound) (h : d.create owner card place = .ok (id, d')) : d'.Sound where
  fixture := by
    obtain ⟨spec, hspec, howner, hφ⟩ := fixture_create h
    rw [hφ]
    exact hd.fixture.extend rfl howner ⟨spec, hspec, rfl⟩
  laid := hd.laid.create hd.fixture h

theorem Sound.createAll {cards : List CardId} (hd : d.Sound)
    (h : d.createAll owner place cards = .ok d') : d'.Sound := by
  induction cards generalizing d with
  | nil => cases h; exact hd
  | cons card rest ih =>
    obtain ⟨⟨id, d₁⟩, hcreate, h⟩ := Except.bind_eq_ok_iff.mp h
    exact ih (hd.create hcreate) h

theorem sound_blank {catalog : Catalog} {seed : UInt64} {first second : PlayerId}
    (h : catalog.Closed) (hne : first ≠ second) : (blank catalog seed first second).Sound where
  fixture :=
    { closed := h
      distinct := hne
      current := List.mem_cons_self
      numbers := rfl
      next := rfl
      owners := fun _ ht => nomatch ht
      printed := fun _ ht => nomatch ht
      watched := fun _ hr => nomatch hr }
  laid := by
    have hzones (z : List ZoneSpec) : (z.map Zone.ofSpec).map Zone.spec = z := by
      simp [Function.comp_def, Zone.ofSpec]
    have hheld (z : List ZoneSpec) : (z.map Zone.ofSpec).flatMap Zone.cards = [] := by
      simp [Zone.ofSpec]
    constructor
    case zones =>
      intro s hs
      simp only [seats, blank, List.mem_cons, List.not_mem_nil, or_false] at hs
      rcases hs with rfl | rfl <;> exact hzones _
    case dealt =>
      intro s hs
      simp only [seats, blank, List.mem_cons, List.not_mem_nil, or_false] at hs
      rcases hs with rfl | rfl
      · exact List.Perm.of_eq (hheld _)
      · exact List.Perm.of_eq (hheld _)

theorem start_eq_ok_iff {catalog : Catalog} {seed : UInt64} {first second : Entrant} :
    start catalog seed first second = .ok d ↔
      catalog.validate = .ok () ∧ first.id ≠ second.id ∧
        (blank catalog seed first.id second.id).deal first second = .ok d := by
  unfold start
  cases catalog.validate with
  | error e => simp [Bind.bind, Except.bind]
  | ok _ =>
    by_cases hne : first.id = second.id
    · simp [Bind.bind, Except.bind, hne]
    · cases (blank catalog seed first.id second.id).deal first second with
      | error e => simp [Bind.bind, Except.bind, hne]
      | ok d' => simp [Bind.bind, Except.bind, hne]

/-- **Duels start sound.** -/
theorem sound_of_start {catalog : Catalog} {seed : UInt64} {first second : Entrant}
    (h : start catalog seed first second = .ok d) : d.Sound := by
  obtain ⟨hvalid, hne, hdeal⟩ := start_eq_ok_iff.mp h
  obtain ⟨d₁, hfirst, hsecond⟩ := Except.bind_eq_ok_iff.mp hdeal
  have hblank : (blank catalog seed first.id second.id).Sound :=
    sound_blank (Catalog.closed_of_validate hvalid) hne
  exact (hblank.createAll hfirst).createAll hsecond

/-- Laying out cards changes nothing of the fixture but for the cards. -/
theorem fixture_createAll {α : Type} (part : Fixture → α) {cards : List CardId}
    (hpart : ∀ φ t, part (Fixture.extend φ t) = part φ)
    (h : d.createAll owner place cards = .ok d') : part d'.fixture = part d.fixture := by
  induction cards generalizing d with
  | nil => cases h; rfl
  | cons card rest ih =>
    obtain ⟨⟨id, d₁⟩, hcreate, h⟩ := Except.bind_eq_ok_iff.mp h
    obtain ⟨spec, -, -, hφ⟩ := fixture_create hcreate
    exact (ih h).trans ((congrArg part hφ).trans (hpart _ _))

theorem fixture_of_start {α : Type} (part : Fixture → α) {catalog : Catalog} {seed : UInt64}
    {first second : Entrant} (hpart : ∀ φ t, part (Fixture.extend φ t) = part φ)
    (h : start catalog seed first second = .ok d) :
    part d.fixture = part (blank catalog seed first.id second.id).fixture := by
  obtain ⟨-, -, hdeal⟩ := start_eq_ok_iff.mp h
  obtain ⟨d₁, hfirst, hsecond⟩ := Except.bind_eq_ok_iff.mp hdeal
  exact (fixture_createAll part hpart hsecond).trans (fixture_createAll part hpart hfirst)

theorem catalog_of_start {catalog : Catalog} {seed : UInt64} {first second : Entrant}
    (h : start catalog seed first second = .ok d) : d.catalog = catalog :=
  fixture_of_start Fixture.catalog (fun _ _ => rfl) h

theorem players_of_start {catalog : Catalog} {seed : UInt64} {first second : Entrant}
    (h : start catalog seed first second = .ok d) : d.fixture.players = [first.id, second.id] :=
  fixture_of_start Fixture.players (fun _ _ => rfl) h

end Duel

/-! ## §2 Registrations -/

namespace WatchTable

variable {table : WatchTable} {b : Bearer} {r : Registration}

/-- The watchers under a stat are those that are registered on it. -/
theorem mem_on {stat : String} {w : Watcher} :
    w ∈ table.on b stat ↔ ⟨b, stat, w⟩ ∈ table.entries := by
  simp only [on, List.mem_map, List.mem_filter, decide_eq_true_eq]
  constructor
  · intro h
    obtain ⟨⟨_, _, _⟩, ⟨hr, rfl, rfl⟩, rfl⟩ := h
    exact hr
  · intro hr
    exact ⟨⟨b, stat, w⟩, ⟨hr, rfl, rfl⟩, rfl⟩

theorem mem_register {stat : String} {w : Watcher} :
    r ∈ (table.register b stat w).entries ↔ r ∈ table.entries ∨ r = ⟨b, stat, w⟩ := by
  unfold register
  split
  · rename_i hmem
    refine ⟨.inl, fun h => ?_⟩
    rcases h with h | rfl
    · exact h
    · exact hmem
  · simp

theorem mem_foldl_register {α : Type} {stat : α → String} {w : α → Watcher} :
    ∀ {l : List α} {table : WatchTable},
      r ∈ (l.foldl (fun t a => t.register b (stat a) (w a)) table).entries ↔
        r ∈ table.entries ∨ ∃ a ∈ l, r = ⟨b, stat a, w a⟩
  | [], table => by simp
  | a :: rest, table => by
    rw [List.foldl_cons, mem_foldl_register, mem_register]
    simp only [List.exists_mem_cons_iff, or_assoc]

end WatchTable

namespace Fixture

variable {φ φ' : Fixture}

/-- The second fixture is the first one with new registrations. -/
def Registers (φ φ' : Fixture) (new : Registration → Prop) : Prop :=
  ∃ table : WatchTable, φ' = { φ with watchers := table } ∧
    ∀ r, r ∈ table.entries ↔ r ∈ φ.watchers.entries ∨ new r

theorem Registers.sound {new : Registration → Prop} (h : φ.Registers φ' new) (hφ : φ.Sound)
    (hnew : ∀ r, new r → φ.Apt r) : φ'.Sound := by
  obtain ⟨table, rfl, htable⟩ := h
  refine { hφ with watched := fun r hr => ?_ }
  rcases (htable r).mp hr with hr | hr
  · exact hφ.watched r hr
  · exact hnew r hr

theorem Registers.cards_eq {new : Registration → Prop} (h : φ.Registers φ' new) :
    φ'.cards = φ.cards := by
  obtain ⟨table, rfl, -⟩ := h
  rfl

end Fixture

namespace Duel

variable {d d' : Duel} {new : Registration → Prop}

/-- The second duel is the first one with new registrations. -/
def Registers (d d' : Duel) (new : Registration → Prop) : Prop :=
  ∃ table : WatchTable, d' = { d with watchers := table } ∧
    ∀ r, r ∈ table.entries ↔ r ∈ d.watchers.entries ∨ new r

theorem Registers.fixture (h : d.Registers d' new) : d.fixture.Registers d'.fixture new := by
  obtain ⟨table, rfl, htable⟩ := h
  exact ⟨table, rfl, htable⟩

theorem Registers.laid (h : d.Registers d' new) (hl : d.Laid) : d'.Laid := by
  obtain ⟨table, rfl, -⟩ := h
  exact hl.congr rfl rfl rfl

end Duel

/-! ## §3 Fixtures -/

namespace Fixture

variable {φ φ' : Fixture}

/-- What an action that is done does to the fixture. Chains do nothing to
it. -/
def Follows (φ : Fixture) (a : Action) (φ' : Fixture) : Prop :=
  match a with
  | .setCurrent player => player ∈ φ.players ∧ φ' = { φ with current := player }
  | .create owner card _ =>
    ∃ spec, φ.catalog.card? card = some spec ∧ owner ∈ φ.players ∧
      φ' = φ.extend ⟨φ.nextInstance, card, spec.cardType, owner⟩
  | .watchPlayer player =>
    ∃ stats : List String, player ∈ φ.players ∧ φ.Registers φ' fun r =>
      ∃ stat ∈ stats, r = ⟨.player player, stat, .propagate player .player⟩
  | .watchCard card =>
    ∃ (stats : List String) (t : CardTag), φ.tag? card = some t ∧ φ.Registers φ' fun r =>
      ∃ stat ∈ stats, r = ⟨.card card, stat, .propagate t.owner .card⟩
  | .watchDestroy card =>
    ∃ t, φ.tag? card = some t ∧ φ.Registers φ' fun r =>
      ∃ index k, φ.condition? t index = some k ∧
        r = ⟨.card card, k.stat, .destroy t.owner card index⟩
  | _ => φ' = φ

theorem Follows.sound {a : Action} (h : φ.Follows a φ') (hφ : φ.Sound) : φ'.Sound := by
  cases a with
  | setCurrent player =>
    obtain ⟨hplayer, rfl⟩ := h
    exact { hφ with current := hplayer }
  | create owner card place =>
    obtain ⟨spec, hspec, howner, rfl⟩ := h
    exact hφ.extend rfl howner ⟨spec, hspec, rfl⟩
  | watchPlayer player =>
    obtain ⟨stats, hplayer, hreg⟩ := h
    refine hreg.sound hφ ?_
    intro r hr
    obtain ⟨stat, -, rfl⟩ := hr
    exact ⟨hplayer, rfl⟩
  | watchCard card =>
    obtain ⟨stats, t, ht, hreg⟩ := h
    refine hreg.sound hφ ?_
    intro r hr
    obtain ⟨stat, -, rfl⟩ := hr
    exact ⟨t, ht, .inl rfl⟩
  | watchDestroy card =>
    obtain ⟨t, ht, hreg⟩ := h
    refine hreg.sound hφ ?_
    intro r hr
    obtain ⟨index, k, hk, rfl⟩ := hr
    exact ⟨t, ht, .inr ⟨index, k, rfl, hk, rfl⟩⟩
  | _ => cases h; exact hφ

/-- The cards stay, and those that are new come after them. -/
theorem Follows.cards_grow {a : Action} (h : φ.Follows a φ') : φ.cards <+: φ'.cards := by
  cases a with
  | setCurrent player => obtain ⟨-, rfl⟩ := h; exact List.prefix_rfl
  | create owner card place =>
    obtain ⟨spec, -, -, rfl⟩ := h
    exact List.prefix_append _ _
  | watchPlayer player => obtain ⟨_, -, hreg⟩ := h; exact hreg.cards_eq ▸ List.prefix_rfl
  | watchCard card => obtain ⟨_, _, -, hreg⟩ := h; exact hreg.cards_eq ▸ List.prefix_rfl
  | watchDestroy card => obtain ⟨_, -, hreg⟩ := h; exact hreg.cards_eq ▸ List.prefix_rfl
  | _ => cases h; exact List.prefix_rfl

/-- The second fixture has the catalog and the players of the first, and
its cards before any others. -/
structure Grows (φ φ' : Fixture) : Prop where
  catalog : φ'.catalog = φ.catalog
  players : φ'.players = φ.players
  cards : φ.cards <+: φ'.cards

theorem Grows.refl (φ : Fixture) : φ.Grows φ := ⟨rfl, rfl, List.prefix_rfl⟩

theorem Grows.trans {φ'' : Fixture} (h : φ.Grows φ') (h' : φ'.Grows φ'') : φ.Grows φ'' :=
  ⟨h'.catalog.trans h.catalog, h'.players.trans h.players, h.cards.trans h'.cards⟩

theorem Grows.extend (φ : Fixture) (t : CardTag) : φ.Grows (φ.extend t) :=
  ⟨rfl, rfl, List.prefix_append _ _⟩

theorem Follows.grows {a : Action} (h : φ.Follows a φ') : φ.Grows φ' := by
  refine ⟨?_, ?_, h.cards_grow⟩ <;> cases a with
  | setCurrent player => obtain ⟨-, rfl⟩ := h; rfl
  | create owner card place => obtain ⟨spec, -, -, rfl⟩ := h; rfl
  | watchPlayer player => obtain ⟨_, -, _, rfl, -⟩ := h; rfl
  | watchCard card => obtain ⟨_, _, -, _, rfl, -⟩ := h; rfl
  | watchDestroy card => obtain ⟨_, -, _, rfl, -⟩ := h; rfl
  | _ => cases h; rfl

end Fixture

/-! ## §4 Actions -/

/-- An error that an action reports before it changes anything: something
that the caller named does not exist. -/
def DuelError.Early (e : DuelError) : Prop :=
  (∃ cause, e = .lookup cause) ∨ ∃ card index count, e = .abilityIndex card index count

/-- The ways in which an action on a duel may end without a reply. -/
def Exits.ofAction (limit : Nat) (d : Duel) : Exits where
  refused e s :=
    (e.Early ∧ s.duel = d) ∨
      ((∃ kind card, e = .depthLimit limit kind card) ∧ s.duel.fixture = d.fixture ∧ s.duel.Laid)
  fault _ := True

theorem Exits.early_ofAction {limit : Nat} {d : Duel} {journal : List Event} {depth : Nat} :
    (Exits.ofAction limit d).Early ⟨d, journal, depth⟩ where
  lookup e := .inl ⟨.inl ⟨e, rfl⟩, rfl⟩
  ability card index count := .inl ⟨.inr ⟨card, index, count, rfl⟩, rfl⟩

variable {d : Duel} {limit rounds : Nat} {journal : List Event} {level : Nat}

/-- Moves keep fixture and layout; nothing else is asked of them. -/
theorem transfers_of_sound {φ : Fixture} {X : Exits} (hφ : φ.Sound)
    (fault : ∀ cause, X.fault cause) : Transfers φ X fun (_ : Unit) _ => True :=
  ⟨hφ, fun _ _ _ _ => trivial, fun _ _ => fault _⟩

/-- Chains keep fixture and layout; nothing else is asked of them. -/
theorem upkeep_of_sound {φ : Fixture} {X : Exits} (hφ : φ.Sound)
    (stop : ∀ card kind s, s.duel.fixture = φ → s.duel.Laid →
      X.refused (.depthLimit limit kind card) s)
    (leave : ∀ e s, X.refused e s → X.refused e { s with depth := s.depth - 1 })
    (fault : ∀ cause, X.fault cause) :
    Upkeep φ X (fun (_ : Unit) _ => True) limit fun _ _ _ i => i :=
  have M : Moves φ X fun (_ : Unit) _ => True := (transfers_of_sound hφ fault).moves
  { M with
    draw := fun _ _ => trivial
    write := fun _ _ _ _ _ _ _ => by
      split
      · trivial
      · exact fault _
    swap := id
    notify := fun hfire _ hs => M.wp_notify (i := ()) hfire hs trivial
    enter := fun _ _ _ _ => trivial
    leave := fun _ => trivial
    leave_refused := leave _ _
    stop := fun card kind hs => stop card kind _ hs.fixture hs.laid
    rounds := fault _ }

/-- A chain is refused at the depth limit only. -/
def Exits.atLimit (limit : Nat) : Exits :=
  ⟨fun e _ => ∃ kind card, e = .depthLimit limit kind card, fun _ => True⟩

theorem upkeep_atLimit {φ : Fixture} (hφ : φ.Sound) :
    Upkeep φ (.atLimit limit) (fun (_ : Unit) _ => True) limit fun _ _ _ i => i :=
  upkeep_of_sound hφ (fun card kind _ _ _ => ⟨kind, card, rfl⟩) (fun _ _ h => h) fun _ => trivial

/-- Whatever is refused, fixture and layout are kept. -/
def Exits.keeping (φ : Fixture) : Exits :=
  ⟨fun _ s => s.duel.fixture = φ ∧ s.duel.Laid, fun _ => True⟩

theorem upkeep_keeping {φ : Fixture} (hφ : φ.Sound) :
    Upkeep φ (.keeping φ) (fun (_ : Unit) _ => True) limit fun _ _ _ i => i :=
  upkeep_of_sound hφ (fun _ _ _ hfix hlaid => ⟨hfix, hlaid⟩) (fun _ _ h => h) fun _ => trivial

theorem Exits.early_keeping {depth : Nat} (hd : d.Laid) :
    (Exits.keeping d.fixture).Early ⟨d, journal, depth⟩ :=
  ⟨fun _ => ⟨rfl, hd⟩, fun _ _ _ => ⟨rfl, hd⟩⟩

theorem ages_of_sound {φ : Fixture} {X : Exits} (fault : ∀ cause, X.fault cause) :
    Ages φ X (fun (_ : Unit) _ => True) fun _ _ _ i => i := by
  intro i s b block _ _ _
  split
  · trivial
  · exact fault _

/-- One after the other, draws keep an assertion that each draw keeps; it
may speak of the number of draws to come. -/
theorem wp_drawLoop {φ : Fixture} {X : Exits} {I : Nat → Scene → Prop} {player : PlayerId}
    (hφ : φ.Sound) (hp : player ∈ φ.players)
    (step : ∀ n s z card, Standing φ (I (n + 1)) s →
      s.duel.zone player φ.catalog.rules.deck = .ok z → z.top? = some card →
        I n { s with duel := s.duel.drawn player card }) :
    ∀ n s, Standing φ (I n) s →
      wp X (drawLoop player n) (fun _ s' => ∃ k, Standing φ (I k) s') s
  | 0, s, hs => ⟨0, hs⟩
  | n + 1, s, hs => by
    obtain ⟨z, hz⟩ := hs.zone hp hφ.closed.deck
    obtain ⟨z', hz'⟩ := hs.zone hp hφ.closed.hand
    rw [← hs.catalog] at hz hz'
    rw [drawLoop, wp_bind, wp_duel, wp_bind, wp_find_ok hz]
    split
    · exact ⟨n + 1, hs⟩
    · rename_i card htop
      simp only [wp_bind, wp_modifyDuel, wp_pure]
      refine wp_drawLoop hφ hp step n { s with duel := s.duel.drawn player card }
        ⟨?_, ?_, step n s z card hs (hs.catalog ▸ hz) htop⟩
      · rw [← hs.fixture, Duel.drawn, Duel.fixture_modifyZone, Duel.fixture_modifyZone]
      · refine hs.laid.drawn ?_ hz htop ⟨z', hz'⟩
        rw [hs.catalog]
        exact hφ.closed.zones

/-- A list can be made for the cards that the action is to draw. -/
def Action.HasRoom : Action → Prop
  | draw _ count => count ≤ drawCapacity
  | _ => True

theorem makeRoom_of_le {n : Nat} (h : n ≤ drawCapacity) : makeRoom n = .ok () := if_pos h

theorem makeRoom_of_lt {n : Nat} (h : drawCapacity < n) :
    makeRoom n = .error .capacityOverflow :=
  if_neg (Nat.not_le.mpr h)

/-- A draw of cards keeps what each single draw keeps. Its one fault is
that there is no room for the cards. -/
theorem wp_drawCards {φ : Fixture} {X : Exits} {I : Nat → Scene → Prop} (player : PlayerId)
    (n : Nat) {s : Scene} (hφ : φ.Sound) (early : X.Early s)
    (room : drawCapacity < n → X.fault .capacityOverflow)
    (step : ∀ n s z card, Standing φ (I (n + 1)) s →
      s.duel.zone player φ.catalog.rules.deck = .ok z → z.top? = some card →
        I n { s with duel := s.duel.drawn player card }) (hs : Standing φ (I n) s) :
    wp X (drawCards player n) (fun _ s' => ∃ k, Standing φ (I k) s') s := by
  rw [drawCards, wp_bind, wp_duel, wp_bind, wp_find]
  split
  · rename_i z hz
    rw [wp_bind, wp_find]
    split
    · rw [wp_bind, wp_sound]
      rcases Nat.lt_or_ge drawCapacity n with hn | hn
      · rw [makeRoom_of_lt hn]
        exact room hn
      · rw [makeRoom_of_le hn]
        exact wp_drawLoop hφ (hs.mem_players hz) step n s hs
    · exact early.lookup _
  · exact early.lookup _

section
variable {X : Exits} {Q : Unit → Scene → Prop} {player : PlayerId} {card : InstanceId}
variable (early : X.Early ⟨d, journal, level⟩)
include early

theorem wp_setCurrent
    (hQ : player ∈ d.fixture.players → Q () ⟨{ d with current := player }, journal, level⟩) :
    wp X (Play.setCurrent player) Q ⟨d, journal, level⟩ := by
  rw [Play.setCurrent, wp_bind, wp_find]
  split
  · rename_i st hst
    exact hQ (Duel.seat_isOk_iff.mp ⟨st, hst⟩)
  · exact early.lookup _

theorem wp_create {owner : PlayerId} {spec : CardId} {place : ZoneId}
    {Q : InstanceId → Scene → Prop}
    (hQ : ∀ id d', d.create owner spec place = .ok (id, d') → Q id ⟨d', journal, level⟩) :
    wp X (Play.create owner spec place) Q ⟨d, journal, level⟩ := by
  rw [Play.create, wp_bind, wp_find]
  split
  · rename_i r hr
    exact hQ r.1 r.2 hr
  · exact early.lookup _

theorem wp_watchPlayer
    (hQ : ∀ d' (stats : List String), player ∈ d.fixture.players →
      d.Registers d' (fun r => ∃ stat ∈ stats,
        r = ⟨.player player, stat, .propagate player .player⟩) → Q () ⟨d', journal, level⟩) :
    wp X (Play.watchPlayer player) Q ⟨d, journal, level⟩ := by
  rw [Play.watchPlayer, wp_bind, wp_find]
  split
  · rename_i st hst
    exact hQ _ st.stats.names (Duel.seat_isOk_iff.mp ⟨st, hst⟩)
      ⟨_, rfl, fun r => WatchTable.mem_foldl_register⟩
  · exact early.lookup _

theorem wp_watchCard
    (hQ : ∀ d' (stats : List String) t, d.fixture.tag? card = some t →
      d.Registers d' (fun r => ∃ stat ∈ stats,
        r = ⟨.card card, stat, .propagate t.owner .card⟩) → Q () ⟨d', journal, level⟩) :
    wp X (Play.watchCard card) Q ⟨d, journal, level⟩ := by
  rw [Play.watchCard, wp_bind, wp_find]
  split
  · rename_i c hc
    exact hQ _ c.stats.names c.tag (Duel.tag?_eq_some_iff.mpr ⟨c, hc, rfl⟩)
      ⟨_, rfl, fun r => WatchTable.mem_foldl_register⟩
  · exact early.lookup _

theorem wp_watchDestroy
    (hQ : ∀ d' t, d.fixture.tag? card = some t →
      d.Registers d' (fun r => ∃ index k, d.fixture.condition? t index = some k ∧
        r = ⟨.card card, k.stat, .destroy t.owner card index⟩) → Q () ⟨d', journal, level⟩) :
    wp X (Play.watchDestroy card) Q ⟨d, journal, level⟩ := by
  rw [Play.watchDestroy, wp_bind, wp_find]
  split
  · rename_i c hc
    rw [wp_bind, wp_find]
    split
    · rename_i t ht
      have ht : d.catalog.cardType? c.cardType = some t := by
        split at ht
        · rename_i t' ht'; cases ht; exact ht'
        · cases ht
      have hcondition (index : Nat) (k : Condition) :
          d.fixture.condition? c.tag index = some k ↔ (k, index) ∈ t.destroyConditions.zipIdx := by
        rw [List.mk_mem_zipIdx_iff_getElem?]
        show (d.catalog.cardType? c.cardType).bind (·.destroyConditions[index]?) = some k ↔ _
        rw [ht]
        exact Iff.rfl
      refine hQ _ c.tag (Duel.tag?_eq_some_iff.mpr ⟨c, hc, rfl⟩) ⟨_, rfl, fun r => ?_⟩
      refine WatchTable.mem_foldl_register.trans (or_congr_right ⟨?_, ?_⟩)
      · intro h
        obtain ⟨⟨k, index⟩, hk, rfl⟩ := h
        exact ⟨index, k, (hcondition index k).mpr hk, rfl⟩
      · intro h
        obtain ⟨index, k, hk, rfl⟩ := h
        exact ⟨(k, index), (hcondition index k).mp hk, rfl⟩
    · exact early.lookup _
  · exact early.lookup _

end

namespace Duel.Sound

variable (hd : d.Sound)
include hd

/-- **Every action keeps a duel laid out**, and does to its fixture what
`Fixture.Follows` says. -/
theorem wp_run (a : Action) :
    wp (.ofAction limit d) (a.run (dispatch limit rounds))
      (fun _ s => d.fixture.Follows a s.duel.fixture ∧ s.duel.Laid) ⟨d, journal, level⟩ := by
  have U : Upkeep d.fixture (.ofAction limit d) (fun (_ : Unit) _ => True) limit fun _ _ _ i => i :=
    upkeep_of_sound hd.fixture
      (fun card kind _ hfix hlaid => .inr ⟨⟨kind, card, rfl⟩, hfix, hlaid⟩) (fun _ _ h => h)
      fun _ => trivial
  have hs : Standing d.fixture (fun _ => True) ⟨d, journal, level⟩ := ⟨rfl, hd.laid, trivial⟩
  have early := @Exits.early_ofAction limit d journal level
  cases a with
  | setCurrent player =>
    exact wp_map.mpr (wp_setCurrent early fun hplayer =>
      ⟨⟨hplayer, rfl⟩, hd.laid.congr rfl rfl rfl⟩)
  | create owner card place =>
    exact wp_map.mpr (wp_create early fun id d' hcreate =>
      ⟨fixture_create hcreate, hd.laid.create hd.fixture hcreate⟩)
  | watchPlayer player =>
    exact wp_map.mpr (wp_watchPlayer early fun d' stats hplayer hreg =>
      ⟨⟨stats, hplayer, hreg.fixture⟩, hreg.laid hd.laid⟩)
  | watchCard card =>
    exact wp_map.mpr (wp_watchCard early fun d' stats t ht hreg =>
      ⟨⟨stats, t, ht, hreg.fixture⟩, hreg.laid hd.laid⟩)
  | watchDestroy card =>
    exact wp_map.mpr (wp_watchDestroy early fun d' t ht hreg =>
      ⟨⟨t, ht, hreg.fixture⟩, hreg.laid hd.laid⟩)
  | move player card origin destination selection =>
    refine wp_map.mpr (wp_mono ?_ fun _ s' (hs' : Standing d.fixture (fun _ => True) s') =>
      ⟨hs'.fixture, hs'.laid⟩)
    exact (transfers_of_sound hd.fixture fun _ => trivial).wp_moveAction (i := ())
      (U.keeps_dispatch rounds) hs early fun _ _ _ => trivial
  | draw player count =>
    have hdraw := wp_drawCards (I := fun _ _ => True) player count hd.fixture early
      (fun _ => trivial) (fun _ _ _ _ _ _ _ => trivial) hs
    exact wp_map.mpr (wp_mono hdraw fun _ s' ⟨_, hs'⟩ => ⟨hs'.fixture, hs'.laid⟩)
  | startTurn | endTurn | attackPlayer | attackCard | activate | dispatch =>
    refine wp_mono (?_ : wp _ _ (fun _ => Standing d.fixture fun _ => True) _) fun _ s' hs' =>
      ⟨hs'.fixture, hs'.laid⟩
    exact U.wp_run (i := ()) (fun _ => @ages_of_sound _ _ fun _ => trivial) rfl hs early

end Duel.Sound

/-! ## §5 Runs -/

/-- Actions lead from a start to the duel. The log has those that were
done, the latest first; those that were refused in between are not in it. -/
inductive Reached : List Action → Duel → Prop where
  | start {catalog : Catalog} {seed : UInt64} {first second : Entrant} {d : Duel}
      (h : Duel.start catalog seed first second = .ok d) : Reached [] d
  | done {log : List Action} {d d' : Duel} {limit : Nat} {a : Action} {reply : Reply}
      (before : Reached log d) (h : d.perform limit a = .done reply d') : Reached (a :: log) d'
  | refused {log : List Action} {d d' : Duel} {limit : Nat} {a : Action} {e : DuelError}
      (before : Reached log d) (h : d.perform limit a = .refused e d') : Reached log d'

/-- The duel after a list of actions, provided that all are done. -/
def Duel.performAll (limit : Nat) : List Action → Duel → Option Duel
  | [], d => some d
  | a :: rest, d =>
    match d.perform limit a with
    | .done _ d' => d'.performAll limit rest
    | _ => none

theorem Reached.performAll {actions log : List Action} {d d' : Duel} (h : Reached log d)
    (hd : d.performAll limit actions = some d') : Reached (actions.reverse ++ log) d' := by
  induction actions generalizing log d with
  | nil => cases hd; exact h
  | cons a rest ih =>
    unfold Duel.performAll at hd
    split at hd
    · rename_i reply d₁ hdone
      rw [List.reverse_cons, List.append_assoc]
      exact ih (.done h hdone) hd
    · cases hd

/-- A start can be found by carrying it out. -/
theorem Duel.exists_of_start {catalog : Catalog} {seed : UInt64} {first second : Entrant}
    {p : Duel → Prop} (h : ∃ d ∈ (start catalog seed first second).toOption, p d) :
    ∃ d, start catalog seed first second = .ok d ∧ p d := by
  obtain ⟨d, hd, hp⟩ := h
  cases hstart : start catalog seed first second with
  | error e => rw [hstart] at hd; cases hd
  | ok d₀ =>
    rw [hstart] at hd
    cases hd
    exact ⟨d, rfl, hp⟩

/-- A run can be found by carrying it out. -/
theorem Reached.exists_of_performAll {catalog : Catalog} {seed : UInt64} {first second : Entrant}
    {actions : List Action} {p : Duel → Prop}
    (h : ∃ d ∈ (Duel.start catalog seed first second).toOption.bind (Duel.performAll limit actions),
      p d) : ∃ d, Reached actions.reverse d ∧ p d := by
  obtain ⟨d, hd, hp⟩ := h
  obtain ⟨d₀, hstart, hd⟩ := Option.bind_eq_some_iff.mp hd
  obtain ⟨d₁, hstart₁, rfl⟩ := Duel.exists_of_start (p := (d₀ = ·)) ⟨d₀, hstart, rfl⟩
  exact ⟨d, by simpa using (Reached.start hstart₁).performAll hd, hp⟩

/-- What holds of a computation holds of the duel that an action leaves. -/
theorem perform_of_wp {X : Exits} {a : Action} {Q : Reply → Scene → Prop}
    (h : wp X (a.run (dispatch limit (limit + 1))) Q ⟨d, [], 0⟩) :
    match d.perform limit a with
    | .done reply d' => ∃ s, s.duel = d' ∧ Q reply s
    | .refused e d' => ∃ s, s.duel = d' ∧ X.refused e s
    | .fault cause => X.fault cause := by
  unfold wp at h
  unfold Duel.perform Duel.record Game.record
  cases hrun : a.run (dispatch limit (limit + 1)) ⟨d, [], 0⟩ with
  | done reply s => rw [hrun] at h; exact ⟨s, rfl, h⟩
  | refused e s => rw [hrun] at h; exact ⟨s, rfl, h⟩
  | fault cause => rw [hrun] at h; exact h

theorem state_of_wp {X : Exits} {a : Action} {Q : Reply → Scene → Prop} {d' : Duel}
    (h : wp X (a.run (dispatch limit (limit + 1))) Q ⟨d, [], 0⟩)
    (hd' : (d.perform limit a).state? = some d') :
    ∃ s, s.duel = d' ∧ ((∃ reply, Q reply s) ∨ ∃ e, X.refused e s) := by
  rw [Duel.perform, Outcome.state?_mapState, Option.map_eq_some_iff] at hd'
  obtain ⟨s, hs, rfl⟩ := hd'
  exact ⟨s, rfl, wp_state h hs⟩

namespace Duel.Sound

variable {a : Action} {d' : Duel} (hd : d.Sound)
include hd

theorem perform_done {reply : Reply} (h : d.perform limit a = .done reply d') :
    d'.Sound ∧ d.fixture.Follows a d'.fixture := by
  have hrun := perform_of_wp (@wp_run d limit (limit + 1) [] 0 hd a)
  rw [h] at hrun
  obtain ⟨s, rfl, hfollows, hlaid⟩ := hrun
  exact ⟨⟨hfollows.sound hd.fixture, hlaid⟩, hfollows⟩

theorem perform_refused {e : DuelError} (h : d.perform limit a = .refused e d') :
    (e.Early ∧ d' = d) ∨
      ((∃ kind card, e = .depthLimit limit kind card) ∧ d'.fixture = d.fixture ∧ d'.Laid) := by
  have hrun := perform_of_wp (@wp_run d limit (limit + 1) [] 0 hd a)
  rw [h] at hrun
  obtain ⟨s, rfl, hs⟩ := hrun
  exact hs

theorem sound_of_refused {e : DuelError} (h : d.perform limit a = .refused e d') :
    d'.Sound ∧ d'.fixture = d.fixture := by
  rcases hd.perform_refused h with ⟨-, rfl⟩ | ⟨-, hfix, hlaid⟩
  · exact ⟨hd, rfl⟩
  · exact ⟨⟨hfix ▸ hd.fixture, hlaid⟩, hfix⟩

/-- An action is done and changes the fixture as it says, or is refused
and leaves the fixture. -/
theorem fixture_of_state (h : (d.perform limit a).state? = some d') :
    (∃ reply, d.perform limit a = .done reply d') ∧ d.fixture.Follows a d'.fixture ∨
      (∃ e, d.perform limit a = .refused e d') ∧ d'.fixture = d.fixture := by
  rcases Outcome.state?_eq_some_iff.mp h with ⟨reply, hdone⟩ | ⟨e, hrefused⟩
  · exact .inl ⟨⟨reply, hdone⟩, (hd.perform_done hdone).2⟩
  · exact .inr ⟨⟨e, hrefused⟩, (hd.sound_of_refused hrefused).2⟩

/-- After an action, done or refused, the duel is sound and has the cards
that it had, those that are new after them. -/
theorem sound_of_state (h : (d.perform limit a).state? = some d') :
    d'.Sound ∧ d.fixture.cards <+: d'.fixture.cards := by
  rcases hd.fixture_of_state h with ⟨⟨reply, hdone⟩, hfollows⟩ | ⟨⟨e, hrefused⟩, hfixture⟩
  · exact ⟨(hd.perform_done hdone).1, hfollows.cards_grow⟩
  · exact ⟨(hd.sound_of_refused hrefused).1, hfixture ▸ List.prefix_rfl⟩

theorem grows_of_state (h : (d.perform limit a).state? = some d') :
    d.fixture.Grows d'.fixture := by
  rcases hd.fixture_of_state h with ⟨-, hfollows⟩ | ⟨-, hfixture⟩
  · exact hfollows.grows
  · rw [hfixture]
    exact .refl _

end Duel.Sound

/-- **Every duel that is reached is sound.** -/
theorem Reached.sound {log : List Action} (h : Reached log d) : d.Sound := by
  induction h with
  | start h => exact Duel.sound_of_start h
  | done _ h ih => exact (ih.perform_done h).1
  | refused _ h ih => exact (ih.sound_of_refused h).1

/-- The catalog of a duel that is reached is one that passes validation. -/
theorem Reached.validated {log : List Action} {d : Duel} (h : Reached log d) :
    d.catalog.validate = .ok () := by
  induction h with
  | start h =>
    rw [Duel.catalog_of_start h]
    exact (Duel.start_eq_ok_iff.mp h).1
  | done before h ih =>
    have hgrows := before.sound.grows_of_state (by rw [h]; rfl)
    exact (congrArg Catalog.validate hgrows.catalog).trans ih
  | refused before h ih =>
    have hgrows := before.sound.grows_of_state (by rw [h]; rfl)
    exact (congrArg Catalog.validate hgrows.catalog).trans ih

/-- Actions lead from the first duel to the second. Some of them may be
refused on the way. -/
inductive Duel.Leads : Duel → Duel → Prop where
  | refl (d : Duel) : Leads d d
  | step {d d₁ d₂ : Duel} {limit : Nat} {a : Action} (before : Leads d d₁)
      (h : (d₁.perform limit a).state? = some d₂) : Leads d d₂

/-- Over a run the fixture grows, and the duels stay sound. -/
theorem Duel.Leads.grows {d d' : Duel} (h : d.Leads d') (hd : d.Sound) :
    d'.Sound ∧ d.fixture.Grows d'.fixture := by
  induction h with
  | refl => exact ⟨hd, .refl _⟩
  | step _ hstep ih =>
    obtain ⟨hsound, hgrows⟩ := ih
    exact ⟨(hsound.sound_of_state hstep).1, hgrows.trans (hsound.grows_of_state hstep)⟩

end CardDuel
