/-
CardDuel.Proofs.Fixture — the part of a duel that chains leave alone.

A chain of abilities moves cards, writes stats and draws from the
generator. It never touches the catalog, the players, whose turn it is,
which cards there are and whose they are, or the registered watchers.
`Duel.fixture` is that part of a duel. Whether a look-up succeeds, the
place of a card apart, is a matter of the fixture alone, and
`Fixture.Sound` says what makes all look-ups of a chain succeed.

  §1 Fixtures   — the part, and the updates that keep it.
  §2 Look-ups   — players and cards by the fixture.
  §3 Soundness  — the invariant of fixtures.
-/
import CardDuel.Proofs.Lookup
import CardDuel.Proofs.References
import Mathlib.Data.List.Nodup

namespace CardDuel

/-! ## §1 Fixtures -/

/-- A card in play without its stats. -/
structure CardTag where
  id : InstanceId
  spec : CardId
  cardType : CardTypeId
  owner : PlayerId
  deriving DecidableEq, Repr

def Card.tag (c : Card) : CardTag := ⟨c.id, c.spec, c.cardType, c.owner⟩

/-- The part of a duel that chains leave alone. -/
structure Fixture where
  catalog : Catalog
  first : PlayerId
  second : PlayerId
  current : PlayerId
  cards : List CardTag
  nextInstance : InstanceId
  watchers : WatchTable
  deriving DecidableEq, Repr

namespace Fixture

def players (φ : Fixture) : List PlayerId := [φ.first, φ.second]

def tag? (φ : Fixture) (id : InstanceId) : Option CardTag := φ.cards.find? (·.id = id)

/-- The cards of a player, in order of creation. -/
def owned (φ : Fixture) (p : PlayerId) : List InstanceId :=
  (φ.cards.filter (·.owner = p)).map CardTag.id

/-- A destroy condition of the type of a card, by its place. -/
def condition? (φ : Fixture) (t : CardTag) (index : Nat) : Option Condition :=
  (φ.catalog.cardType? t.cardType).bind (·.destroyConditions[index]?)

end Fixture

namespace Duel

/-- The part of the duel that chains leave alone. -/
def fixture (d : Duel) : Fixture where
  catalog := d.catalog
  first := d.first.id
  second := d.second.id
  current := d.current
  cards := d.cards.map Card.tag
  nextInstance := d.nextInstance
  watchers := d.watchers

variable {d : Duel} {p : PlayerId}

theorem fixture_modifySeat {f : Seat → Seat} (hf : ∀ s, (f s).id = s.id) :
    (d.modifySeat p f).fixture = d.fixture := by
  unfold modifySeat
  split
  · simp [fixture, hf]
  · split
    · simp [fixture, hf]
    · rfl

@[simp] theorem fixture_modifyZone (id : ZoneId) (f : Zone → Zone) :
    (d.modifyZone p id f).fixture = d.fixture :=
  fixture_modifySeat fun _ => rfl

@[simp] theorem fixture_transfer (card : InstanceId) (origin destination : ZoneId) :
    (d.transfer p card origin destination).fixture = d.fixture := by
  simp [transfer]

@[simp] theorem fixture_putStats (b : Bearer) (block : StatBlock) :
    (d.putStats b block).fixture = d.fixture := by
  cases b with
  | player id => exact fixture_modifySeat fun _ => rfl
  | card id =>
    have htag : (Card.tag ∘ fun c => if c.id = id then { c with stats := block } else c) =
        Card.tag := by
      funext c
      simp only [Function.comp_apply]
      split <;> rfl
    simp [putStats, modifyCard, fixture, htag]

/-! ## §2 Look-ups -/

theorem seat_isOk_iff : (∃ s, d.seat p = .ok s) ↔ p ∈ d.fixture.players := by
  simp only [Fixture.players, fixture, List.mem_cons, List.not_mem_nil, or_false]
  constructor
  · intro h
    obtain ⟨s, hs⟩ := h
    obtain ⟨hmem, rfl⟩ := seat_eq_ok hs
    simp only [seats, List.mem_cons, List.not_mem_nil, or_false] at hmem
    rcases hmem with rfl | rfl
    · exact .inl rfl
    · exact .inr rfl
  · intro h
    rcases h with rfl | rfl
    · exact ⟨d.first, by simp [seat]⟩
    · by_cases h : d.first.id = d.second.id
      · exact ⟨d.first, by simp [seat, h]⟩
      · exact ⟨d.second, by simp [seat, h]⟩

/-- The opponent of either player is the other one. -/
theorem opponent_eq_ok_iff {q : PlayerId} :
    d.opponent p = .ok q ↔
      d.first.id = p ∧ d.second.id = q ∨ d.first.id ≠ p ∧ d.second.id = p ∧ d.first.id = q := by
  unfold opponent
  split
  · rename_i hp
    simp [hp]
  · rename_i hp
    split
    · rename_i hq
      simp [hp, hq]
    · rename_i hq
      simp [hp, hq]

theorem opponent_eq_ok {q : PlayerId} (h : d.opponent p = .ok q) :
    p ∈ d.fixture.players ∧ q ∈ d.fixture.players := by
  simp only [Fixture.players, fixture, List.mem_cons, List.not_mem_nil, or_false]
  rcases opponent_eq_ok_iff.mp h with ⟨rfl, rfl⟩ | ⟨-, rfl, rfl⟩
  · exact ⟨.inl rfl, .inr rfl⟩
  · exact ⟨.inr rfl, .inl rfl⟩

theorem tag?_eq_some_iff {id : InstanceId} {t : CardTag} :
    d.fixture.tag? id = some t ↔ ∃ c, d.card id = .ok c ∧ c.tag = t := by
  have hid : ((fun t : CardTag => decide (t.id = id)) ∘ Card.tag) = fun c => decide (c.id = id) :=
    rfl
  simp only [Fixture.tag?, fixture, List.find?_map, hid, card, Option.map_eq_some_iff]
  cases d.cards.find? (·.id = id) with
  | none => simp
  | some c => simp

theorem tag?_eq_none {id : InstanceId} {e : LookupError} (h : d.card id = .error e) :
    d.fixture.tag? id = none := by
  rw [Option.eq_none_iff_forall_not_mem]
  intro t ht
  obtain ⟨c, hc, -⟩ := tag?_eq_some_iff.mp ht
  rw [h] at hc
  cases hc

@[simp] theorem ids_fixture (d : Duel) : d.fixture.cards.map CardTag.id = d.cards.map Card.id := by
  simp [fixture, Function.comp_def, Card.tag]

end Duel

/-! ## §3 Soundness -/

namespace Fixture

/-- The registration is one that the actions make: changes of a player go
to that player's cards, changes of a card to the cards of its owner, and
a destroy condition is one of the card's type and on the stat it names. -/
def Apt (φ : Fixture) (r : Registration) : Prop :=
  match r.bearer with
  | .player p => p ∈ φ.players ∧ r.watcher = .propagate p .player
  | .card id =>
    ∃ t, φ.tag? id = some t ∧
      (r.watcher = .propagate t.owner .card ∨
        ∃ index k, r.watcher = .destroy t.owner id index ∧ φ.condition? t index = some k ∧
          k.stat = r.stat)

theorem Apt.of_destroy {φ : Fixture} {b : Bearer} {stat : String} {player : PlayerId}
    {id : InstanceId} {index : Nat} (h : φ.Apt ⟨b, stat, .destroy player id index⟩) :
    ∃ t k, φ.tag? id = some t ∧ φ.condition? t index = some k ∧
      b = .card id ∧ stat = k.stat ∧ player = t.owner := by
  cases b with
  | player q => obtain ⟨-, hw⟩ := h; cases hw
  | card id' =>
    obtain ⟨t, ht, hw | ⟨index', k, hw, hk, hstat⟩⟩ := h
    · cases hw
    · cases hw
      exact ⟨t, k, ht, hk, rfl, hstat.symm, rfl⟩

/-- Everything that the fixture refers to exists, and the cards are
numbered from one upwards in order of creation. -/
structure Sound (φ : Fixture) : Prop where
  closed : φ.catalog.Closed
  distinct : φ.first ≠ φ.second
  current : φ.current ∈ φ.players
  numbers : φ.cards.map CardTag.id = (List.range φ.cards.length).map fun i => ⟨i + 1⟩
  next : φ.nextInstance = ⟨φ.cards.length + 1⟩
  owners : ∀ t ∈ φ.cards, t.owner ∈ φ.players
  printed : ∀ t ∈ φ.cards, ∃ spec, φ.catalog.card? t.spec = some spec ∧ spec.cardType = t.cardType
  watched : ∀ r ∈ φ.watchers.entries, φ.Apt r

variable {φ : Fixture}

theorem Sound.nodup (h : φ.Sound) : (φ.cards.map CardTag.id).Nodup := by
  rw [h.numbers]
  refine List.Nodup.map ?_ List.nodup_range
  intro i j hij
  simpa using hij

theorem tag?_id {id : InstanceId} {t : CardTag} (h : φ.tag? id = some t) :
    t ∈ φ.cards ∧ t.id = id :=
  ⟨List.mem_of_find?_eq_some h, by simpa using List.find?_some h⟩

theorem Sound.tag?_of_mem (h : φ.Sound) {t : CardTag} (ht : t ∈ φ.cards) :
    φ.tag? t.id = some t := by
  have hsome : (φ.tag? t.id).isSome := by
    rw [tag?, List.find?_isSome]
    exact ⟨t, ht, by simp⟩
  obtain ⟨t', ht'⟩ := Option.isSome_iff_exists.mp hsome
  obtain ⟨hm, hid⟩ := tag?_id ht'
  rw [ht', List.inj_on_of_nodup_map h.nodup hm ht hid]

theorem Sound.owned_nodup (h : φ.Sound) (p : PlayerId) : (φ.owned p).Nodup :=
  h.nodup.sublist (List.filter_sublist.map _)

theorem Sound.mem_owned_iff (h : φ.Sound) {p : PlayerId} {id : InstanceId} :
    id ∈ φ.owned p ↔ ∃ t, φ.tag? id = some t ∧ t.owner = p := by
  simp only [owned, List.mem_map, List.mem_filter, decide_eq_true_eq]
  constructor
  · intro h
    obtain ⟨t, ⟨ht, howner⟩, rfl⟩ := h
    exact ⟨t, h.tag?_of_mem ht, howner⟩
  · intro h
    obtain ⟨t, ht, howner⟩ := h
    exact ⟨t, ⟨(tag?_id ht).1, howner⟩, (tag?_id ht).2⟩

end Fixture

end CardDuel
