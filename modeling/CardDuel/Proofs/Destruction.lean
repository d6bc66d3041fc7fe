/-
CardDuel.Proofs.Destruction — destroy conditions are enforced.

A destroy condition that is registered for a card is overdue if the card
lies on the board and meets it. A write to a stat can make conditions on
that stat overdue, and until the watchers of the stat have been told of
the write they may remain so; meanwhile other watchers run, and whatever
they set off may write and move as it likes. The invariant keeps account
of the registrations that are pending: those on a stat that was written
and whose watchers have not had their turn. No other one is overdue.

  §1 Overdue — conditions that should have been acted on.
  §2 Updates — what they make overdue.
  §3 Chains  — the account of pending registrations is kept.
-/
import CardDuel.Proofs.Reached
import CardDuel.Proofs.Stats

namespace CardDuel

open Engine Play

/-! ## §1 Overdue -/

namespace Duel

/-- The card meets a destroy condition of its type, given by its place. -/
def Due (d : Duel) (id : InstanceId) (index : Nat) : Prop :=
  ∃ t k value, d.fixture.tag? id = some t ∧ d.fixture.condition? t index = some k ∧
    d.statValue? (.card id) k.stat = .ok (some value) ∧ k.holds value

/-- The card lies on the board of the player. -/
def OnBoard (d : Duel) (player : PlayerId) (id : InstanceId) : Prop :=
  ∃ z, d.zone player d.catalog.rules.board = .ok z ∧ id ∈ z.cards

instance (d : Duel) (player : PlayerId) (id : InstanceId) : Decidable (d.OnBoard player id) :=
  match h : d.zone player d.catalog.rules.board with
  | .ok z =>
    decidable_of_iff (id ∈ z.cards)
      ⟨fun hid => ⟨z, h, hid⟩, fun ⟨_, hz, hid⟩ => by cases h.symm.trans hz; exact hid⟩
  | .error _ => isFalse fun ⟨_, hz, _⟩ => nomatch h.symm.trans hz

/-- The watcher is to destroy a card that lies on the board and meets the
condition. -/
def Overdue (d : Duel) : Watcher → Prop
  | .propagate _ _ => False
  | .destroy player id index => d.Due id index ∧ d.OnBoard player id

/-- No registration is overdue but those that are pending. -/
def Settled (pending : Registration → Prop) (d : Duel) : Prop :=
  ∀ r ∈ d.watchers.entries, ¬ pending r → ¬ d.Overdue r.watcher

/-- A destroy condition is registered for the card, and the card meets it. -/
def Threatened (d : Duel) (id : InstanceId) : Prop :=
  ∃ r ∈ d.watchers.entries, ∃ player index, r.watcher = .destroy player id index ∧ d.Due id index

/-! ## §2 Updates -/

variable {d d' : Duel} {p q : PlayerId} {id : InstanceId} {index : Nat}
variable {pending : Registration → Prop}

theorem due_congr (hφ : d'.fixture = d.fixture)
    (hs : ∀ name, d'.statValue? (.card id) name = d.statValue? (.card id) name) :
    d'.Due id index ↔ d.Due id index := by
  simp only [Due, hφ, hs]

theorem threatened_congr (hφ : d'.fixture = d.fixture)
    (hs : ∀ name, d'.statValue? (.card id) name = d.statValue? (.card id) name) :
    d'.Threatened id ↔ d.Threatened id := by
  have hwatchers : d'.watchers = d.watchers := congrArg Fixture.watchers hφ
  simp only [Threatened, due_congr hφ hs, hwatchers]

@[simp] theorem catalog_transfer (card : InstanceId) (origin destination : ZoneId) :
    (d.transfer p card origin destination).catalog = d.catalog := by
  simp [transfer, modifyZone]

/-- What lies on the board after a change of a zone lay there before, or
the change has put it there. -/
theorem onBoard_of_modifyZone {f : Zone → Zone} {place : ZoneId} (hf : ∀ z, (f z).spec = z.spec)
    (h : (d.modifyZone p place f).OnBoard q id) :
    d.OnBoard q id ∨ (place = d.catalog.rules.board ∧ ∃ z, id ∈ (f z).cards ∧ id ∉ z.cards) := by
  obtain ⟨z, hz, hid⟩ := h
  have hcatalog : (d.modifyZone p place f).catalog = d.catalog := by simp [modifyZone]
  rw [hcatalog, zone_modifyZone hf] at hz
  split at hz
  · rename_i heq
    obtain ⟨rfl, rfl⟩ := heq
    cases ho : d.zone q d.catalog.rules.board with
    | error e => rw [ho] at hz; cases hz
    | ok z₀ =>
      rw [ho] at hz
      cases hz
      by_cases hold : id ∈ z₀.cards
      · exact .inl ⟨z₀, ho, hold⟩
      · exact .inr ⟨rfl, z₀, hid, hold⟩
  · exact .inl ⟨z, hz, hid⟩

theorem onBoard_of_push {card : InstanceId} {place : ZoneId}
    (h : (d.modifyZone p place (·.push card)).OnBoard q id) :
    d.OnBoard q id ∨ (place = d.catalog.rules.board ∧ id = card) := by
  refine (onBoard_of_modifyZone (f := (·.push card)) (fun _ => rfl) h).imp_right ?_
  intro h
  obtain ⟨hplace, z, hnew, hold⟩ := h
  refine ⟨hplace, List.mem_singleton.mp ?_⟩
  exact (List.mem_append.mp hnew).resolve_left hold

theorem onBoard_of_shrink {f : Zone → Zone} {place : ZoneId} (hf : ∀ z, (f z).spec = z.spec)
    (hcards : ∀ z, (f z).cards ⊆ z.cards) (h : (d.modifyZone p place f).OnBoard q id) :
    d.OnBoard q id := by
  rcases onBoard_of_modifyZone hf h with h | ⟨-, z, hnew, hold⟩
  · exact h
  · exact absurd (hcards z hnew) hold

/-- Taking cards out of one zone and putting one card into another puts at
most that card on the board. -/
theorem onBoard_of_relay {take : Zone → Zone} {card : InstanceId} {origin destination : ZoneId}
    (htake : ∀ z, (take z).spec = z.spec) (hcards : ∀ z, (take z).cards ⊆ z.cards)
    (h : ((d.modifyZone p origin take).modifyZone p destination (·.push card)).OnBoard q id) :
    d.OnBoard q id ∨ (destination = d.catalog.rules.board ∧ id = card) := by
  have hcatalog : (d.modifyZone p origin take).catalog = d.catalog := by simp [modifyZone]
  have hpush := onBoard_of_push h
  rw [hcatalog] at hpush
  exact hpush.imp_left (onBoard_of_shrink htake hcards)

theorem onBoard_of_transfer {card : InstanceId} {origin destination : ZoneId}
    (h : (d.transfer p card origin destination).OnBoard q id) :
    d.OnBoard q id ∨ (destination = d.catalog.rules.board ∧ id = card) :=
  onBoard_of_relay (fun _ => rfl : ∀ z : Zone, (z.remove card).spec = z.spec) (fun _ => List.erase_subset) h

theorem onBoard_of_drawn {card : InstanceId} (h : (d.drawn p card).OnBoard q id) :
    d.OnBoard q id ∨ (d.catalog.rules.hand = d.catalog.rules.board ∧ id = card) :=
  onBoard_of_relay (fun _ => rfl : ∀ z : Zone, z.dropTop.spec = z.spec) (fun _ => List.dropLast_subset _) h

/-- A card that is taken off the board does not lie there afterwards. -/
theorem not_onBoard_of_transfer {destination : ZoneId} {z : Zone}
    (hne : destination ≠ d.catalog.rules.board) (hz : d.zone p d.catalog.rules.board = .ok z)
    (hnodup : z.cards.Nodup) :
    ¬ (d.transfer p id d.catalog.rules.board destination).OnBoard p id := by
  intro h
  obtain ⟨z', hz', hid⟩ := h
  rw [catalog_transfer, zone_transfer, if_pos rfl, if_neg hne.symm, if_pos rfl, hz] at hz'
  cases hz'
  exact hnodup.not_mem_erase hid

/-- Moves of cards make nothing overdue if none brings onto the board a
card that is threatened. -/
theorem Settled.of_moved (h : d.Settled pending) (hfix : d'.fixture = d.fixture)
    (hstats : ∀ id name, d'.statValue? (.card id) name = d.statValue? (.card id) name)
    (hboard : ∀ q id, d'.OnBoard q id → d.OnBoard q id ∨ ¬ d.Threatened id) :
    d'.Settled pending := by
  have hwatchers : d'.watchers = d.watchers := congrArg Fixture.watchers hfix
  intro r hr hp hover
  obtain ⟨b, stat, w⟩ := r
  rw [hwatchers] at hr
  cases w with
  | propagate => exact hover
  | destroy player id index =>
    have hdue : d.Due id index := (due_congr hfix fun name => hstats id name).mp hover.1
    rcases hboard player id hover.2 with hon | hsafe
    · exact h _ hr hp ⟨hdue, hon⟩
    · exact hsafe ⟨_, hr, player, index, rfl, hdue⟩

theorem Settled.transfer {card : InstanceId} {origin destination : ZoneId}
    (h : d.Settled pending)
    (hsafe : destination = d.catalog.rules.board → ¬ d.Threatened card) :
    (d.transfer p card origin destination).Settled pending := by
  refine h.of_moved (fixture_transfer ..) (fun id name => by simp [statValue?]) fun q id hon => ?_
  rcases onBoard_of_transfer hon with hon | ⟨heq, rfl⟩
  · exact .inl hon
  · exact .inr (hsafe heq)

/-- After a write to a block of stats, what has become overdue is a
registration on a stat that the write has touched. -/
theorem Settled.putStats {b : Bearer} {block block' : StatBlock} {touched : String → Prop}
    (h : d.Settled pending) (hφ : d.fixture.Sound) (hb : d.stats b = .ok block)
    (hsame : ∀ name, ¬ touched name → block'.value? name = block.value? name) :
    (d.putStats b block').Settled fun r => pending r ∨ (r.bearer = b ∧ touched r.stat) := by
  have hfix : (d.putStats b block').fixture = d.fixture := fixture_putStats b block'
  have hwatchers : (d.putStats b block').watchers = d.watchers := congrArg Fixture.watchers hfix
  intro r hr hp hover
  rw [hwatchers] at hr
  refine h r hr (fun hpending => hp (.inl hpending)) ?_
  have hapt := hφ.watched r hr
  obtain ⟨bearer, stat, w⟩ := r
  cases w with
  | propagate => exact hover
  | destroy player id index =>
    obtain ⟨⟨t, k, value, ht, hk, hvalue, hholds⟩, z, hz, hid⟩ := hover
    rw [hfix] at ht hk
    -- The condition is on the stat of the registration, and that one is untouched.
    obtain ⟨t', k', ht', hk', rfl, rfl, -⟩ := hapt.of_destroy
    cases ht.symm.trans ht'
    cases hk.symm.trans hk'
    have hkept : (d.putStats b block').statValue? (.card id) k.stat =
        d.statValue? (.card id) k.stat := by
      rw [statValue?, statValue?, stats_putStats hb]
      by_cases heq : Bearer.card id = b
      · subst heq
        rw [if_pos rfl, hb]
        exact hsame k.stat fun htouched => hp (.inr ⟨rfl, htouched⟩)
      · rw [if_neg heq]
    have hcatalog : (d.putStats b block').catalog = d.catalog := congrArg Fixture.catalog hfix
    rw [hcatalog, zone_putStats] at hz
    exact ⟨⟨t, k, value, ht, hk, hkept ▸ hvalue, hholds⟩, z, hz, hid⟩

end Duel

/-! ## §3 Chains -/

/-- A write to a stat makes the registrations on it pending. -/
def pend (b : Bearer) (stat : String) (_ : StatChange) (pending : Registration → Prop) :
    Registration → Prop :=
  fun r => pending r ∨ (r.bearer = b ∧ r.stat = stat)

theorem owedAll_pend {b : Bearer} {pending : Registration → Prop} {r : Registration} :
    ∀ {changes : List (String × StatChange)},
      owedAll pend b changes pending r ↔
        pending r ∨ (r.bearer = b ∧ ∃ change, (r.stat, change) ∈ changes)
  | [] => by simp [owedAll]
  | (name, change) :: rest => by
    simp only [owedAll, pend, @owedAll_pend b pending r rest, List.mem_cons, Prod.mk.injEq]
    constructor
    · intro h
      rcases h with (hp | ⟨hb, c, hc⟩) | ⟨hb, hn⟩
      · exact .inl hp
      · exact .inr ⟨hb, c, .inr hc⟩
      · exact .inr ⟨hb, change, .inl ⟨hn, rfl⟩⟩
    · intro h
      rcases h with hp | ⟨hb, c, ⟨hn, -⟩ | hc⟩
      · exact .inl (.inl hp)
      · exact .inr ⟨hb, hn⟩
      · exact .inl (.inr ⟨hb, c, hc⟩)

/-- Every ending without a value. -/
def Exits.all : Exits := ⟨fun _ _ => True, fun _ => True⟩

variable {φ : Fixture}

/-- The account of pending registrations, as a family of assertions. -/
def settling (pending : Registration → Prop) (s : Scene) : Prop := s.duel.Settled pending

theorem transfers_settling (hφ : φ.Sound) (hboard : ¬ φ.catalog.Sends φ.catalog.rules.board) :
    Transfers φ .all settling where
  sound := hφ
  transfer hs _ _ hsends := by
    refine Duel.Settled.transfer hs.holds fun heq => absurd hsends ?_
    rw [heq, hs.catalog]
    exact hboard
  read _ _ := trivial

/-- Telling the watchers of a stat settles the registrations on it: each
of them is pending until its watcher has had its turn. -/
theorem notify_settles {fire : Dispatch} {b : Bearer} {stat : String} {change : StatChange}
    {pending : Registration → Prop} {s : Scene} (hφ : φ.Sound)
    (hboard : ¬ φ.catalog.Sends φ.catalog.rules.board) (hfire : Keeps φ .all settling fire)
    (hs : Standing φ (settling (pend b stat change pending)) s) :
    wp .all (notify fire b stat change) (fun _ => Standing φ (settling pending)) s := by
  have T := transfers_settling hφ hboard
  have hwatchers {s : Scene} {I : Scene → Prop} (hs : Standing φ I s) :
      s.duel.watchers = φ.watchers := congrArg Fixture.watchers hs.fixture
  simp only [notify, wp_bind, wp_note, wp_duel]
  refine wp_mono (wp_forM (I := fun rest => Standing φ (settling fun r =>
    pending r ∨ (r.bearer = b ∧ r.stat = stat ∧ r.watcher ∈ rest))) ?_ ?_) ?_
  · intro w hw rest s₁ hs₁
    have hmem : ⟨b, stat, w⟩ ∈ φ.watchers.entries := hwatchers hs ▸ WatchTable.mem_on.mp hw
    -- What is not pending any more is the watcher whose turn it is.
    have hrest {d : Duel} (hd : d.watchers = φ.watchers) (hw : ¬ d.Overdue w)
        (h : d.Settled fun r =>
          pending r ∨ (r.bearer = b ∧ r.stat = stat ∧ r.watcher ∈ w :: rest)) :
        d.Settled fun r => pending r ∨ (r.bearer = b ∧ r.stat = stat ∧ r.watcher ∈ rest) := by
      intro r hr hp hover
      by_cases heq : r.watcher = w
      · exact hw (heq ▸ hover)
      · refine h r hr (fun hp' => hp ?_) hover
        rcases hp' with hp' | ⟨hrb, hrs, hrw⟩
        · exact .inl hp'
        · rcases List.mem_cons.mp hrw with hrw | hrw
          · exact absurd hrw heq
          · exact .inr ⟨hrb, hrs, hrw⟩
    have hapt : φ.Apt ⟨b, stat, w⟩ := hφ.watched _ hmem
    cases w with
    | propagate player subject =>
      exact T.moves.wp_runWatcher hfire
        ⟨hs₁.fixture, hs₁.laid, hrest (hwatchers hs₁) (fun h => h) hs₁.holds⟩ hapt
    | destroy player id index =>
      obtain ⟨t, k, ht, -, -, -, rfl⟩ := hapt.of_destroy
      refine T.moves.wp_checkDestroy hs₁ ht (fun hidle => ?_) fun z hz hcard => ?_
      · refine hrest (hwatchers hs₁) ?_ hs₁.holds
        intro h
        obtain ⟨⟨t', k, value, ht', hk, hvalue, hholds⟩, z, hz, hid⟩ := h
        rw [hs₁.fixture] at ht' hk
        rw [hs₁.catalog] at hz
        cases ht.symm.trans ht'
        exact hidle k value z hk hvalue hholds hz hid
      · refine T.wp_move hfire hs₁ hz hcard hφ.closed.graveyard ?_
        have hne : φ.catalog.rules.graveyard ≠ s₁.duel.catalog.rules.board := by
          rw [hs₁.catalog]
          exact fun heq => hboard (.inl heq.symm)
        have hsafe : φ.catalog.rules.graveyard = s₁.duel.catalog.rules.board →
            ¬ s₁.duel.Threatened id := fun heq => absurd heq hne
        rw [← hs₁.catalog] at hz hne hsafe ⊢
        refine hrest ?_ (fun hover => ?_) (Duel.Settled.transfer hs₁.holds hsafe)
        · exact (congrArg Fixture.watchers (Duel.fixture_transfer ..)).trans (hwatchers hs₁)
        · refine Duel.not_onBoard_of_transfer hne hz ?_ hover.2
          exact hs₁.laid.nodup_zone (hs₁.fixture ▸ hφ) hz
  · refine ⟨hs.fixture, hs.laid, fun r hr hp => hs.holds r hr fun hp' => hp ?_⟩
    rcases hp' with hp' | ⟨hrb, hrs⟩
    · exact .inl hp'
    · refine .inr ⟨hrb, hrs, WatchTable.mem_on.mpr ?_⟩
      subst hrb hrs
      exact hr
  · intro _ s₁ hs₁
    refine ⟨hs₁.fixture, hs₁.laid, fun r hr hp => hs₁.holds r hr ?_⟩
    intro h
    rcases h with hp' | ⟨-, -, hrw⟩
    · exact hp hp'
    · cases hrw

theorem upkeep_settling (hφ : φ.Sound) (hboard : ¬ φ.catalog.Sends φ.catalog.rules.board)
    (limit : Nat) : Upkeep φ .all settling limit pend :=
  { (transfers_settling hφ hboard).moves with
    draw := fun hs _ => hs.holds
    write := fun {i s b name block stat} adjustment amount turns hs hb hblock hstat => by
      split
      · rename_i change stat' hwrite
        have halike := Adjustment.alike_of_apply hwrite
        have hsame (name' : String) (hne : ¬ name' = name) :
            (block.put name stat').value? name' = block.value? name' :=
          StatBlock.value?_put_of_ne hstat halike.name hne
        exact Duel.Settled.putStats hs.holds (hs.fixture ▸ hφ) hblock hsame
      · trivial
    swap := fun {i s b name change b' name' change'} h r hr hp =>
      h r hr fun hp' => hp <| by
        rcases hp' with (hp' | hp') | hp'
        · exact .inl (.inl hp')
        · exact .inr hp'
        · exact .inl (.inr hp')
    notify := fun hfire _ hs => notify_settles hφ hboard hfire hs
    enter := fun _ _ hs _ => hs.holds
    leave := fun hs => hs.holds
    leave_refused := fun _ => trivial
    stop := fun _ _ _ => trivial
    rounds := trivial }

theorem ages_settling (hφ : φ.Sound) : Ages φ .all settling pend := by
  intro pending s b block hs hb hblock
  split
  · rename_i changes block' htick
    have hsame (name : String) (hname : ¬ ∃ change, (name, change) ∈ changes) :
        block'.value? name = block.value? name :=
      StatBlock.value?_tick htick fun change hc => hname ⟨change, hc⟩
    intro r hr hp
    have hsettled := Duel.Settled.putStats hs.holds (hs.fixture ▸ hφ) hblock hsame
    exact hsettled r hr fun hp' => hp (owedAll_pend.mpr hp')
  · trivial

end CardDuel
