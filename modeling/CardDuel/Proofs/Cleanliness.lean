/-
CardDuel.Proofs.Cleanliness — no card outlives its destroy conditions.

A duel is clean if no card for which the destroy conditions were
registered lies on the board and meets one. An action that is done leaves
a clean duel clean, but for the actions that a check cannot answer for:
registering a card that already meets a condition, and putting such a
card on the board by a move of the caller's or by a draw, since watchers
are told of writes and not of moves.

  §1 Registrations — the log says which conditions are registered.
  §2 Cleanliness   — and cleanliness is what the watchers see to.
  §3 Actions       — every action, one by one.
  §4 Runs          — clean duels stay clean.
-/
import CardDuel.Catalog.Starter
import CardDuel.Proofs.Destruction

namespace CardDuel

open Engine Play

/-! ## §1 Registrations -/

namespace Fixture

variable {φ φ' : Fixture} {log : List Action}

/-- The destroy conditions in the table are those of the cards in the
log. -/
structure Logged (φ : Fixture) (log : List Action) : Prop where
  known : ∀ id, .watchDestroy id ∈ log → (φ.tag? id).isSome
  entry_iff : ∀ id t index k, φ.tag? id = some t → φ.condition? t index = some k →
    (⟨.card id, k.stat, .destroy t.owner id index⟩ ∈ φ.watchers.entries ↔ .watchDestroy id ∈ log)

theorem Logged.cons {a : Action} (h : φ.Logged log) (ha : ∀ id, a ≠ .watchDestroy id) :
    φ.Logged (a :: log) := by
  have hmem (id : InstanceId) : .watchDestroy id ∈ a :: log ↔ .watchDestroy id ∈ log := by
    simp [(ha id).symm]
  exact ⟨fun id hid => h.known id ((hmem id).mp hid),
    fun id t index k ht hk => (h.entry_iff id t index k ht hk).trans (hmem id).symm⟩

/-- Registrations that are not for destroy conditions do not count. -/
theorem Logged.registers {new : Registration → Prop} (h : φ.Logged log)
    (hreg : φ.Registers φ' new)
    (hnew : ∀ r, new r → ∀ player id index, r.watcher ≠ .destroy player id index) :
    φ'.Logged log := by
  obtain ⟨table, rfl, htable⟩ := hreg
  refine ⟨h.known, fun id t index k ht hk => ?_⟩
  rw [← h.entry_iff id t index k ht hk]
  refine (htable _).trans (or_iff_left fun hr => ?_)
  exact hnew _ hr t.owner id index rfl

theorem Logged.follows {a : Action} (h : φ.Logged log) (hφ : φ.Sound) (hf : φ.Follows a φ') :
    φ'.Logged (a :: log) := by
  cases a with
  | setCurrent player =>
    obtain ⟨-, rfl⟩ := hf
    exact Logged.cons ⟨h.known, h.entry_iff⟩ (by simp)
  | create owner card place =>
    obtain ⟨spec, -, -, rfl⟩ := hf
    refine Logged.cons ⟨fun id hid => ?_, fun id t index k ht hk => ?_⟩ (by simp)
    · obtain ⟨t, ht⟩ := Option.isSome_iff_exists.mp (h.known id hid)
      rw [tag?_extend ht]
      rfl
    · cases hold : φ.tag? id with
      | some t' =>
        cases (tag?_extend hold).symm.trans ht
        exact h.entry_iff id t index k hold hk
      | none =>
        -- The new card is in the table no more than it is in the log.
        refine iff_of_false (fun hr => ?_) fun hid => ?_
        · obtain ⟨t', ht', -⟩ := hφ.watched _ hr
          rw [hold] at ht'
          cases ht'
        · have hknown := h.known id hid
          rw [hold] at hknown
          cases hknown
  | watchPlayer player =>
    obtain ⟨stats, -, hreg⟩ := hf
    refine (h.registers hreg ?_).cons (by simp)
    intro r hr _ _ _ hw
    obtain ⟨stat, -, rfl⟩ := hr
    cases hw
  | watchCard card =>
    obtain ⟨stats, t, -, hreg⟩ := hf
    refine (h.registers hreg ?_).cons (by simp)
    intro r hr _ _ _ hw
    obtain ⟨stat, -, rfl⟩ := hr
    cases hw
  | watchDestroy card =>
    obtain ⟨t₀, ht₀, table, rfl, htable⟩ := hf
    refine ⟨fun id hid => ?_, fun id t index k ht hk => ?_⟩
    · rcases List.mem_cons.mp hid with heq | hid
      · cases heq
        show (φ.tag? card).isSome
        simp [ht₀]
      · exact h.known id hid
    · have ht : φ.tag? id = some t := ht
      have hk : φ.condition? t index = some k := hk
      refine (htable _).trans ?_
      rw [h.entry_iff id t index k ht hk, List.mem_cons]
      constructor
      · intro h
        rcases h with hid | ⟨index', k', -, heq⟩
        · exact .inr hid
        · have hbearer := congrArg Registration.bearer heq
          cases hbearer
          exact .inl rfl
      · intro h
        rcases h with heq | hid
        · cases heq
          cases ht₀.symm.trans ht
          exact .inr ⟨index, k, hk, rfl⟩
        · exact .inl hid
  | _ => cases hf; exact h.cons (by simp)

end Fixture

namespace Duel

variable {d d' : Duel}

theorem watchers_of_start {catalog : Catalog} {seed : UInt64} {first second : Entrant}
    (h : start catalog seed first second = .ok d) : d.watchers = WatchTable.empty :=
  fixture_of_start Fixture.watchers (fun _ _ => rfl) h

end Duel

/-- The log of a run says which destroy conditions are registered. -/
theorem Reached.logged {log : List Action} {d : Duel} (h : Reached log d) :
    d.fixture.Logged log := by
  induction h with
  | start h =>
    have hwatchers := Duel.watchers_of_start h
    refine ⟨fun id hid => (List.not_mem_nil hid).elim, fun id t index k _ _ => ?_⟩
    refine iff_of_false (fun hr => ?_) List.not_mem_nil
    rw [Duel.fixture, hwatchers] at hr
    exact List.not_mem_nil hr
  | done before h ih => exact ih.follows before.sound.fixture (before.sound.perform_done h).2
  | refused before h ih => exact (before.sound.sound_of_refused h).2 ▸ ih

/-! ## §2 Cleanliness -/

namespace Duel

/-- The card meets a destroy condition of its type. -/
def Doomed (d : Duel) (c : Card) : Prop :=
  ∃ t k value, d.catalog.cardType? c.cardType = some t ∧ k ∈ t.destroyConditions ∧
    c.stats.value? k.stat = .ok (some value) ∧ k.holds value

instance (d : Duel) (c : Card) : Decidable (d.Doomed c) :=
  decidable_of_iff (∃ t ∈ d.catalog.cardType? c.cardType, ∃ k ∈ t.destroyConditions,
      ∃ value ∈ (c.stats.value? k.stat).toOption.join, k.holds value) <| by
    have hvalue (name : String) (value : Points) :
        value ∈ (c.stats.value? name).toOption.join ↔ c.stats.value? name = .ok (some value) := by
      cases c.stats.value? name <;> simp [Except.toOption]
    simp only [hvalue]
    constructor
    · intro h
      obtain ⟨t, ht, k, hk, value, hv, hholds⟩ := h
      exact ⟨t, k, value, ht, hk, hv, hholds⟩
    · intro h
      obtain ⟨t, k, value, ht, hk, hv, hholds⟩ := h
      exact ⟨t, ht, k, hk, value, hv, hholds⟩

/-- No card on its owner's board, of those whose destroy conditions were
registered, meets one of them. -/
def Clean (log : List Action) (d : Duel) : Prop :=
  ∀ c ∈ d.cards, .watchDestroy c.id ∈ log → d.OnBoard c.owner c.id → ¬ d.Doomed c

variable {d : Duel} {c : Card} {log : List Action}

theorem doomed_iff (hc : d.card c.id = .ok c) : d.Doomed c ↔ ∃ index, d.Due c.id index := by
  have ht : d.fixture.tag? c.id = some c.tag := tag?_eq_some_iff.mpr ⟨c, hc, rfl⟩
  have hvalue (name : String) : d.statValue? (.card c.id) name = c.stats.value? name := by
    simp [statValue?, stats, hc, Except.map]
  constructor
  · intro h
    obtain ⟨t, k, value, hcardType, hk, hv, hholds⟩ := h
    obtain ⟨index, hindex⟩ := List.mem_iff_getElem?.mp hk
    refine ⟨index, c.tag, k, value, ht, ?_, (hvalue _).trans hv, hholds⟩
    show (d.catalog.cardType? c.cardType).bind (·.destroyConditions[index]?) = some k
    rw [hcardType]
    exact hindex
  · intro h
    obtain ⟨index, t, k, value, ht', hk, hv, hholds⟩ := h
    cases ht.symm.trans ht'
    obtain ⟨t, hcardType, hindex⟩ := Option.bind_eq_some_iff.mp hk
    exact ⟨t, k, value, hcardType, List.mem_of_getElem? hindex, (hvalue _).symm.trans hv, hholds⟩

/-- A duel is clean if and only if no registration is overdue. -/
theorem Sound.clean_iff (hd : d.Sound) (hlog : d.fixture.Logged log) :
    d.Clean log ↔ d.Settled fun _ => False := by
  constructor
  · intro hclean r hr _ hover
    obtain ⟨b, stat, w⟩ := r
    cases w with
    | propagate => exact hover
    | destroy player id index =>
      obtain ⟨hdue, hboard⟩ := hover
      obtain ⟨t, k, ht, hk, rfl, rfl, rfl⟩ := (hd.fixture.watched _ hr).of_destroy
      have hid := (hlog.entry_iff id t index k ht hk).mp hr
      obtain ⟨c, hc, rfl⟩ := tag?_eq_some_iff.mp ht
      obtain ⟨hmem, rfl⟩ := card_eq_ok hc
      exact hclean c hmem hid hboard ((doomed_iff hc).mpr ⟨index, hdue⟩)
  · intro hsettled c hc hid hboard hdoomed
    have hcard := hd.card_of_mem hc
    obtain ⟨index, hdue⟩ := (doomed_iff hcard).mp hdoomed
    have ⟨t, k, value, ht, hk, _⟩ := hdue
    cases (tag?_eq_some_iff.mpr ⟨c, hcard, rfl⟩).symm.trans ht
    have hentry := (hlog.entry_iff c.id c.tag index k ht hk).mpr hid
    exact hsettled _ hentry (fun h => h) ⟨hdue, hboard⟩

/-! ## §3 Actions -/

/-- The action is one that no check answers for: it registers a card that
already meets a condition, or it puts on the board a registered card that
already meets one. -/
def Exempt (log : List Action) (d : Duel) : Action → Prop
  | .watchDestroy id => ∃ c, d.card id = .ok c ∧ d.Doomed c
  | .move _ id _ destination _ =>
    destination = d.catalog.rules.board ∧ .watchDestroy id ∈ log ∧
      ∃ c, d.card id = .ok c ∧ d.Doomed c
  | .draw player count =>
    d.catalog.rules.hand = d.catalog.rules.board ∧
      ∃ z, d.zone player d.catalog.rules.deck = .ok z ∧
        ∃ id ∈ z.cards.reverse.take count, .watchDestroy id ∈ log ∧
          ∃ c, d.card id = .ok c ∧ d.Doomed c
  | _ => False

theorem Sound.of_threatened {id : InstanceId} (hd : d.Sound) (hlog : d.fixture.Logged log)
    (h : d.Threatened id) : .watchDestroy id ∈ log ∧ ∃ c, d.card id = .ok c ∧ d.Doomed c := by
  obtain ⟨⟨b, stat, w⟩, hr, player, index, rfl, hdue⟩ := h
  obtain ⟨t, k, ht, hk, rfl, rfl, rfl⟩ := (hd.fixture.watched _ hr).of_destroy
  obtain ⟨c, hc, rfl⟩ := tag?_eq_some_iff.mp ht
  obtain ⟨-, rfl⟩ := card_eq_ok hc
  exact ⟨(hlog.entry_iff _ _ index k ht hk).mp hr, c, hc, (doomed_iff hc).mpr ⟨index, hdue⟩⟩

variable {limit rounds level : Nat} {journal : List Event} {player p q : PlayerId}
variable {id : InstanceId}

@[simp] theorem statValue?_drawn {card : InstanceId} (b : Bearer) (name : String) :
    (d.drawn p card).statValue? b name = d.statValue? b name := by
  simp [statValue?, drawn]

@[simp] theorem fixture_drawn {card : InstanceId} : (d.drawn p card).fixture = d.fixture := by
  simp [drawn]

/-- After a draw the deck is without the card, unless the hand is the deck. -/
theorem cards_deck_drawn {card : InstanceId} {z z' : Zone}
    (hz : d.zone p d.catalog.rules.deck = .ok z) (htop : z.top? = some card)
    (hz' : (d.drawn p card).zone p d.catalog.rules.deck = .ok z') :
    z'.cards = z.cards.dropLast ∨ z'.cards = z.cards := by
  rw [drawn, zone_modifyZone (f := (·.push card)) fun _ => rfl] at hz'
  have hdrop : (d.modifyZone p d.catalog.rules.deck (·.dropTop)).zone p d.catalog.rules.deck =
      .ok z.dropTop := by
    rw [zone_modifyZone (f := (·.dropTop)) fun _ => rfl, if_pos ⟨rfl, rfl⟩, hz]
    rfl
  split at hz'
  · rename_i heq
    rw [← heq.2, hdrop] at hz'
    cases hz'
    exact .inr (List.dropLast_append_getLast? card htop)
  · rw [hdrop] at hz'
    cases hz'
    exact .inl rfl

/-- Draws leave a settled duel settled, if no card that is drawn onto the
board is threatened. -/
theorem settled_drawCards {φ : Fixture} {count : Nat} {s : Scene} (hφ : φ.Sound)
    (hs : Standing φ (settling fun _ => False) s)
    (hsafe : φ.catalog.rules.hand = φ.catalog.rules.board → ∀ z,
      s.duel.zone player φ.catalog.rules.deck = .ok z →
        ∀ id ∈ z.cards.reverse.take count, ¬ s.duel.Threatened id) :
    wp .all (drawCards player count) (fun _ => Standing φ (settling fun _ => False)) s := by
  refine wp_mono (wp_drawCards (I := fun n s => s.duel.Settled (fun _ => False) ∧
    (φ.catalog.rules.hand = φ.catalog.rules.board → ∀ z,
      s.duel.zone player φ.catalog.rules.deck = .ok z →
        ∀ id ∈ z.cards.reverse.take n, ¬ s.duel.Threatened id)) player count hφ
    ⟨fun _ => trivial, fun _ _ _ => trivial⟩ (fun _ => trivial) ?_ ⟨hs.fixture, hs.laid, hs.holds, hsafe⟩)
    fun _ s' ⟨_, hs'⟩ => ⟨hs'.fixture, hs'.laid, hs'.holds.1⟩
  intro n s z card hs hz htop
  obtain ⟨hsettled, hsafe⟩ := hs.holds
  have hcards : z.cards.reverse = card :: z.cards.dropLast.reverse := by
    have h : z.cards.dropLast ++ [card] = z.cards := List.dropLast_append_getLast? card htop
    calc z.cards.reverse = (z.cards.dropLast ++ [card]).reverse := by rw [h]
      _ = card :: z.cards.dropLast.reverse := by simp
  have hstats (id : InstanceId) (name : String) :
      (s.duel.drawn player card).statValue? (.card id) name = s.duel.statValue? (.card id) name :=
    statValue?_drawn ..
  refine ⟨hsettled.of_moved fixture_drawn hstats fun q id hon => ?_, fun hboard z' hz' id hid => ?_⟩
  · rcases onBoard_of_drawn hon with hon | ⟨hboard, rfl⟩
    · exact .inl hon
    · rw [hs.catalog] at hboard
      refine .inr (hsafe hboard z hz id ?_)
      rw [hcards]
      exact List.mem_cons_self
  · rw [threatened_congr fixture_drawn fun name => hstats id name]
    refine hsafe hboard z hz id ?_
    -- What is drawn next was next before, or the card has come back on top.
    rw [← hs.catalog] at hz hz'
    rcases cards_deck_drawn hz htop hz' with heq | heq
    · rw [heq] at hid
      rw [hcards, List.take_succ_cons]
      exact List.mem_cons_of_mem card hid
    · rw [heq] at hid
      exact List.take_subset_take_left _ (Nat.le_succ n) hid

theorem Sound.tag?_nextInstance (hd : d.Sound) : d.fixture.tag? d.nextInstance = none := by
  rw [Fixture.tag?, List.find?_eq_none]
  intro t ht
  have hid : t.id ∈ d.fixture.cards.map CardTag.id := List.mem_map_of_mem ht
  rw [hd.fixture.numbers, List.mem_map] at hid
  obtain ⟨i, hi, hid⟩ := hid
  have hnext : d.nextInstance = ⟨d.fixture.cards.length + 1⟩ := hd.fixture.next
  rw [hnext, ← hid]
  have hlt := List.mem_range.mp hi
  simp
  omega

/-- A new card is not registered, and the others are as they were. -/
theorem Settled.create {d' : Duel} {owner : PlayerId} {card : CardId} {place : ZoneId}
    {new : InstanceId} (h : d.Settled fun _ => False) (hd : d.Sound)
    (hcreate : d.create owner card place = .ok (new, d')) : d'.Settled fun _ => False := by
  obtain ⟨_, _, _, hfix⟩ := fixture_create hcreate
  have hwatchers : d'.watchers = d.watchers := congrArg Fixture.watchers hfix
  obtain ⟨spec, t₀, z₀, -, -, -, -, rfl⟩ := create_eq_ok hcreate
  intro r hr _ hover
  obtain ⟨b, stat, w⟩ := r
  have hr : (⟨b, stat, w⟩ : Registration) ∈ d.watchers.entries := hwatchers ▸ hr
  cases w with
  | propagate => exact hover
  | destroy player id index =>
    obtain ⟨t, k, ht, hk, rfl, rfl, rfl⟩ := (hd.fixture.watched _ hr).of_destroy
    obtain ⟨⟨t', k', value, ht', hk', hvalue, hholds⟩, z, hz, hid⟩ := hover
    rw [hfix] at ht' hk'
    cases (Fixture.tag?_extend ht).symm.trans ht'
    have hk' : d.fixture.condition? t index = some k' := hk'
    refine h _ hr (fun h => h) ⟨⟨t, k', value, ht, hk', ?_, hholds⟩, ?_⟩
    · obtain ⟨c, hc, -⟩ := tag?_eq_some_iff.mp ht
      have hc' := card_enroll (c := .ofSpec d.nextInstance spec t₀ owner) hc
      simpa [statValue?, stats, modifyZone, hc, hc', Except.map] using hvalue
    · rcases onBoard_of_push ⟨z, hz, hid⟩ with hon | ⟨-, rfl⟩
      · exact hon
      · rw [hd.tag?_nextInstance] at ht
        cases ht

/-- Registrations keep a duel settled if none of them is overdue. -/
theorem Settled.registers {d' : Duel} {new : Registration → Prop} (h : d.Settled fun _ => False)
    (hreg : d.Registers d' new) (hnew : ∀ r, new r → ¬ d.Overdue r.watcher) :
    d'.Settled fun _ => False := by
  obtain ⟨table, rfl, htable⟩ := hreg
  intro r hr hp hover
  obtain ⟨b, stat, w⟩ := r
  have hover : d.Overdue w := by
    cases w with
    | propagate => exact hover
    | destroy player id index => exact hover
  rcases (htable _).mp hr with hr | hr
  · exact h _ hr hp hover
  · exact hnew _ hr hover

/-- **Every action but the exempt keeps a duel settled.** -/
theorem Sound.settled_run (hd : d.Sound) (hlog : d.fixture.Logged log)
    (hboard : ¬ d.catalog.Sends d.catalog.rules.board) (hs : d.Settled fun _ => False)
    {a : Action} (ha : ¬ d.Exempt log a) :
    wp .all (a.run (dispatch limit rounds)) (fun _ s => s.duel.Settled fun _ => False)
      ⟨d, journal, level⟩ := by
  have U := upkeep_settling hd.fixture hboard limit
  have early : Exits.all.Early ⟨d, journal, level⟩ := ⟨fun _ => trivial, fun _ _ _ => trivial⟩
  have hstanding : Standing d.fixture (settling fun _ => False) ⟨d, journal, level⟩ :=
    ⟨rfl, hd.laid, hs⟩
  have hkept {s : Scene} (h : Standing d.fixture (settling fun _ => False) s) :
      s.duel.Settled fun _ => False := h.holds
  cases a with
  | setCurrent player => exact wp_map.mpr (wp_setCurrent early fun _ => hs)
  | create owner card place =>
    exact wp_map.mpr (wp_create early fun id d' hcreate => hs.create hd hcreate)
  | watchPlayer player =>
    refine wp_map.mpr (wp_watchPlayer early fun d' stats _ hreg => hs.registers hreg ?_)
    intro r hr
    obtain ⟨stat, -, rfl⟩ := hr
    exact id
  | watchCard card =>
    refine wp_map.mpr (wp_watchCard early fun d' stats t _ hreg => hs.registers hreg ?_)
    intro r hr
    obtain ⟨stat, -, rfl⟩ := hr
    exact id
  | watchDestroy card =>
    refine wp_map.mpr (wp_watchDestroy early fun d' t ht hreg => hs.registers hreg ?_)
    intro r hr hover
    obtain ⟨index, k, -, rfl⟩ := hr
    obtain ⟨hdue, -⟩ := hover
    obtain ⟨c, hc, -⟩ := tag?_eq_some_iff.mp ht
    obtain ⟨-, rfl⟩ := card_eq_ok hc
    exact ha ⟨c, hc, (doomed_iff hc).mpr ⟨index, hdue⟩⟩
  | move player card origin destination selection =>
    refine wp_map.mpr (wp_mono ?_ fun _ _ => hkept)
    refine (transfers_settling hd.fixture hboard).wp_moveAction (U.keeps_dispatch rounds) hstanding
      early fun z _ _ => ?_
    exact hs.transfer fun heq hthreat => ha ⟨heq, hd.of_threatened hlog hthreat⟩
  | draw player count =>
    refine wp_map.mpr (wp_mono ?_ fun _ _ => hkept)
    refine settled_drawCards hd.fixture hstanding fun heq z hz id hid hthreat => ?_
    exact ha ⟨heq, z, hz, id, hid, hd.of_threatened hlog hthreat⟩
  | startTurn | endTurn | attackPlayer | attackCard | activate | dispatch =>
    refine wp_mono ?_ fun _ _ => hkept
    exact U.wp_run (fun _ => ages_settling hd.fixture) rfl hstanding early

end Duel

/-! ## §4 Runs -/

/-- **No card outlives its destroy conditions.** In a catalog by which no
chain sends a card to the board, an action that is done leaves a clean
duel clean, unless it registers a card that already meets a condition, or
moves or draws a registered one onto the board. -/
theorem reached_clean {log : List Action} {d d' : Duel} {limit : Nat} {a : Action} {reply : Reply}
    (h : Reached log d) (hboard : ¬ d.catalog.Sends d.catalog.rules.board)
    (hclean : d.Clean log) (hdone : d.perform limit a = .done reply d') (ha : ¬ d.Exempt log a) :
    d'.Clean (a :: log) := by
  have hd := h.sound
  obtain ⟨hd', hfollows⟩ := hd.perform_done hdone
  have hsettled := (hd.clean_iff h.logged).mp hclean
  have hrun := perform_of_wp
    (@Duel.Sound.settled_run d log limit (limit + 1) 0 [] hd h.logged hboard hsettled a ha)
  rw [hdone] at hrun
  obtain ⟨s, rfl, hs⟩ := hrun
  exact (hd'.clean_iff (h.logged.follows hd.fixture hfollows)).mpr hs

/-- Two grunts on the board take the last life from each other: both
leave the board, and the duel stays clean. -/
theorem clean_after_exchange :
    ∃ log d d', Reached log d ∧ d.OnBoard ⟨1⟩ ⟨1⟩ ∧
      d.perform 1 (.attackCard ⟨1⟩ ⟨1⟩ ⟨2⟩) = .done .nothing d' ∧ ¬ d'.OnBoard ⟨1⟩ ⟨1⟩ ∧
      d'.Clean (.attackCard ⟨1⟩ ⟨1⟩ ⟨2⟩ :: log) := by
  obtain ⟨d, h, hboard, hclean, hon, d', -, hdone, hoff⟩ :=
    @Reached.exists_of_performAll 0 (Starter.catalog {}) 7 ⟨⟨1⟩, []⟩ ⟨⟨2⟩, []⟩
      [.create ⟨1⟩ ⟨1⟩ Starter.board, .create ⟨2⟩ ⟨1⟩ Starter.board, .watchDestroy ⟨1⟩,
        .watchDestroy ⟨2⟩]
      (fun d => ¬ d.catalog.Sends d.catalog.rules.board ∧ (∀ c ∈ d.cards, ¬ d.Doomed c) ∧
        d.OnBoard ⟨1⟩ ⟨1⟩ ∧ ∃ d' ∈ (d.perform 1 (.attackCard ⟨1⟩ ⟨1⟩ ⟨2⟩)).state?,
          d.perform 1 (.attackCard ⟨1⟩ ⟨1⟩ ⟨2⟩) = .done .nothing d' ∧ ¬ d'.OnBoard ⟨1⟩ ⟨1⟩)
      (by decide +kernel)
  exact ⟨_, d, d', h, hon, hdone, hoff,
    reached_clean h hboard (fun c hc _ _ => hclean c hc) hdone id⟩

/-- A creature that can take a life from every creature in the deck of its
owner. -/
def moth : CardSpec where
  id := ⟨3⟩
  name := "Moth"
  cardType := Starter.creature.id
  abilities :=
    [.activated
      { effect := .card ⟨Starter.deck, Starter.creature.id, "Life", .decrease, .constant 1, 0⟩
        target := .card (.all .acting) [] }]

/-- The starter catalog with moths, and with the board for a hand. -/
def openHanded : Catalog :=
  { Starter.catalog { extraCards := [moth] } with
    rules :=
      { deck := Starter.deck, hand := Starter.board, board := Starter.board,
        graveyard := Starter.graveyard } }

/-- Draws run no checks: where the board serves as the hand, a draw may
put a registered card on it that has no life left, though the duel is
clean before and the draw neither moves nor registers anything. -/
theorem unclean_after_draw :
    ∃ log d d', Reached log d ∧ log = [.activate ⟨1⟩ ⟨1⟩ 0 {}, .watchDestroy ⟨1⟩] ∧
      d.catalog = openHanded ∧ ¬ d.catalog.Sends d.catalog.rules.board ∧ d.Clean log ∧
      d.perform 64 (.draw ⟨1⟩ 1) = .done (.cards [⟨1⟩]) d' ∧ ¬ d'.Clean (.draw ⟨1⟩ 1 :: log) := by
  obtain ⟨d, h, hcatalog, hboard, hoff, d', -, hdone, c, hc, hid, hon, hdoomed⟩ :=
    @Reached.exists_of_performAll 64 openHanded 7 ⟨⟨1⟩, [⟨3⟩]⟩ ⟨⟨2⟩, []⟩
      [.watchDestroy ⟨1⟩, .activate ⟨1⟩ ⟨1⟩ 0 {}]
      (fun d => d.catalog = openHanded ∧ ¬ d.catalog.Sends d.catalog.rules.board ∧
        (∀ c ∈ d.cards, ¬ d.OnBoard c.owner c.id) ∧
        ∃ d' ∈ (d.perform 64 (.draw ⟨1⟩ 1)).state?,
          d.perform 64 (.draw ⟨1⟩ 1) = .done (.cards [⟨1⟩]) d' ∧
          ∃ c ∈ d'.cards, c.id = ⟨1⟩ ∧ d'.OnBoard c.owner c.id ∧ d'.Doomed c)
      (by decide +kernel)
  refine ⟨_, d, d', h, rfl, hcatalog, hboard, fun c hc _ hin => absurd hin (hoff c hc), hdone,
    fun hclean => ?_⟩
  exact hclean c hc (by simp [hid]) hon hdoomed

end CardDuel
