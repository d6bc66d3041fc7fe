/-
CardDuel.Proofs.Unchanged — the reactions to a write that changes nothing.

A write may leave the effective value of a stat as it is, and its
watchers are told of it all the same. No trigger for a rise or for a fall
answers then, since the test on them compares both values. The test on a
trigger for a value looks at the new value alone: a trigger for the value
that the stat has kept answers again. So the walks for a rise and for a
fall come to nothing, and what a notification does is what the walk for
the value does; it is nothing if no card waits for this very value.

  §1 Answers  — which abilities answer a write that changes nothing.
  §2 Stills   — walks on which no ability answers.
  §3 Changes  — the three walks for a write.
-/
import CardDuel.Proofs.Walk

namespace CardDuel

open Engine Play

/-! ## §1 Answers -/

/-- The triggered abilities of a card that wait for a value of a stat. -/
def Duel.waiting (d : Duel) (subject : Subject) (stat : String) (value : Points)
    (id : InstanceId) : List TriggeredAbility :=
  match d.specOf id with
  | .ok spec => spec.triggered.filter (·.trigger = .statReached subject stat value)
  | .error _ => []

/-- The watchers of a stat pass its changes on, and no card that is told
waits for the value. -/
def Duel.Unawaited (d : Duel) (b : Bearer) (stat : String) (value : Points) : Prop :=
  ∀ w ∈ d.watchers.on b stat, ∃ player subject, w = .propagate player subject ∧
    ∀ id, d.Triggers player id → d.waiting subject stat value id = []

namespace Duel

variable {d : Duel} {subject : Subject} {stat : String} {change : StatChange}

/-- If no trigger of a kind passes the test, no ability of the kind
answers. -/
theorem answering_eq_nil {kind : TriggerKind} {accepts : Trigger → Bool}
    (h : ∀ t : Trigger, t.kind = kind → accepts t = false) (id : InstanceId) :
    d.answering kind accepts id = [] := by
  unfold answering
  split
  · refine List.filter_eq_nil_iff.mpr fun a _ ha => ?_
    rw [Bool.and_eq_true, decide_eq_true_eq] at ha
    rw [h a.trigger ha.1] at ha
    cases ha.2
  · rfl

variable (h : change.new = change.old)
include h

theorem answering_rise (id : InstanceId) :
    d.answering .statIncreased (·.answers subject stat change) id = [] := by
  refine answering_eq_nil (fun t ht => ?_) id
  cases t <;> cases ht
  have hrise : change.increased = false := by
    simp [StatChange.increased, h, Points.lt_iff]
  simp [Trigger.answers, hrise]

theorem answering_fall (id : InstanceId) :
    d.answering .statDecreased (·.answers subject stat change) id = [] := by
  refine answering_eq_nil (fun t ht => ?_) id
  cases t <;> cases ht
  have hfall : change.decreased = false := by
    simp [StatChange.decreased, h, Points.lt_iff]
  simp [Trigger.answers, hfall]

omit h in
/-- An ability that waits for the new value answers, whatever the old
value was. -/
theorem answering_value (id : InstanceId) :
    d.answering .statReached (·.answers subject stat change) id =
      d.waiting subject stat change.new id := by
  have htest (t : Trigger) :
      (decide (t.kind = .statReached) && t.answers subject stat change) =
        decide (t = .statReached subject stat change.new) := by
    cases t <;> simp [Trigger.kind, Trigger.answers, eq_comm (a := change.new)]
  unfold answering waiting
  cases d.specOf id with
  | ok spec => simp only [htest]
  | error e => rfl

end Duel

/-! ## §2 Stills -/

/-- The scene has the duel, and is at the level; what else it has is its
journal. -/
structure Scene.Still (d : Duel) (level : Nat) (s : Scene) : Prop where
  duel : s.duel = d
  depth : s.depth = level

/-- A computation is refused at the depth limit only, and the duel is
still the same then. -/
def Exits.still (limit : Nat) (d : Duel) (level : Nat) : Exits where
  refused _ s := limit ≤ level ∧ s.Still d level
  fault _ := False

namespace Play

variable {d : Duel} {limit rounds level : Nat} {player : PlayerId} {card : InstanceId}
variable {kind : TriggerKind} {accepts : Trigger → Bool} {selection : Selection} {s : Scene}

/-- Below the limit, a call upon a card lets the abilities act that
answer it. -/
theorem dispatch_of_lt {spec : CardSpec} (hspec : s.duel.specOf card = .ok spec)
    (h : s.depth < limit) :
    dispatch limit (rounds + 1) player card kind accepts selection s =
      nested (note (.dispatched s.depth card kind) >>= fun _ =>
        resolveAll (dispatch limit rounds) player card selection
          (s.duel.answering kind accepts card)) s := by
  show (find (·.specOf card) >>= _) s = _
  rw [bind_of_done (find_of_ok hspec), Duel.answering, hspec]
  show (if limit ≤ s.depth then _ else _ : Engine Nat) s = _
  rw [if_neg (Nat.not_le.mpr h)]

/-- A call that no ability answers leaves the duel as it is. -/
theorem wp_call_still (hrounds : 0 < rounds) {spec : CardSpec} (hspec : d.specOf card = .ok spec)
    (hnone : d.answering kind accepts card = []) (hs : s.Still d level) :
    wp (.still limit d level) (dispatch limit rounds player card kind accepts selection)
      (fun n s' => n = 0 ∧ s'.Still d level) s := by
  obtain ⟨rfl, rfl⟩ := hs
  obtain ⟨rounds, rfl⟩ := Nat.exists_eq_succ_of_ne_zero (Nat.ne_of_gt hrounds)
  by_cases hlimit : limit ≤ s.depth
  · rw [dispatch, wp_bind, wp_find_ok hspec, wp_bind, wp_depth, if_pos hlimit]
    exact ⟨hlimit, rfl, rfl⟩
  · unfold wp
    rw [dispatch_of_lt hspec (Nat.lt_of_not_le hlimit), hnone]
    exact ⟨rfl, rfl, rfl⟩

/-- A card in a triggering zone is printed. -/
theorem specOf_of_triggers (hd : d.Sound) (h : d.Triggers player card) :
    ∃ spec, d.specOf card = .ok spec := by
  obtain ⟨seat, -, place, -, z, hz, hin⟩ := h
  have hstands : Stands d.fixture ⟨d, [], 0⟩ := ⟨rfl, hd.laid, trivial⟩
  obtain ⟨t, ht, -⟩ := hstands.tag? hd.fixture hz hin
  exact hstands.specOf hd.fixture ht

/-- **A walk on which no ability answers** calls upon cards and leaves the
duel as it is. -/
theorem wp_walk_still (kind : TriggerKind) (accepts : Trigger → Bool) (hrounds : 0 < rounds)
    (hd : d.Sound) (hp : player ∈ d.fixture.players)
    (hnone : ∀ id, d.Triggers player id → d.answering kind accepts id = [])
    (hs : s.Still d level) :
    wp (.still limit d level) (walk (dispatch limit rounds) player kind accepts)
      (fun n s' => n = 0 ∧ s'.Still d level) s := by
  obtain ⟨seat, hseat⟩ := Duel.seat_isOk_iff.mpr hp
  have hzones : seat.triggeringZones = d.catalog.triggeringZones :=
    hd.laid.triggeringZones_eq (Duel.seat_eq_ok hseat).1
  have hzone (place : ZoneId) (hplace : place ∈ seat.triggeringZones) :
      ∃ z, d.zone player place = .ok z :=
    hd.laid.exists_zone hp (d.catalog.triggeringZones_sublist.subset (hzones ▸ hplace))
  -- In both folds: nothing is resolved so far, and the duel is the same.
  rw [walk, tour, wp_bind, wp_bind, wp_find_ok (hs.duel ▸ hseat)]
  refine wp_foldlM (I := fun _ (t : Tour) s' => t.resolved = 0 ∧ s'.Still d level)
    (fun place hplace _ t s₁ h₁ => ?_) ⟨rfl, hs⟩
  obtain ⟨z, hz⟩ := hzone place hplace
  rw [visitZone, wp_bind, wp_find_ok (h₁.2.duel ▸ hz)]
  refine wp_foldlM (I := fun _ (t : Tour) s' => t.resolved = 0 ∧ s'.Still d level)
    (fun card _ _ t s₂ h₂ => ?_) h₁
  rw [visitCard, wp_bind, wp_find_ok (h₂.2.duel ▸ hz)]
  split
  · rename_i hcard
    have hin : card ∈ z.cards := by
      simp only [Zone.contains, Bool.and_eq_true, List.contains_iff_mem] at hcard
      exact hcard.1
    have htriggers : d.Triggers player card := ⟨seat, hseat, place, hplace, z, hz, hin⟩
    obtain ⟨spec, hspec⟩ := specOf_of_triggers hd htriggers
    rw [wp_bind]
    refine wp_mono (wp_call_still hrounds hspec (hnone card htriggers) h₂.2) fun n s₃ h₃ => ?_
    exact ⟨by rw [h₂.1, h₃.1], h₃.2⟩
  · exact h₂

/-- Below the limit, such a walk is done. -/
theorem done_of_still {m : Engine Nat} (hlimit : level < limit)
    (h : wp (.still limit d level) m (fun n s' => n = 0 ∧ s'.Still d level) s) :
    ∃ s', m s = .done 0 s' ∧ s'.Still d level := by
  unfold wp at h
  split at h
  · obtain ⟨rfl, hs'⟩ := h
    exact ⟨_, by assumption, hs'⟩
  · exact absurd h.1 (Nat.not_le.mpr hlimit)
  · exact h.elim

/-! ## §3 Changes -/

variable {subject : Subject} {stat : String} {change : StatChange}

/-- A write that changes nothing comes to the walk for the value. -/
theorem propagate_eq (hrounds : 0 < rounds) (hd : d.Sound) (hp : player ∈ d.fixture.players)
    (h : change.new = change.old) (hlimit : level < limit) (hs : s.Still d level) :
    ∃ s', s'.Still d level ∧
      propagate (dispatch limit rounds) player subject stat change s =
        (walk (dispatch limit rounds) player .statReached (·.answers subject stat change) s').map
          fun _ => () := by
  obtain ⟨s₁, hrise, hs₁⟩ := done_of_still hlimit
    (wp_walk_still .statIncreased (·.answers subject stat change) hrounds hd hp
      (fun id _ => Duel.answering_rise h id) hs)
  obtain ⟨s₂, hfall, hs₂⟩ := done_of_still hlimit
    (wp_walk_still .statDecreased (·.answers subject stat change) hrounds hd hp
      (fun id _ => Duel.answering_fall h id) hs₁)
  refine ⟨s₂, hs₂, ?_⟩
  rw [propagate, bind_of_done hrise, bind_of_done hfall, bind_eq]
  cases walk (dispatch limit rounds) player .statReached (·.answers subject stat change) s₂ <;> rfl

/-- It leaves the duel as it is if no card waits for the value. -/
theorem wp_propagate_still (hrounds : 0 < rounds) (hd : d.Sound) (hp : player ∈ d.fixture.players)
    (h : change.new = change.old)
    (hnone : ∀ id, d.Triggers player id → d.waiting subject stat change.new id = [])
    (hs : s.Still d level) :
    wp (.still limit d level) (propagate (dispatch limit rounds) player subject stat change)
      (fun _ s' => s'.Still d level) s := by
  rw [propagate, wp_bind]
  refine wp_mono (wp_walk_still _ _ hrounds hd hp (fun id _ => Duel.answering_rise h id) hs)
    fun _ s₁ h₁ => ?_
  rw [wp_bind]
  refine wp_mono (wp_walk_still _ _ hrounds hd hp (fun id _ => Duel.answering_fall h id) h₁.2)
    fun _ s₂ h₂ => ?_
  rw [wp_bind]
  refine wp_mono (wp_walk_still _ _ hrounds hd hp (fun id hid => ?_) h₂.2) fun _ s₃ h₃ => h₃.2
  rw [Duel.answering_value]
  exact hnone id hid

/-- Changes go to the cards of one of the players. -/
theorem mem_players_of_on {b : Bearer} (hd : d.Sound)
    (hw : .propagate player subject ∈ d.watchers.on b stat) : player ∈ d.fixture.players := by
  have hapt := hd.fixture.watched _ (WatchTable.mem_on.mp hw)
  cases b with
  | player q =>
    obtain ⟨hq, heq⟩ := hapt
    cases heq
    exact hq
  | card id =>
    obtain ⟨t, ht, heq | ⟨index, k, heq, -⟩⟩ := hapt
    · cases heq
      exact hd.fixture.owners t (Fixture.tag?_id ht).1
    · cases heq

theorem wp_notify_still {b : Bearer} (hrounds : 0 < rounds) (hd : d.Sound)
    (h : change.new = change.old) (hnone : d.Unawaited b stat change.new) (hs : s.Still d level) :
    wp (.still limit d level) (notify (dispatch limit rounds) b stat change)
      (fun _ s' => s'.Still d level) s := by
  rw [notify, wp_bind, wp_note, wp_bind, wp_duel]
  refine wp_forM (I := fun _ s' => s'.Still d level) (fun w hw _ s₁ h₁ => ?_) ⟨hs.duel, hs.depth⟩
  have hw : w ∈ d.watchers.on b stat := hs.duel ▸ hw
  obtain ⟨player, subject, rfl, hwait⟩ := hnone w hw
  exact wp_propagate_still hrounds hd (mem_players_of_on hd hw) h hwait h₁

end Play

/-- **A write that changes nothing reaches its value again.** When the
effective value of a stat is the same after a write, no ability for a
rise or a fall answers the notification, and those for a value answer if
they wait for the value that is kept. Putting the change to the cards of
a player comes to the walk for the value, on which each call lets the
abilities act that wait for it. If no card that is told waits for the
value, then the whole notification leaves the duel as it is; it is done,
or refused at the depth limit. Every duel that is visited is sound, and
so are those in the course of an action. -/
theorem unchanged_write_answered {s : Scene} (hs : s.duel.Sound) {change : StatChange}
    (h : change.new = change.old) (limit : Nat) {rounds : Nat} (hrounds : 0 < rounds)
    (stat : String) :
    (∀ subject id,
      s.duel.answering .statIncreased (·.answers subject stat change) id = [] ∧
      s.duel.answering .statDecreased (·.answers subject stat change) id = [] ∧
      s.duel.answering .statReached (·.answers subject stat change) id =
        s.duel.waiting subject stat change.new id) ∧
    (s.depth < limit → ∀ player ∈ s.duel.fixture.players, ∀ subject,
      ∃ s', s'.duel = s.duel ∧ s'.depth = s.depth ∧
        propagate (dispatch limit rounds) player subject stat change s =
          (walk (dispatch limit rounds) player .statReached (·.answers subject stat change) s').map
            fun _ => ()) ∧
    (s.depth < limit → ∀ player subject id spec, s.duel.specOf id = .ok spec →
      dispatch limit rounds player id .statReached (·.answers subject stat change) {} s =
        nested (note (.dispatched s.depth id .statReached) >>= fun _ =>
          resolveAll (dispatch limit (rounds - 1)) player id {}
            (s.duel.waiting subject stat change.new id)) s) ∧
    (∀ b, s.duel.Unawaited b stat change.new →
      (∀ s', (notify (dispatch limit rounds) b stat change s).state? = some s' →
        s'.duel = s.duel ∧ s'.depth = s.depth) ∧
      (s.depth < limit → ∃ s', notify (dispatch limit rounds) b stat change s = .done () s')) := by
  have hstill : s.Still s.duel s.depth := ⟨rfl, rfl⟩
  refine ⟨fun subject id => ⟨Duel.answering_rise h id, Duel.answering_fall h id,
    Duel.answering_value id⟩, fun hlimit player hp subject => ?_,
    fun hlimit player subject id spec hspec => ?_, fun b hnone => ?_⟩
  · obtain ⟨s', hs', hrun⟩ := propagate_eq hrounds hs hp h hlimit hstill
    exact ⟨s', hs'.duel, hs'.depth, hrun⟩
  · obtain ⟨rounds, rfl⟩ := Nat.exists_eq_succ_of_ne_zero (Nat.ne_of_gt hrounds)
    rw [dispatch_of_lt hspec hlimit, Duel.answering_value]
    rfl
  · have hrun := @wp_notify_still s.duel limit rounds s.depth s stat change b hrounds hs h hnone
      hstill
    constructor
    · intro s' hs'
      rcases wp_state hrun hs' with ⟨_, hkept⟩ | ⟨_, -, hkept⟩ <;> exact ⟨hkept.duel, hkept.depth⟩
    · intro hlimit
      unfold wp at hrun
      split at hrun
      · exact ⟨_, by assumption⟩
      · exact absurd hrun.1 (Nat.not_le.mpr hlimit)
      · exact hrun.elim

/-- An ability that gives its owner a life when their mana reaches three. -/
def Starter.reward : TriggeredAbility where
  trigger := .statReached .player "Mana" 3
  effect := .player { stat := "Life", adjustment := .increase, amount := .constant 1 }
  target := .player .acting []

/-- A creature that sets the mana of its owner to three when told to, and
has the reward. -/
def Starter.font : CardSpec where
  id := ⟨3⟩
  name := "Font"
  cardType := creature.id
  abilities :=
    [.triggered reward,
     .activated
      { effect := .player { stat := "Mana", adjustment := .set, amount := .constant 3 }
        target := .player .acting [] }]

/-- The mana is three already, and the reward answers when it is set to
three. -/
theorem reward_answers_kept_mana :
    ∃ d, Visited (Starter.catalog { extraCards := [Starter.font] }) d ∧
      d.statValue? (.player ⟨1⟩) "Mana" = .ok (some 3) ∧
      d.answering .statReached (·.answers .player "Mana" ⟨3, 3⟩) ⟨1⟩ = [Starter.reward] ∧
      ∃ s', s'.duel = d ∧ s'.depth = 0 ∧
        propagate (dispatch 64 65) ⟨1⟩ .player "Mana" ⟨3, 3⟩ ⟨d, [], 0⟩ =
          (walk (dispatch 64 65) ⟨1⟩ .statReached (·.answers .player "Mana" ⟨3, 3⟩) s').map
            fun _ => () := by
  obtain ⟨d, hvisited, hmana, hplayers, hwaiting⟩ :=
    @Visited.exists_of_performAll (Starter.catalog { extraCards := [Starter.font] }) 64 7
      ⟨⟨1⟩, [⟨3⟩]⟩ ⟨⟨2⟩, []⟩
      [.move ⟨1⟩ ⟨1⟩ Starter.deck Starter.board {}, .watchPlayer ⟨1⟩, .activate ⟨1⟩ ⟨1⟩ 0 {}]
      (fun d => d.statValue? (.player ⟨1⟩) "Mana" = .ok (some 3) ∧ ⟨1⟩ ∈ d.fixture.players ∧
        d.waiting .player "Mana" 3 ⟨1⟩ = [Starter.reward])
      (by decide +kernel)
  obtain ⟨hanswers, hpropagate, -, -⟩ :=
    @unchanged_write_answered ⟨d, [], 0⟩ hvisited.sound ⟨3, 3⟩ rfl 64 65 (Nat.zero_lt_succ 64)
      "Mana"
  exact ⟨d, hvisited, hmana, (hanswers .player ⟨1⟩).2.2.trans hwaiting,
    hpropagate (Nat.zero_lt_succ 63) ⟨1⟩ hplayers .player⟩

/-- The mana of a player is three and is set to three: the notification
of this write gives the player a life. -/
theorem kept_mana_rewarded :
    ∃ d s', Visited (Starter.catalog { extraCards := [Starter.font] }) d ∧
      d.statValue? (.player ⟨1⟩) "Mana" = .ok (some 3) ∧
      d.statValue? (.player ⟨1⟩) "Life" = .ok (some 21) ∧
      d.record 64 (.activate ⟨1⟩ ⟨1⟩ 0 {}) = .done (.resolved true) s' ∧
      .notified (.player ⟨1⟩) "Mana" ⟨3, 3⟩ ∈ s'.journal ∧
      .wrote (.player ⟨1⟩) "Life" ⟨21, 22⟩ ∈ s'.journal ∧
      s'.duel.statValue? (.player ⟨1⟩) "Life" = .ok (some 22) := by
  obtain ⟨d, hvisited, s', -, hfacts⟩ :=
    @Visited.exists_of_performAll (Starter.catalog { extraCards := [Starter.font] }) 64 7
      ⟨⟨1⟩, [⟨3⟩]⟩ ⟨⟨2⟩, []⟩
      [.move ⟨1⟩ ⟨1⟩ Starter.deck Starter.board {}, .watchPlayer ⟨1⟩, .activate ⟨1⟩ ⟨1⟩ 0 {}]
      (fun d => ∃ s' ∈ (d.record 64 (.activate ⟨1⟩ ⟨1⟩ 0 {})).state?,
        d.statValue? (.player ⟨1⟩) "Mana" = .ok (some 3) ∧
        d.statValue? (.player ⟨1⟩) "Life" = .ok (some 21) ∧
        d.record 64 (.activate ⟨1⟩ ⟨1⟩ 0 {}) = .done (.resolved true) s' ∧
        .notified (.player ⟨1⟩) "Mana" ⟨3, 3⟩ ∈ s'.journal ∧
        .wrote (.player ⟨1⟩) "Life" ⟨21, 22⟩ ∈ s'.journal ∧
        s'.duel.statValue? (.player ⟨1⟩) "Life" = .ok (some 22))
      (by decide +kernel)
  exact ⟨d, s', hvisited, hfacts⟩

end CardDuel
