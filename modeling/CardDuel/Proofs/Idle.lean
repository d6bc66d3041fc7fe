/-
CardDuel.Proofs.Idle — what does not act leaves the duel alone.

An ability that is called up reports whether it had an effect. There are
many ways for it to have none: no target is available or can be looked
up, all targets fail a condition, no target has the stat, or the cards to
be moved lie elsewhere. All of them come before the first write, the roll
of an amount and the first call on another ability; only the choice of a
random target comes earlier. So where nothing is reported, the generator
may have moved on by one draw for each ability with a random target, and
the rest of the duel is as before.

  §1 Idle duels — places drawn, and nothing else.
  §2 Targets    — the draw of a random target.
  §3 Abilities  — one ability, and the abilities of a card.
  §4 Walks      — the cards that a walk calls upon.
  §5 Actions    — what a caller is told.
-/
import CardDuel.Catalog.Starter
import CardDuel.Proofs.Relocation

namespace CardDuel

open Engine Play

/-! ## §1 Idle duels -/

namespace Random.Generator

variable {g : Generator}

/-- The generator after a place has been drawn in a list of each length,
one after the other. -/
def afterPlaces (g : Generator) (lengths : List Nat) : Generator :=
  lengths.foldl (fun g length => (g.index? length).2) g

theorem calls_range_le (low high : Points) : (g.range low high).2.calls ≤ g.calls + 1 := by
  rw [range]
  split
  · exact Nat.le_succ _
  · exact Nat.le_refl _

theorem calls_index?_le (length : Nat) : (g.index? length).2.calls ≤ g.calls + 1 := by
  rw [index?]
  split
  · exact Nat.le_succ _
  · split
    · exact calls_range_le _ _
    · exact Nat.le_succ _

theorem calls_afterPlaces_le (lengths : List Nat) :
    (g.afterPlaces lengths).calls ≤ g.calls + lengths.length := by
  induction lengths generalizing g with
  | nil => exact Nat.le_refl _
  | cons length rest ih =>
    have hfirst : (g.index? length).2.calls ≤ g.calls + 1 := calls_index?_le length
    have hrest : (g.afterPlaces (length :: rest)).calls ≤
        (g.index? length).2.calls + rest.length := ih
    rw [List.length_cons]
    omega

end Random.Generator

/-- The second duel is the first with at most `n` places drawn. -/
def Duel.Idles (n : Nat) (d d' : Duel) : Prop :=
  ∃ lengths : List Nat, lengths.length ≤ n ∧
    d' = { d with generator := d.generator.afterPlaces lengths }

namespace Duel.Idles

variable {n m : Nat} {d d' d'' : Duel}

theorem refl : d.Idles n d := ⟨[], Nat.zero_le n, rfl⟩

theorem mono (h : d.Idles n d') (hm : n ≤ m) : d.Idles m d' := by
  obtain ⟨lengths, hlength, hd'⟩ := h
  exact ⟨lengths, Nat.le_trans hlength hm, hd'⟩

theorem trans (h : d.Idles n d') (h' : d'.Idles m d'') : d.Idles (n + m) d'' := by
  obtain ⟨lengths, hlength, rfl⟩ := h
  obtain ⟨lengths', hlength', rfl⟩ := h'
  refine ⟨lengths ++ lengths', ?_, ?_⟩
  · rw [List.length_append]
    omega
  · simp [Random.Generator.afterPlaces, List.foldl_append]

theorem draw (length : Nat) :
    d.Idles 1 { d with generator := (d.generator.index? length).2 } :=
  ⟨[length], Nat.le_refl 1, rfl⟩

/-- The generator apart, an idle duel is as before. -/
theorem rest (h : d.Idles n d') : d' = { d with generator := d'.generator } := by
  obtain ⟨lengths, -, rfl⟩ := h
  rfl

theorem calls_le (h : d.Idles n d') : d'.generator.calls ≤ d.generator.calls + n := by
  obtain ⟨lengths, hlength, rfl⟩ := h
  exact Nat.le_trans (Random.Generator.calls_afterPlaces_le lengths) (Nat.add_le_add_left hlength _)

theorem eq_of_zero (h : d.Idles n d') (hn : n = 0) : d' = d := by
  obtain ⟨lengths, hlength, rfl⟩ := h
  have hnil : lengths = [] := List.eq_nil_of_length_eq_zero (by omega)
  rw [hnil]
  rfl

end Duel.Idles

/-! ## §2 Targets -/

/-- One member of a pool is meant, at random. -/
def Target.isRandom : Target → Bool
  | .player .random _ => true
  | .card (.random _) _ => true
  | _ => false

namespace Play

variable {α : Type} {d : Duel} {s : Scene}

/-- The pool has one member drawn from it. -/
def Pool.isRandom : Pool α → Bool
  | .every _ => false
  | .oneOf _ => true

theorem isRandom_of_playerPool {acting : PlayerId} {selection : Selection} {kind : PlayerTarget}
    {pool : Pool PlayerId} (h : playerPool d acting selection kind = .ok pool)
    (conditions : List Condition) : pool.isRandom = (Target.player kind conditions).isRandom := by
  obtain ⟨opponent, -, h⟩ := Except.bind_eq_ok_iff.mp h
  cases kind with
  | acting | opponent | all => cases h; rfl
  | chosen =>
    dsimp only at h
    split at h <;> cases h <;> rfl
  | random =>
    dsimp only at h
    split at h <;> cases h <;> rfl

theorem isRandom_of_cardPool {acting : PlayerId} {source : InstanceId} {place : ZoneId}
    {t : CardTypeId} {selection : Selection} {kind : CardTarget} {pool : Pool InstanceId}
    (h : cardPool d acting source place t selection kind = .ok pool)
    (conditions : List Condition) : pool.isRandom = (Target.card kind conditions).isRandom := by
  obtain ⟨opponent, -, h⟩ := Except.bind_eq_ok_iff.mp h
  cases kind with
  | source => cases h; rfl
  | chosen side =>
    dsimp only at h
    split at h
    · cases h; rfl
    · obtain ⟨found, -, h⟩ := Except.bind_eq_ok_iff.mp h
      cases h
      rfl
  | random side | all side =>
    obtain ⟨ids, -, h⟩ := Except.bind_eq_ok_iff.mp h
    cases h
    rfl

/-- Choosing targets draws a place if the pool is random. -/
theorem wp_targets_idle (bearer : α → Bearer) (conditions : List Condition) (pool : Pool α) :
    wp .all (pool.targets bearer conditions)
      (fun _ s' => s.duel.Idles (if pool.isRandom then 1 else 0) s'.duel) s := by
  have hkept (s₁ : Scene) (chosen : List α)
      (h : s.duel.Idles (if pool.isRandom then 1 else 0) s₁.duel) :
      wp .all (sound (keepSatisfying s₁.duel bearer conditions chosen))
        (fun _ s' => s.duel.Idles (if pool.isRandom then 1 else 0) s'.duel) s₁ := by
    rw [wp_sound]
    split
    · exact h
    · trivial
  cases pool with
  | every members => exact hkept s members .refl
  | oneOf members => exact hkept _ _ (.draw members.length)

/-! ## §3 Abilities -/

end Play

/-- The bearer has no stat of that name. -/
def Duel.Lacks (d : Duel) (b : Bearer) (stat : String) : Prop :=
  ∀ block, d.stats b = .ok block → block.get? stat = none

namespace Play

variable {α : Type} {fire : Dispatch} {s : Scene}

theorem wp_of_forall {m : Engine α} {Q : α → Scene → Prop} (h : ∀ a s', Q a s') :
    wp .all m Q s := by
  unfold wp
  split
  · exact h _ _
  · trivial
  · trivial

/-- An adjustment that changes nothing is found out before the amount is
rolled: there is no stat to change. -/
theorem wp_adjustStat_idle (b : Bearer) (stat : String) (a : Adjustment) (amount : Amount)
    (turns : UInt32) :
    wp .all (adjustStat b stat a amount turns)
      (fun change s' => change = none → s' = s ∧ s.duel.Lacks b stat) s := by
  rw [adjustStat, wp_bind, wp_find]
  cases hb : s.duel.stats b with
  | error e => trivial
  | ok block =>
    cases hst : block.get? stat with
    | none =>
      simp only [hst, Option.isSome_none, Bool.false_eq_true, if_false]
      refine fun _ => ⟨rfl, fun block' hblock' => ?_⟩
      cases hb.symm.trans hblock'
      exact hst
    | some st =>
      simp only [hst, Option.isSome_some, if_true, wp_bind, wp_draw, writeStat]
      have hb' (g : Random.Generator) : ({ s.duel with generator := g } : Duel).stats b = .ok block :=
        hb
      rw [wp_find_ok (hb' _)]
      simp only [hst, wp_bind, wp_sound]
      split
      · intro hnone
        cases hnone
      · trivial

/-- A target that is not changed is left alone, and there was nothing to
change. -/
theorem wp_applyAndNotify_idle {write : Engine (Option StatChange)} {missed : Prop}
    (hwrite : wp .all write (fun change s' => change = none → s' = s ∧ missed) s) (b : Bearer)
    (stat : String) (before : Bool) :
    wp .all (applyAndNotify fire b stat write before)
      (fun applied s' => applied = false → before = false ∧ s' = s ∧ missed) s := by
  rw [applyAndNotify, wp_bind]
  refine wp_mono hwrite fun change s' hs' => ?_
  cases change with
  | none => exact fun h => ⟨h, hs' rfl⟩
  | some change =>
    rw [wp_bind]
    refine wp_of_forall fun _ _ h => ?_
    cases h

/-- A target that is not moved is left alone, and it lay elsewhere. -/
theorem wp_moveIfThere_idle (place destination : ZoneId) (before : Bool) (card : InstanceId) :
    wp .all (moveIfThere fire place destination before card)
      (fun moved s' => moved = false →
        before = false ∧ s' = s ∧ ∀ owner, s.duel.location? card ≠ some (owner, place)) s := by
  rw [moveIfThere, wp_bind, wp_duel]
  split
  · rename_i owner current hlocation
    split
    · rw [wp_bind]
      refine wp_of_forall fun _ _ h => ?_
      cases h
    · rename_i hne
      refine fun h => ⟨h, rfl, fun owner' hthere => hne ?_⟩
      cases hlocation.symm.trans hthere
      rfl
  · rename_i hnone
    refine fun h => ⟨h, rfl, fun owner hthere => ?_⟩
    cases hnone.symm.trans hthere

/-- If no target of a list is changed, all are left alone, and there was
nothing to change about any of them. -/
theorem wp_foldlM_idle {step : Bool → α → Engine Bool} {missed : α → Duel → Prop}
    (hstep : ∀ before a s, wp .all (step before a)
      (fun changed s' => changed = false → before = false ∧ s' = s ∧ missed a s.duel) s)
    (targets : List α) :
    wp .all (targets.foldlM step false)
      (fun changed s' => changed = false → s' = s ∧ ∀ a ∈ targets, missed a s.duel) s := by
  refine wp_mono (wp_foldlM (I := fun rest changed s' => changed = false →
      s' = s ∧ ∀ a ∈ targets, a ∉ rest → missed a s.duel)
    (fun a _ rest before s₁ h => ?_) fun _ => ⟨rfl, fun a ha hno => absurd ha hno⟩)
    fun changed s' h hchanged => ?_
  · refine wp_mono (hstep before a s₁) fun changed s₂ h₂ hchanged => ?_
    obtain ⟨hbefore, rfl, hmissed⟩ := h₂ hchanged
    obtain ⟨rfl, hothers⟩ := h hbefore
    refine ⟨rfl, fun a' ha' hno => ?_⟩
    by_cases heq : a' = a
    · exact heq ▸ hmissed
    · exact hothers a' ha' fun hmem => hno ((List.mem_cons.mp hmem).resolve_left heq)
  · obtain ⟨hs', hall⟩ := h hchanged
    exact ⟨hs', fun a ha => hall a ha List.not_mem_nil⟩

/-- **An ability without effect** has drawn a place at most, and that only
if its target is random. -/
theorem wp_resolve_idle (acting : PlayerId) (source : InstanceId) (effect : Effect)
    (target : Target) (selection : Selection) :
    wp .all (resolve fire acting source effect target selection)
      (fun applied s' => applied = false →
        s.duel.Idles (if target.isRandom then 1 else 0) s'.duel) s := by
  -- What the three kinds of effects have in common: targets are chosen, then each has its turn.
  have hchosen {α : Type} {pool : Pool α} (bearer : α → Bearer) (conditions : List Condition)
      {step : Bool → α → Engine Bool} (missed : α → Duel → Prop)
      (hpool : pool.isRandom = target.isRandom)
      (hstep : ∀ before a s, wp .all (step before a)
        (fun changed s' => changed = false → before = false ∧ s' = s ∧ missed a s.duel) s) :
      wp .all (pool.targets bearer conditions >>= fun targets => targets.foldlM step false)
        (fun applied s' => applied = false →
          s.duel.Idles (if target.isRandom then 1 else 0) s'.duel) s := by
    rw [wp_bind, ← hpool]
    refine wp_mono (wp_targets_idle bearer conditions pool) fun targets s₁ h₁ => ?_
    refine wp_mono (wp_foldlM_idle hstep targets) fun applied s₂ h₂ happlied => ?_
    obtain ⟨rfl, -⟩ := h₂ happlied
    exact h₁
  rw [resolve, wp_bind, wp_duel]
  split
  · rename_i havailable
    split
    · rename_i e kind conditions
      split
      · exact fun _ => .refl
      · rename_i pool hpool
        exact hchosen .player conditions (fun player d => d.Lacks (.player player) e.stat)
          (isRandom_of_playerPool hpool conditions)
          fun before player s => wp_applyAndNotify_idle (wp_adjustStat_idle ..) _ _ before
    · rename_i e kind conditions
      split
      · exact fun _ => .refl
      · rename_i pool hpool
        exact hchosen .card conditions (fun card d => d.Lacks (.card card) e.stat)
          (isRandom_of_cardPool hpool conditions)
          fun before card s => wp_applyAndNotify_idle (wp_adjustStat_idle ..) _ _ before
    · rename_i e kind conditions
      split
      · exact fun _ => .refl
      · rename_i pool hpool
        exact hchosen .card conditions
          (fun card d => ∀ owner, d.location? card ≠ some (owner, selection.zone.getD e.zone))
          (isRandom_of_cardPool hpool conditions)
          fun before card s => wp_moveIfThere_idle _ _ before card
    · exact fun _ => .refl
  · exact fun _ => .refl

end Play

/-- How many abilities of a list have a random target. -/
def randomTargets (abilities : List TriggeredAbility) : Nat :=
  abilities.countP (·.target.isRandom)

/-- The triggered abilities of a card that a call considers. -/
def Duel.answering (d : Duel) (kind : TriggerKind) (accepts : Trigger → Bool) (id : InstanceId) :
    List TriggeredAbility :=
  match d.specOf id with
  | .ok spec => spec.triggered.filter fun a => a.trigger.kind = kind && accepts a.trigger
  | .error _ => []

namespace Play

variable {fire : Dispatch} {s : Scene}

theorem wp_resolveAll_idle (acting : PlayerId) (source : InstanceId) (selection : Selection)
    (abilities : List TriggeredAbility) :
    wp .all (resolveAll fire acting source selection abilities)
      (fun n s' => n = 0 → s.duel.Idles (randomTargets abilities) s'.duel) s := by
  -- By what is left: the abilities so far and those to come are all of them.
  refine wp_mono (wp_foldlM (I := fun rest n s' => n = 0 → ∃ drawn,
      drawn + randomTargets rest = randomTargets abilities ∧ s.duel.Idles drawn s'.duel)
    (fun a _ rest n s₁ h₁ => ?_) fun _ => ⟨0, Nat.zero_add _, .refl⟩) fun n s' h hn => ?_
  · rw [wp_bind]
    refine wp_mono (wp_resolve_idle acting source a.effect a.target selection)
      fun applied s₂ h₂ => ?_
    cases applied with
    | true => exact fun hn => absurd hn (Nat.succ_ne_zero n)
    | false =>
      intro hn
      obtain ⟨drawn, hdrawn, hidle⟩ := h₁ hn
      refine ⟨_, ?_, hidle.trans (h₂ rfl)⟩
      rw [← hdrawn, randomTargets, randomTargets, List.countP_cons]
      omega
  · obtain ⟨drawn, hdrawn, hidle⟩ := h hn
    exact hidle.mono (by omega)

/-- Calls that report no effect have had none, apart from the draws for
the random targets that they consider. -/
def Honest (fire : Dispatch) : Prop :=
  ∀ acting card kind accepts selection s,
    wp .all (fire acting card kind accepts selection)
      (fun n s' => n = 0 →
        s.duel.Idles (randomTargets (s.duel.answering kind accepts card)) s'.duel) s

theorem honest_dispatch (limit rounds : Nat) : Honest (dispatch limit rounds) := by
  intro acting card kind accepts selection s
  cases rounds with
  | zero => trivial
  | succ rounds =>
    rw [dispatch, wp_bind, wp_find]
    cases hspec : s.duel.specOf card with
    | error e => trivial
    | ok spec =>
      simp only [wp_bind, wp_depth]
      split
      · trivial
      · rw [wp_nested, wp_bind, wp_note, Duel.answering, hspec]
        exact wp_resolveAll_idle ..

end Play

/-! ## §4 Walks -/

namespace Duel

variable {n : Nat} {d d' : Duel}

theorem Idles.zone (h : d.Idles n d') (player : PlayerId) (place : ZoneId) :
    d'.zone player place = d.zone player place := by
  obtain ⟨lengths, -, rfl⟩ := h
  rfl

theorem Idles.answering (h : d.Idles n d') (kind : TriggerKind) (accepts : Trigger → Bool)
    (id : InstanceId) : d'.answering kind accepts id = d.answering kind accepts id := by
  obtain ⟨lengths, -, rfl⟩ := h
  rfl

/-- The card lies in a triggering zone of the player. -/
def Triggers (d : Duel) (player : PlayerId) (id : InstanceId) : Prop :=
  ∃ s, d.seat player = .ok s ∧ ∃ place ∈ s.triggeringZones, d.Lies player id place

end Duel

/-- A walk that began with the first duel has come to the second without
any effect. It calls upon cards in the triggering zones, and upon each of
them once. -/
structure Play.Tour.Idles (player : PlayerId) (kind : TriggerKind) (accepts : Trigger → Bool)
    (d : Duel) (t : Tour) (d' : Duel) : Prop where
  nodup : t.visited.Nodup
  triggers : ∀ id ∈ t.visited, d.Triggers player id
  idles : d.Idles (randomTargets (t.visited.flatMap (d.answering kind accepts))) d'

namespace Play

variable {fire : Dispatch} {player : PlayerId} {kind : TriggerKind} {accepts : Trigger → Bool}
variable {d : Duel} {s : Scene} {t : Tour} {seat : Seat} {place : ZoneId}

theorem wp_visitCard_idle (hfire : Honest fire) (hseat : d.seat player = .ok seat)
    (hplace : place ∈ seat.triggeringZones) (card : InstanceId)
    (h : t.resolved = 0 → t.Idles player kind accepts d s.duel) :
    wp .all (visitCard fire player kind accepts place t card)
      (fun t' s' => t'.resolved = 0 → t'.Idles player kind accepts d s'.duel) s := by
  rw [visitCard, wp_bind, wp_find]
  cases hz : s.duel.zone player place with
  | error e => trivial
  | ok z =>
    dsimp only
    split
    · rename_i hcard
      simp only [Zone.contains, Bool.and_eq_true, List.contains_iff_mem, Bool.not_eq_true',
        ← Bool.not_eq_true] at hcard
      obtain ⟨hlies, hnew⟩ := hcard
      rw [wp_bind]
      refine wp_mono (hfire player card kind accepts {} s) fun n s' hn hzero => ?_
      obtain ⟨hbefore, hn₀⟩ : t.resolved = 0 ∧ n = 0 := Nat.add_eq_zero_iff.mp hzero
      have ht := h hbefore
      have hcalled := hn hn₀
      rw [ht.idles.answering] at hcalled
      refine ⟨List.nodup_cons.mpr ⟨hnew, ht.nodup⟩, ?_, ?_⟩
      · intro id hid
        rcases List.mem_cons.mp hid with rfl | hid
        · exact ⟨seat, hseat, place, hplace, z, ht.idles.zone player place ▸ hz, hlies⟩
        · exact ht.triggers id hid
      · refine (ht.idles.trans hcalled).mono ?_
        simp only [randomTargets, List.flatMap_cons, List.countP_append]
        omega
    · exact h

theorem wp_visitZone_idle (hfire : Honest fire) (hseat : d.seat player = .ok seat)
    (hplace : place ∈ seat.triggeringZones)
    (h : t.resolved = 0 → t.Idles player kind accepts d s.duel) :
    wp .all (visitZone fire player kind accepts t place)
      (fun t' s' => t'.resolved = 0 → t'.Idles player kind accepts d s'.duel) s := by
  rw [visitZone, wp_bind, wp_find]
  split
  · exact wp_foldlM (I := fun _ (t : Tour) s =>
      t.resolved = 0 → t.Idles player kind accepts d s.duel)
      (fun card _ _ t s h => wp_visitCard_idle hfire hseat hplace card h) h
  · trivial

theorem wp_tour_idle (hfire : Honest fire) :
    wp .all (tour fire player kind accepts)
      (fun t s' => t.resolved = 0 → t.Idles player kind accepts s.duel s'.duel) s := by
  rw [tour, wp_bind, wp_find]
  cases hseat : s.duel.seat player with
  | error e => trivial
  | ok seat =>
    refine wp_foldlM
      (I := fun _ (t : Tour) s' =>
        t.resolved = 0 → t.Idles player kind accepts s.duel s'.duel)
      (fun place hplace _ t s h => wp_visitZone_idle hfire hseat hplace h) fun _ => ?_
    exact ⟨List.nodup_nil, fun id hid => absurd hid List.not_mem_nil, .refl⟩

end Play

/-! ## §5 Actions -/

namespace Duel

variable {d d' : Duel} {limit : Nat} {player : PlayerId} {card : InstanceId}

/-- What holds of a computation holds of the action that replies with its
value. -/
theorem exists_of_perform {α : Type} {a : Action} {reply : Reply} {m : Engine α} {f : α → Reply}
    {Q : α → Scene → Prop} (hrun : a.run (dispatch limit (limit + 1)) = f <$> m)
    (h : wp .all m Q ⟨d, [], 0⟩) (hd' : d.perform limit a = .done reply d') :
    ∃ value s, reply = f value ∧ s.duel = d' ∧ Q value s := by
  have haction : wp .all (a.run (dispatch limit (limit + 1)))
      (fun reply s => ∃ value, reply = f value ∧ Q value s) ⟨d, [], 0⟩ := by
    rw [hrun]
    exact wp_map.mpr (wp_mono h fun value s hs => ⟨value, rfl, hs⟩)
  have hperform := perform_of_wp haction
  rw [hd'] at hperform
  obtain ⟨s, hs, value, hreply, hvalue⟩ := hperform
  exact ⟨value, s, hreply, hs, hvalue⟩

theorem idles_of_dispatch {kind : TriggerKind} {accepts : Trigger → Bool} {selection : Selection}
    (h : d.perform limit (.dispatch player card kind accepts selection) = .done (.count 0) d') :
    d.Idles (randomTargets (d.answering kind accepts card)) d' := by
  have hcall := honest_dispatch limit (limit + 1) player card kind accepts selection ⟨d, [], 0⟩
  obtain ⟨n, s, hn, rfl, hidles⟩ := exists_of_perform rfl hcall h
  cases hn
  exact hidles rfl

theorem idles_of_activate {index : Nat} {selection : Selection}
    (h : d.perform limit (.activate player card index selection) = .done (.resolved false) d') :
    ∃ spec a, d.specOf card = .ok spec ∧ spec.activated[index]? = some a ∧
      d.Idles (if a.target.isRandom then 1 else 0) d' := by
  have hactivate : wp .all (Play.activate (dispatch limit (limit + 1)) player card index selection)
      (fun applied s => applied = false → ∃ spec a, d.specOf card = .ok spec ∧
        spec.activated[index]? = some a ∧ d.Idles (if a.target.isRandom then 1 else 0) s.duel)
      ⟨d, [], 0⟩ := by
    rw [Play.activate, wp_bind, wp_find]
    split
    · rw [wp_bind, wp_find]
      dsimp only
      split
      · rename_i spec hspec
        split
        · rename_i a ha
          exact wp_mono (wp_resolve_idle player card a.effect a.target selection)
            fun applied s hs happlied => ⟨spec, a, hspec, ha, hs happlied⟩
        · trivial
      · trivial
    · trivial
  obtain ⟨applied, s, happlied, rfl, hidles⟩ := exists_of_perform rfl hactivate h
  cases happlied
  exact hidles rfl

theorem idles_of_startTurn (h : d.perform limit .startTurn = .done (.count 0) d') :
    ∃ visited : List InstanceId, visited.Nodup ∧ (∀ id ∈ visited, d.Triggers d.current id) ∧
      d.Idles (randomTargets (visited.flatMap (d.answering .turnStarted fun _ => true))) d' := by
  have hwalk : wp .all (Play.startTurn (dispatch limit (limit + 1)))
      (fun n s => ∃ t : Tour, t.resolved = n ∧
        (n = 0 → t.Idles d.current .turnStarted (fun _ => true) d s.duel)) ⟨d, [], 0⟩ := by
    rw [Play.startTurn, wp_bind, wp_duel, walk, wp_bind]
    exact wp_mono (wp_tour_idle (honest_dispatch limit (limit + 1))) fun t s ht => ⟨t, rfl, ht⟩
  obtain ⟨n, s, hn, rfl, t, -, hidles⟩ := exists_of_perform rfl hwalk h
  cases hn
  have ht := hidles rfl
  exact ⟨t.visited, ht.nodup, ht.triggers, ht.idles⟩

end Duel

/-- **What reports no effect has had none.** If a call on a card finds no
ability that takes effect, if an activated ability does not take effect,
or if no ability does at the start of a turn, then the duel is as before,
apart from at most one place drawn for each ability with a random target
among those considered. For a call these are the abilities of the card
that answer it, and for the start of a turn those that answer it on cards
in the triggering zones, of which none is called upon twice. A place that
is drawn counts as one call of the generator at most, and where no target
is random nothing is drawn. -/
theorem unresolved_idles (d : Duel) (limit : Nat) :
    (∀ player card kind accepts selection d',
      d.perform limit (.dispatch player card kind accepts selection) = .done (.count 0) d' →
        d.Idles (randomTargets (d.answering kind accepts card)) d') ∧
    (∀ player card index selection d',
      d.perform limit (.activate player card index selection) = .done (.resolved false) d' →
        ∃ spec a, d.specOf card = .ok spec ∧ spec.activated[index]? = some a ∧
          d.Idles (if a.target.isRandom then 1 else 0) d') ∧
    (∀ d', d.perform limit .startTurn = .done (.count 0) d' →
      ∃ visited : List InstanceId, visited.Nodup ∧ (∀ id ∈ visited, d.Triggers d.current id) ∧
        d.Idles (randomTargets (visited.flatMap (d.answering .turnStarted fun _ => true))) d') ∧
    (∀ n d', d.Idles n d' → d' = { d with generator := d'.generator } ∧
      d'.generator.calls ≤ d.generator.calls + n ∧ (n = 0 → d' = d)) :=
  ⟨fun _ _ _ _ _ _ => Duel.idles_of_dispatch, fun _ _ _ _ _ => Duel.idles_of_activate,
    fun _ => Duel.idles_of_startTurn, fun _ _ h => ⟨h.rest, h.calls_le, h.eq_of_zero⟩⟩

/-- A gift of life to a random player, if that player has none. -/
def Starter.alms : ActivatedAbility where
  effect := .player { stat := "Life", adjustment := .increase, amount := .constant 1 }
  target := .player .random [⟨"Life", .lessOrEqual, 0⟩]

/-- A creature that gives alms at the start of a turn and when told to. -/
def Starter.almoner : CardSpec where
  id := ⟨3⟩
  name := "Almoner"
  cardType := Starter.creature.id
  abilities := [.triggered { trigger := .turnStarted, effect := alms.effect, target := alms.target },
    .activated alms]

/-- Nobody needs the alms: each of the three actions reports no effect,
moves the generator on and changes nothing else. -/
theorem almoner_idles :
    ∃ log d d₁ d₂ d₃, Reached log d ∧
      d.perform 64 (.dispatch ⟨1⟩ ⟨1⟩ .turnStarted (fun _ => true) {}) = .done (.count 0) d₁ ∧
      d.perform 64 (.activate ⟨1⟩ ⟨1⟩ 0 {}) = .done (.resolved false) d₂ ∧
      d.perform 64 .startTurn = .done (.count 0) d₃ ∧
      (d₁ ≠ d ∧ d₂ ≠ d ∧ d₃ ≠ d) ∧
      d.Idles 1 d₁ ∧ d.Idles 1 d₂ ∧ d₃ = { d with generator := d₃.generator } := by
  obtain ⟨d, h, ⟨d₁, -, h₁, hne₁⟩, ⟨d₂, -, h₂, hne₂⟩, ⟨d₃, -, h₃, hne₃⟩, hanswers⟩ :=
    @Reached.exists_of_performAll 64 (Starter.catalog { extraCards := [Starter.almoner] }) 7
      ⟨⟨1⟩, [⟨3⟩]⟩ ⟨⟨2⟩, []⟩ [.move ⟨1⟩ ⟨1⟩ Starter.deck Starter.board {}]
      (fun d =>
        (∃ d₁ ∈ (d.perform 64 (.dispatch ⟨1⟩ ⟨1⟩ .turnStarted (fun _ => true) {})).state?,
          d.perform 64 (.dispatch ⟨1⟩ ⟨1⟩ .turnStarted (fun _ => true) {}) =
            .done (.count 0) d₁ ∧ d₁ ≠ d) ∧
        (∃ d₂ ∈ (d.perform 64 (.activate ⟨1⟩ ⟨1⟩ 0 {})).state?,
          d.perform 64 (.activate ⟨1⟩ ⟨1⟩ 0 {}) = .done (.resolved false) d₂ ∧ d₂ ≠ d) ∧
        (∃ d₃ ∈ (d.perform 64 .startTurn).state?,
          d.perform 64 .startTurn = .done (.count 0) d₃ ∧ d₃ ≠ d) ∧
        randomTargets (d.answering .turnStarted (fun _ => true) ⟨1⟩) = 1)
      (by decide +kernel)
  obtain ⟨hdispatch, hactivate, hturn, hidles⟩ := unresolved_idles d 64
  refine ⟨_, d, d₁, d₂, d₃, h, h₁, h₂, h₃, ⟨hne₁, hne₂, hne₃⟩, ?_, ?_, ?_⟩
  · exact hanswers ▸ hdispatch _ _ _ _ _ _ h₁
  · obtain ⟨spec, a, -, -, hd₂⟩ := hactivate _ _ _ _ _ h₂
    exact hd₂.mono (by split <;> omega)
  · obtain ⟨visited, -, -, hd₃⟩ := hturn _ h₃
    exact (hidles _ _ hd₃).1

end CardDuel
