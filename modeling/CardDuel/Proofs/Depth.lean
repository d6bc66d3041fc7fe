/-
CardDuel.Proofs.Depth — chains of abilities end, and leave no level
behind.

`Play.dispatch` recurses on a number of rounds, and what stops a chain is
the depth that the scene counts. Two facts tie the two together. A call
at a level comes back to the level, however it ends, because every level
that is entered is left again (`dispatch_level`). And since each nested
call lies one level deeper, a call never takes more rounds than there are
levels between its own and the limit, so it does not run out of rounds,
and more rounds change nothing (`dispatch_follows`).

`record_bounded` says this of actions.
-/
import CardDuel.Proofs.InStep

namespace CardDuel

open Engine Play

/-! ## Levels -/

variable {before : List Event}

/-- The scene is at a level, and all calls that the journal has beyond
`before` lay below the limit. -/
structure Scene.AtLevel (before : List Event) (limit level : Nat) (s : Scene) : Prop where
  depth : s.depth = level
  below : ∀ l card kind, .dispatched l card kind ∈ s.journal →
    l < limit ∨ .dispatched l card kind ∈ before

/-- A computation may be refused, but only at the level, and may meet any
fault but that of a recursion cut short. -/
def Exits.atLevel (before : List Event) (limit level : Nat) : Exits where
  refused _ s := s.AtLevel before limit level
  fault cause := cause ≠ .outOfRounds

theorem Scene.AtLevel.enter {limit level : Nat} {s : Scene} (h : s.AtLevel before limit level)
    (hl : level < limit) (card : InstanceId) (kind : TriggerKind) :
    Scene.AtLevel before limit (level + 1)
      ⟨s.duel, .dispatched s.depth card kind :: s.journal, s.depth + 1⟩ where
  depth := congrArg (· + 1) h.depth
  below l card' kind' hm := by
    rcases List.mem_cons.mp hm with heq | hm
    · cases heq; exact .inl (h.depth ▸ hl)
    · exact h.below l card' kind' hm

theorem Scene.AtLevel.leave {limit level : Nat} {s : Scene} (h : s.AtLevel before limit (level + 1)) :
    Scene.AtLevel before limit level { s with depth := s.depth - 1 } where
  depth := by show s.depth - 1 = level; rw [h.depth]; rfl
  below := h.below

/-- A chain comes back to its level if every call does. -/
theorem InStep.level {fire fire' : Dispatch} {α : Type} {m m' : Engine α} {limit level : Nat}
    (h : InStep fire fire' m m')
    (call : ∀ player card kind accepts selection s, s.AtLevel before limit level →
      wp (.atLevel before limit level) (fire player card kind accepts selection)
        (fun _ => Scene.AtLevel before limit level) s) :
    ∀ s, s.AtLevel before limit level →
      wp (.atLevel before limit level) m (fun _ => Scene.AtLevel before limit level) s := by
  refine h.keeps (fun s d hs => ⟨hs.depth, hs.below⟩) (fun s e he hs => ⟨hs.depth, ?_⟩)
    (fun e s hs => hs) (fun cause hc => hc) call
  intro l card kind hm
  rcases List.mem_cons.mp hm with heq | hm
  · exact absurd heq.symm (he l card kind)
  · exact hs.below l card kind hm

/-- A call comes back to its level and does not run out of rounds, if it
is given more rounds than there are levels left. -/
theorem dispatch_level {limit : Nat} :
    ∀ {rounds level : Nat}, 0 < rounds → limit < level + rounds →
      ∀ player card kind accepts selection s, s.AtLevel before limit level →
        wp (.atLevel before limit level) (dispatch limit rounds player card kind accepts selection)
          (fun _ => Scene.AtLevel before limit level) s := by
  intro rounds
  induction rounds with
  | zero => intro level h0; exact absurd h0 (Nat.lt_irrefl 0)
  | succ rounds ih =>
    intro level _ hlt player card kind accepts selection s hs
    simp only [dispatch, wp_bind, wp_depth]
    rw [wp_find]
    split
    · rename_i spec _
      split
      · exact hs
      · rename_i hdeep
        rw [hs.depth] at hdeep
        rw [wp_nested, wp_bind, wp_note]
        -- The body lies one level deeper, and one round fewer is enough there.
        have hinStep : InStep (dispatch limit rounds) (dispatch limit rounds) _ _ :=
          InStep.resolveAll player card selection
            (spec.triggered.filter fun a => a.trigger.kind = kind && accepts a.trigger)
        have body := hinStep.level (@ih (level + 1) (by omega) (by omega)) _
          (hs.enter (by omega) card kind)
        refine wp_exits (X := .atLevel before limit (level + 1)) ?_ (fun _ _ h => h.leave)
          fun _ hc => hc
        exact wp_mono body fun _ _ h => h.leave
    · exact hs

/-! ## Rounds -/

/-- Recursions that run out of rounds. -/
def Cut.rounds : Cut where
  refused _ := False
  fault cause := cause = .outOfRounds

/-- With more rounds and a limit that is not lower a call ends in the same
way, unless it was cut short: it ran out of rounds, or it was stopped at a
limit that is another one now. -/
theorem dispatch_follows (cut : Cut) {limit limit' : Nat} (hrounds : cut.fault .outOfRounds)
    (hle : limit ≤ limit')
    (hlimit : limit = limit' ∨ ∀ kind card, cut.refused (.depthLimit limit kind card)) :
    ∀ {rounds rounds' : Nat}, rounds ≤ rounds' → ∀ player card kind accepts selection s,
      cut.Ends (dispatch limit rounds player card kind accepts selection s) ∨
        dispatch limit' rounds' player card kind accepts selection s =
          dispatch limit rounds player card kind accepts selection s := by
  intro rounds
  induction rounds with
  | zero => intro rounds' _ player card kind accepts selection s; exact .inl hrounds
  | succ rounds ih =>
    intro rounds' hrest player card kind accepts selection s
    obtain ⟨rounds', rfl⟩ : ∃ n, rounds' = n + 1 := ⟨rounds' - 1, by omega⟩
    have body (abilities : List TriggeredAbility) (s : Scene) :=
      (InStep.resolveAll player card selection abilities).follows (@ih rounds' (by omega)) s
    simp only [dispatch, bind_eq, find]
    cases s.duel.specOf card with
    | error e => exact .inr rfl
    | ok spec =>
      dsimp only [depth]
      by_cases hdeep : limit ≤ s.depth
      · rw [if_pos hdeep]
        rcases hlimit with rfl | hrefused
        · rw [if_pos hdeep]
          exact .inr rfl
        · exact .inl (hrefused kind card)
      · rw [if_neg hdeep, if_neg fun h => hdeep (Nat.le_trans hle h)]
        simp only [nested, bind_eq, note]
        rcases body (spec.triggered.filter fun a => a.trigger.kind = kind && accepts a.trigger)
            ⟨s.duel, .dispatched s.depth card kind :: s.journal, s.depth + 1⟩ with h | h
        · exact .inl (h.mapState _)
        · exact .inr (by rw [h])

theorem Cut.rounds_ends_iff {σ α : Type} {o : Outcome σ α} :
    Cut.rounds.Ends o ↔ o = .fault .outOfRounds := by
  cases o with
  | done a s => exact ⟨False.elim, fun h => by cases h⟩
  | refused e s => exact ⟨False.elim, fun h => by cases h⟩
  | fault cause => exact ⟨fun h => congrArg _ h, fun h => by cases h; rfl⟩

theorem ne_outOfRounds_of_wp {α : Type} {m : Engine α} {limit level : Nat}
    {Q : α → Scene → Prop} {s : Scene} (h : wp (.atLevel before limit level) m Q s) :
    m s ≠ .fault .outOfRounds := by
  intro hm
  unfold wp at h
  rw [hm] at h
  exact h rfl

/-! ## Actions -/

/-- Actions, done or refused, lead from one game to another. -/
inductive Game.Leads : Game → Game → Prop where
  | refl (g : Game) : Leads g g
  | step {g g' g'' : Game} (a : Action) (h : (g.perform a).state? = some g')
      (rest : Leads g' g'') : Leads g g''

/-- An action ends at the level at which it began, with every call below
the limit. -/
theorem record_level (g : Game) (a : Action) {rounds : Nat} (h : g.limit < rounds) :
    wp (.atLevel [] g.limit g.depth) (a.run (dispatch g.limit rounds))
      (fun _ => Scene.AtLevel [] g.limit g.depth) ⟨g.duel, [], g.depth⟩ := by
  have hinStep : InStep (dispatch g.limit rounds) (dispatch g.limit rounds) _ _ := InStep.run a
  exact hinStep.level (dispatch_level (by omega) (by omega)) _ ⟨rfl, by simp⟩

theorem atLevel_of_record {g : Game} {a : Action} {s : Scene}
    (hs : (g.record a).state? = some s) : s.AtLevel [] g.limit g.depth := by
  rcases wp_state (record_level g a (Nat.lt_succ_self _)) hs with ⟨_, hl⟩ | ⟨_, hl⟩ <;> exact hl

theorem perform_rest {g g' : Game} {a : Action} (h : (g.perform a).state? = some g') :
    g'.depth = g.depth ∧ g'.limit = g.limit := by
  simp only [Game.perform, Outcome.state?_mapState, Option.map_eq_some_iff] at h
  obtain ⟨s, hs, rfl⟩ := h
  exact ⟨(atLevel_of_record hs).depth, rfl⟩

theorem Game.Leads.rest {g g' : Game} (h : g.Leads g') :
    g'.depth = g.depth ∧ g'.limit = g.limit := by
  induction h with
  | refl g => exact ⟨rfl, rfl⟩
  | step a hs _ ih =>
    obtain ⟨hdepth, hlimit⟩ := perform_rest hs
    exact ⟨ih.1.trans hdepth, ih.2.trans hlimit⟩

theorem run_rounds (g : Game) (a : Action) {rounds : Nat} (h : g.limit < rounds) :
    a.run (dispatch g.limit rounds) ⟨g.duel, [], g.depth⟩ = g.record a := by
  rcases (InStep.run a).follows (dispatch_follows .rounds rfl (Nat.le_refl _) (.inl rfl) h)
      ⟨g.duel, [], g.depth⟩ with hcut | heq
  · exact absurd (Cut.rounds_ends_iff.mp hcut)
      (ne_outOfRounds_of_wp (record_level g a (Nat.lt_succ_self _)))
  · exact heq

/-- A call at the limit does nothing. -/
theorem dispatch_at_limit {limit rounds : Nat} {s : Scene} (h0 : 0 < rounds) (h : limit ≤ s.depth)
    (player : PlayerId) (card : InstanceId) (kind : TriggerKind) (accepts : Trigger → Bool)
    (selection : Selection) :
    ∃ e, dispatch limit rounds player card kind accepts selection s = .refused e s := by
  obtain ⟨n, rfl⟩ : ∃ n, rounds = n + 1 := ⟨rounds - 1, by omega⟩
  simp only [dispatch, bind_eq, find]
  cases s.duel.specOf card with
  | error e => exact ⟨_, rfl⟩
  | ok spec =>
    simp only [depth, if_pos h]
    exact ⟨_, rfl⟩

/-- **Chains are bounded.** An action on a game, whatever its limit, does
not run out of rounds, and every larger number of rounds gives the same
outcome; every call that it makes lies below the limit; and when it is
done, and when it is refused, no call is left under way, so a later
action finds the levels that the first one found. The same holds of each
call inside a chain, and a call at the limit does nothing. -/
theorem record_bounded (g : Game) (a : Action) :
    (g.record a ≠ .fault .outOfRounds ∧
      ∀ rounds, g.limit < rounds →
        a.run (dispatch g.limit rounds) ⟨g.duel, [], g.depth⟩ = g.record a) ∧
    (∀ s, (g.record a).state? = some s →
      s.depth = g.depth ∧
        ∀ level card kind, .dispatched level card kind ∈ s.journal → level < g.limit) ∧
    (∀ g', g.Leads g' → g'.depth = g.depth ∧ g'.limit = g.limit) ∧
    (∀ limit rounds player card kind accepts selection s,
      0 < rounds → limit < s.depth + rounds →
        dispatch limit rounds player card kind accepts selection s ≠ .fault .outOfRounds ∧
        (∀ s', (dispatch limit rounds player card kind accepts selection s).state? = some s' →
          s'.depth = s.depth) ∧
        (limit ≤ s.depth →
          ∃ e, dispatch limit rounds player card kind accepts selection s = .refused e s)) := by
  refine ⟨⟨ne_outOfRounds_of_wp (record_level g a (Nat.lt_succ_self _)), fun rounds h =>
    run_rounds g a h⟩, fun s hs => ?_, fun g' h => h.rest, ?_⟩
  · have hl := atLevel_of_record hs
    refine ⟨hl.depth, fun level card kind hm => ?_⟩
    rcases hl.below level card kind hm with hlt | hnil
    · exact hlt
    · cases hnil
  · intro limit rounds player card kind accepts selection s h0 hlt
    have hs : s.AtLevel s.journal limit s.depth := ⟨rfl, fun _ _ _ hm => .inr hm⟩
    have call := dispatch_level h0 hlt player card kind accepts selection s hs
    refine ⟨ne_outOfRounds_of_wp call, fun s' hs' => ?_,
      fun hlim => dispatch_at_limit h0 hlim player card kind accepts selection⟩
    rcases wp_state call hs' with ⟨_, hl⟩ | ⟨_, hl⟩ <;> exact hl.depth

end CardDuel
