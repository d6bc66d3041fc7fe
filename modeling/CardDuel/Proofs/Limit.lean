/-
CardDuel.Proofs.Limit — the depth limit cuts chains off and does nothing
else.

Two copies of a duel may run with different depth limits. A chain asks
for the limit in one place only, and the refusal that it gets there ends
the whole action, since nothing in a chain takes a refusal for an answer.
So an action that is not cut off at its limit does the same under every
higher limit, step by step, and by induction so does a list of actions.
-/
import CardDuel.Catalog.Starter
import CardDuel.Proofs.Depth
import CardDuel.Proofs.Reached

namespace CardDuel

open Engine Play

/-! ## Cut off -/

/-- The outcome is a refusal at the depth limit. -/
def Outcome.CutOff {σ α : Type} (limit : Nat) (o : Outcome σ α) : Prop :=
  ∃ kind card state, o = .refused (.depthLimit limit kind card) state

theorem Outcome.CutOff.mapState {σ τ α : Type} {limit : Nat} {o : Outcome σ α} (f : σ → τ)
    (h : o.CutOff limit) : (o.mapState f).CutOff limit := by
  obtain ⟨kind, card, state, rfl⟩ := h
  exact ⟨kind, card, f state, rfl⟩

/-- Chains that reach the limit, and recursions that run out of rounds. -/
def Cut.limit (limit : Nat) : Cut where
  refused e := ∃ kind card, e = .depthLimit limit kind card
  fault cause := cause = .outOfRounds

theorem Cut.limit_ends_iff {σ α : Type} {limit : Nat} {o : Outcome σ α} :
    (Cut.limit limit).Ends o ↔ o.CutOff limit ∨ o = .fault .outOfRounds := by
  cases o with
  | done a s => simp [Cut.Ends, Outcome.CutOff]
  | refused e s => simp [Cut.Ends, Cut.limit, Outcome.CutOff]
  | fault cause => simp [Cut.Ends, Cut.limit, Outcome.CutOff]

/-! ## Single actions -/

/-- An action on a game is cut off, or does the same under every limit
that is not lower. -/
theorem record_follows (g : Game) (a : Action) {limit : Nat} (h : g.limit ≤ limit) :
    (g.record a).CutOff g.limit ∨ Game.record a { g with limit } = g.record a := by
  have hrounds : g.limit + 1 ≤ limit + 1 := by omega
  have hcut : ∀ kind card, (Cut.limit g.limit).refused (.depthLimit g.limit kind card) := by
    intro kind card
    exact ⟨kind, card, rfl⟩
  rcases (InStep.run a).follows (dispatch_follows (.limit g.limit) rfl h (.inr hcut) hrounds)
      ⟨g.duel, [], g.depth⟩ with hends | heq
  · rcases Cut.limit_ends_iff.mp hends with hoff | hfault
    · exact .inl hoff
    · exact absurd hfault (ne_outOfRounds_of_wp (record_level g a (Nat.lt_succ_self _)))
  · exact .inr heq

namespace Duel

variable {d : Duel} {a : Action} {n m : Nat}

theorem record_of_not_cutOff (h : n ≤ m) (hoff : ¬ (d.perform n a).CutOff n) :
    d.record m a = d.record n a := by
  rcases record_follows { duel := d, limit := n } a h with hcut | heq
  · exact absurd (hcut.mapState Scene.duel) hoff
  · exact heq

theorem perform_of_not_cutOff (h : n ≤ m) (hoff : ¬ (d.perform n a).CutOff n) :
    d.perform m a = d.perform n a :=
  congrArg (Outcome.mapState Scene.duel) (record_of_not_cutOff h hoff)

/-- An action that calls up abilities at a level is cut off under a limit
that is not above the level. -/
theorem cutOff_of_level {s : Scene} {level : Nat} {card : InstanceId} {kind : TriggerKind}
    (h : n ≤ m) (hs : (d.record m a).state? = some s)
    (hmem : .dispatched level card kind ∈ s.journal) (hlevel : n ≤ level) :
    (d.perform n a).CutOff n := by
  by_contra hoff
  -- Otherwise the same calls are made under the lower limit, all of them below it.
  rw [record_of_not_cutOff h hoff] at hs
  rcases (atLevel_of_record hs).below level card kind hmem with hbelow | hnil
  · exact absurd hbelow (Nat.not_lt_of_le hlevel)
  · cases hnil

/-! ## Lists of actions -/

/-- The outcomes of actions, one after the other. An action that is
refused hands on the duel that it leaves; after a fault there is none. -/
def outcomes (limit : Nat) : List Action → Duel → List (Outcome Duel Reply)
  | [], _ => []
  | a :: rest, d =>
    d.perform limit a ::
      match (d.perform limit a).state? with
      | some d' => d'.outcomes limit rest
      | none => []

theorem outcomes_of_not_cutOff (h : n ≤ m) :
    ∀ (actions : List Action) (d : Duel), (∀ o ∈ d.outcomes n actions, ¬ o.CutOff n) →
      d.outcomes m actions = d.outcomes n actions := by
  intro actions
  induction actions with
  | nil => intro d _; rfl
  | cons a rest ih =>
    intro d hoff
    simp only [outcomes, List.mem_cons, forall_eq_or_imp] at hoff ⊢
    obtain ⟨hfirst, hrest⟩ := hoff
    rw [perform_of_not_cutOff h hfirst]
    cases hd : (d.perform n a).state? with
    | none => rfl
    | some d' =>
      rw [hd] at hrest
      exact congrArg _ (ih d' hrest)

end Duel

/-- **The depth limit only cuts.** An action that is done under a limit is
done under every higher one, with the same reply and the same duel after
it; a list of actions of which none is cut off has the same outcomes,
those of actions that are refused or fail included; and a refusal at the
limit is not lost on its way out of a chain: an action which, under the
higher limit, calls up abilities at the lower one or above is cut off
under the lower. -/
theorem limit_only_cuts {n m : Nat} (h : n ≤ m) (d : Duel) :
    (∀ a reply d', d.perform n a = .done reply d' → d.perform m a = .done reply d') ∧
    (∀ actions, (∀ o ∈ d.outcomes n actions, ¬ o.CutOff n) →
      d.outcomes m actions = d.outcomes n actions) ∧
    (∀ a s level card kind, (d.record m a).state? = some s →
      .dispatched level card kind ∈ s.journal → n ≤ level → (d.perform n a).CutOff n) := by
  refine ⟨fun a reply d' hdone => ?_, fun actions => Duel.outcomes_of_not_cutOff h actions d,
    fun a s level card kind => Duel.cutOff_of_level h⟩
  have hoff : ¬ (d.perform n a).CutOff n := by
    intro hcut
    obtain ⟨kind, card, state, hrefused⟩ := hcut
    rw [hdone] at hrefused
    cases hrefused
  rw [Duel.perform_of_not_cutOff h hoff, hdone]

/-- A spell is played: one level is enough for it, so 64 levels give the
same duel, and with no level at all it is cut off. -/
theorem spell_at_three_limits :
    ∃ d d', Reached [] d ∧
      d.perform 1 (.move ⟨1⟩ ⟨2⟩ Starter.deck Starter.board {}) = .done .nothing d' ∧ d' ≠ d ∧
      d.perform 64 (.move ⟨1⟩ ⟨2⟩ Starter.deck Starter.board {}) = .done .nothing d' ∧
      (d.perform 0 (.move ⟨1⟩ ⟨2⟩ Starter.deck Starter.board {})).CutOff 0 := by
  obtain ⟨d, h, d', -, hdone, hne, s, hs, hmem⟩ :=
    @Reached.exists_of_performAll 0 (Starter.catalog {}) 7 ⟨⟨1⟩, [⟨1⟩, ⟨2⟩]⟩ ⟨⟨2⟩, [⟨1⟩]⟩ []
      (fun d =>
        ∃ d' ∈ (d.perform 1 (.move ⟨1⟩ ⟨2⟩ Starter.deck Starter.board {})).state?,
          d.perform 1 (.move ⟨1⟩ ⟨2⟩ Starter.deck Starter.board {}) = .done .nothing d' ∧ d' ≠ d ∧
          ∃ s ∈ (d.record 1 (.move ⟨1⟩ ⟨2⟩ Starter.deck Starter.board {})).state?,
            .dispatched 0 ⟨2⟩ .cardLeft ∈ s.journal)
      (by decide +kernel)
  exact ⟨d, d', h, hdone, hne, (limit_only_cuts (by decide) d).1 _ _ _ hdone,
    (limit_only_cuts (by decide) d).2.2 _ s 0 _ _ hs hmem (by decide)⟩

end CardDuel
