/-
CardDuel.Proofs.Refusal — an action is refused before it acts, or at the
depth limit.

The look-ups of an action itself come before everything else it does, and
those inside a chain succeed, because validation and the actions keep
whatever a chain refers to in place. So when the caller is told that
something does not exist, nothing has happened; and a chain that has
begun can only be cut off by the depth limit.
-/
import CardDuel.Catalog.Starter
import CardDuel.Proofs.Reached

namespace CardDuel

open Engine Play

/-- In a sound duel, a call on a card in play is refused at the depth
limit only. -/
theorem Duel.Sound.call_refused {limit rounds : Nat} {player : PlayerId} {id : InstanceId}
    {kind : TriggerKind} {accepts : Trigger → Bool} {selection : Selection} {s s' : Scene}
    {c : Card} {e : DuelError} (hs : s.duel.Sound) (hc : s.duel.card id = .ok c)
    (h : dispatch limit rounds player id kind accepts selection s = .refused e s') :
    ∃ kind card, e = .depthLimit limit kind card := by
  have hknown : (s.duel.fixture.tag? id).isSome := by
    rw [Duel.tag?_eq_some_iff.mpr ⟨c, hc, rfl⟩]
    rfl
  have hcall := (@upkeep_atLimit limit _ hs.fixture).keeps_dispatch rounds () player id kind accepts
    selection s hknown ⟨rfl, hs.laid, trivial⟩
  unfold wp at hcall
  rw [h] at hcall
  exact hcall

/-- **What is refused for a look-up has not begun.** If an action on a
duel that is reached is refused, then either something that the caller
named does not exist, and the duel is the one from before, or a chain has
come to the depth limit. No other error occurs; and of a call on a card
in play, with which every link of a chain begins, only the second kind
does, wherever in a sound duel the call is made. -/
theorem refused_unchanged {log : List Action} {d : Duel} (h : Reached log d) (limit : Nat) :
    (∀ a e d', d.perform limit a = .refused e d' →
      (((∃ cause, e = .lookup cause) ∨ ∃ card index count, e = .abilityIndex card index count) ∧
        d' = d) ∨ ∃ kind card, e = .depthLimit limit kind card) ∧
    (∀ rounds player id kind accepts selection s s' c e, s.duel.Sound → s.duel.card id = .ok c →
      dispatch limit rounds player id kind accepts selection s = .refused e s' →
        ∃ kind card, e = .depthLimit limit kind card) := by
  refine ⟨fun a e d' hrefused => ?_, fun _ _ _ _ _ _ _ _ _ _ hs hc hcall =>
    hs.call_refused hc hcall⟩
  rcases h.sound.perform_refused hrefused with hearly | ⟨hlimit, -, -⟩
  · exact .inl hearly
  · exact .inr hlimit

/-- A card that does not exist is moved: the action is refused, because
the card is not found, and the duel is the one from before. -/
theorem unknown_card_unchanged :
    ∃ d d', Duel.start (Starter.catalog {}) 7 ⟨⟨1⟩, [⟨1⟩, ⟨2⟩]⟩ ⟨⟨2⟩, [⟨1⟩]⟩ = .ok d ∧
      d.perform 64 (.move ⟨1⟩ ⟨9⟩ Starter.deck Starter.board {}) =
        .refused (.lookup (.cardNotFound ⟨9⟩)) d' ∧ d' = d := by
  obtain ⟨d, d', hstart, hrefused⟩ :
      ∃ d d', Duel.start (Starter.catalog {}) 7 ⟨⟨1⟩, [⟨1⟩, ⟨2⟩]⟩ ⟨⟨2⟩, [⟨1⟩]⟩ = .ok d ∧
        d.perform 64 (.move ⟨1⟩ ⟨9⟩ Starter.deck Starter.board {}) =
          .refused (.lookup (.cardNotFound ⟨9⟩)) d' :=
    ⟨_, _, rfl, rfl⟩
  refine ⟨d, d', hstart, hrefused, ?_⟩
  rcases (refused_unchanged (.start hstart) 64).1 _ _ d' hrefused with ⟨-, hsame⟩ | ⟨_, _, hlimit⟩
  · exact hsame
  · cases hlimit

end CardDuel
