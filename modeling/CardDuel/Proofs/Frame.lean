/-
CardDuel.Proofs.Frame — what actions never touch.

An action moves cards, writes values of stats and draws from the
generator, whatever chains it sets off and wherever they are cut off. All
else of a duel outlasts it: the catalog, the seats with their zones, the
cards with their prints, types and owners, which stats each bearer has,
and the seed of the generator. Two things change, each by one action
only: creating a card adds it after the others, and setting the current
player changes whose turn it is. Actions that call up no abilities leave
values of stats and the generator alone, too.

  §1 The generator   — draws keep its seed and count up.
  §2 Seats and cards — `Duel.Keeps`, and why it holds after an action.
  §3 Fixtures        — which action changes which part.
  §4 Still actions   — those that write no stat and draw nothing.
-/
import CardDuel.Proofs.Registrations

namespace CardDuel

open Engine Play

/-! ## §1 The generator -/

/-- The second generator comes later in the stream of the same seed, or is
the first one. -/
structure Random.Generator.Precedes (g g' : Random.Generator) : Prop where
  seed : g'.seed = g.seed
  calls : g.calls ≤ g'.calls

namespace Random.Generator

variable {g g' : Generator}

theorem Precedes.trans {g'' : Generator} (h : g.Precedes g') (h' : g'.Precedes g'') :
    g.Precedes g'' :=
  ⟨h'.seed.trans h.seed, Nat.le_trans h.calls h'.calls⟩

theorem precedes_range (low high : Points) : g.Precedes (g.range low high).2 := by
  unfold range
  split
  · exact ⟨rfl, Nat.le_refl _⟩
  · exact ⟨rfl, Nat.le_succ _⟩

theorem Draws.precedes (h : g.Draws g') : g.Precedes g' := by
  cases h with
  | amount a =>
    cases a with
    | constant value => exact ⟨rfl, Nat.le_refl _⟩
    | random low high => exact precedes_range low high
  | place length =>
    unfold index?
    split
    · exact ⟨rfl, Nat.le_refl _⟩
    · split
      · exact precedes_range 0 _
      · exact ⟨rfl, Nat.le_refl _⟩

end Random.Generator

theorem ledger_precedes (g : Random.Generator) :
    Ledger (fun (_ : Unit) B => g.Precedes B.generator) fun _ _ _ i => i where
  draw h hg := h.trans hg.precedes
  call _ _ _ h := h
  write h _ _ _ := h
  swap h := h
  tell h := h
  extend h _ := h

namespace Duel

variable {d d' : Duel} {limit : Nat} {a : Action}

theorem Sound.precedes_of_state (hd : d.Sound) (hd' : (d.perform limit a).state? = some d') :
    d.generator.Precedes d'.generator := by
  have hrun : wp (.books fun B => d.generator.Precedes B.generator)
      (a.run (dispatch limit (limit + 1))) (fun _ s => d.generator.Precedes s.duel.generator)
      ⟨d, [], 0⟩ :=
    (ledger_precedes d.generator).wp_run (i := ()) id hd (fun _ _ _ _ _ _ _ h _ _ => h)
      ⟨rfl, Nat.le_refl _⟩
  obtain ⟨s, rfl, ⟨_, hs⟩ | ⟨_, hs⟩⟩ := state_of_wp hrun hd'
  · exact hs
  · exact hs

end Duel

/-! ## §2 Seats and cards -/

theorem Stat.Alike.symm {s s' : Stat} (h : s.Alike s') : s'.Alike s :=
  ⟨h.name.symm, h.low.symm, h.high.symm⟩

theorem StatBlock.Alike.symm {b b' : StatBlock} (h : b.Alike b') : b'.Alike b :=
  List.Forall₂.flip (h.imp fun _ _ hs => hs.symm)

/-- The second seat is the first one with other cards in its zones and
other values of its stats. -/
structure Seat.Keeps (s s' : Seat) : Prop where
  id : s'.id = s.id
  zones : s'.zones.map Zone.spec = s.zones.map Zone.spec
  stats : s.stats.Alike s'.stats

/-- The second card is the first one with other values of its stats. -/
structure Card.Keeps (c c' : Card) : Prop where
  tag : c'.tag = c.tag
  stats : c.stats.Alike c'.stats

/-- The second duel has all that lasts of the first one, and after the
cards of the first one those of `new`. -/
structure Duel.Keeps (d : Duel) (new : List Card) (d' : Duel) : Prop where
  catalog : d'.catalog = d.catalog
  first : d.first.Keeps d'.first
  second : d.second.Keeps d'.second
  cards : ∃ kept, d'.cards = kept ++ new ∧ List.Forall₂ Card.Keeps d.cards kept
  nextInstance : d'.nextInstance = ⟨d.nextInstance.number + new.length⟩
  generator : d.generator.Precedes d'.generator

/-- What is declared of a bearer at two times is the same, so its blocks
are alike. -/
theorem Fixture.Grows.alike {φ φ' : Fixture} {b : Bearer} {block block' : StatBlock}
    (hgrows : φ.Grows φ') (h : φ.Declares b block) (h' : φ'.Declares b block') :
    block.Alike block' := by
  obtain ⟨declared, hdeclared, halike⟩ := h
  obtain ⟨declared', hdeclared', halike'⟩ := h'
  cases (hgrows.declared? hdeclared).symm.trans hdeclared'
  exact halike.symm.trans halike'

namespace Duel

variable {d d' : Duel}

theorem Declared.of_seat {s : Seat} (h : d.Declared) (hd : d.Sound) (hs : s ∈ d.seats) :
    d.fixture.Declares (.player s.id) s.stats := by
  have hseat : d.seat s.id = .ok s := by
    have hne : d.first.id ≠ d.second.id := hd.fixture.distinct
    simp only [seats, List.mem_cons, List.not_mem_nil, or_false] at hs
    rcases hs with rfl | rfl
    · simp [seat]
    · simp [seat, hne]
  exact h _ _ (by simp [stats, hseat, Except.map])

theorem Declared.of_card {c : Card} (h : d.Declared) (hd : d.Sound) (hc : c ∈ d.cards) :
    d.fixture.Declares (.card c.id) c.stats :=
  h _ _ (stats_card (hd.card_of_mem hc))

variable (hd : d.Sound) (hd' : d'.Sound) (h : d.Declared) (h' : d'.Declared)
variable (hgrows : d.fixture.Grows d'.fixture)
include hd hd' h h' hgrows

/-- While the fixture grows, a seat keeps its zones and stats. -/
theorem keeps_of_seat {s s' : Seat} (hs : s ∈ d.seats) (hs' : s' ∈ d'.seats) (hid : s'.id = s.id) :
    s.Keeps s' where
  id := hid
  zones := by
    rw [hd.laid.zones s hs, hd'.laid.zones s' hs']
    exact congrArg Catalog.zones hgrows.catalog
  stats := hgrows.alike (h.of_seat hd hs) (hid ▸ h'.of_seat hd' hs')

/-- While the fixture grows, the cards are kept in their places. -/
theorem keeps_of_cards :
    List.Forall₂ Card.Keeps d.cards (d'.cards.take d.cards.length) := by
  -- The fixture has the tags of the cards in order, and those of later cards after them.
  have htags : d.cards.map Card.tag = (d'.cards.take d.cards.length).map Card.tag := by
    have hprefix : d.cards.map Card.tag <+: d'.cards.map Card.tag := hgrows.cards
    rw [List.map_take]
    simpa using List.prefix_iff_eq_take.mp hprefix
  have hpairs : List.Forall₂ (fun c c' => c.tag = c'.tag) d.cards
      (d'.cards.take d.cards.length) := by
    rw [← List.forall₂_eq_eq_eq, List.forall₂_map_left_iff, List.forall₂_map_right_iff] at htags
    exact htags
  rw [List.forall₂_iff_zip] at hpairs ⊢
  refine ⟨hpairs.1, fun {c c'} hmem => ?_⟩
  have htag : c'.tag = c.tag := (hpairs.2 hmem).symm
  have hid : c'.id = c.id := congrArg CardTag.id htag
  obtain ⟨hc, hc'⟩ := List.of_mem_zip hmem
  exact ⟨htag, hgrows.alike (h.of_card hd hc) (hid ▸ h'.of_card hd' (List.mem_of_mem_take hc'))⟩

end Duel

/-! ## §3 Fixtures -/

namespace Fixture

variable {φ φ' : Fixture} {a : Action}

/-- Only an action that creates a card adds one. -/
theorem Follows.cards_eq (h : φ.Follows a φ') (ha : ∀ owner card place, a ≠ .create owner card place) :
    φ'.cards = φ.cards := by
  cases a with
  | setCurrent player => obtain ⟨-, rfl⟩ := h; rfl
  | create owner card place => exact absurd rfl (ha owner card place)
  | watchPlayer player => obtain ⟨_, -, hreg⟩ := h; exact hreg.cards_eq
  | watchCard card => obtain ⟨_, _, -, hreg⟩ := h; exact hreg.cards_eq
  | watchDestroy card => obtain ⟨_, -, hreg⟩ := h; exact hreg.cards_eq
  | _ => cases h; rfl

/-- Only an action that sets the current player changes whose turn it is. -/
theorem Follows.current_eq (h : φ.Follows a φ') (ha : ∀ player, a ≠ .setCurrent player) :
    φ'.current = φ.current := by
  cases a with
  | setCurrent player => exact absurd rfl (ha player)
  | create owner card place => obtain ⟨spec, -, -, rfl⟩ := h; rfl
  | watchPlayer player => obtain ⟨_, -, _, rfl, -⟩ := h; rfl
  | watchCard card => obtain ⟨_, _, -, _, rfl, -⟩ := h; rfl
  | watchDestroy card => obtain ⟨_, -, _, rfl, -⟩ := h; rfl
  | _ => cases h; rfl

end Fixture

/-- The action is to create a card, and is done. -/
def Action.CreatesIn (a : Action) (o : Outcome Duel Reply) : Prop :=
  (∃ owner card place, a = .create owner card place) ∧ ∃ reply d', o = .done reply d'

namespace Duel.Sound

variable {d d' : Duel} {limit : Nat} {a : Action} (hd : d.Sound)
include hd

theorem current_of_state (hd' : (d.perform limit a).state? = some d')
    (ha : ∀ player, a ≠ .setCurrent player) : d'.current = d.current := by
  rcases hd.fixture_of_state hd' with ⟨-, hfollows⟩ | ⟨-, hfixture⟩
  · exact hfollows.current_eq ha
  · exact congrArg Fixture.current hfixture

/-- A card is new after an action if the action is to create one and is
done, and only then. -/
theorem length_of_state (hd' : (d.perform limit a).state? = some d') :
    a.CreatesIn (d.perform limit a) ∧ d'.cards.length = d.cards.length + 1 ∨
      ¬ a.CreatesIn (d.perform limit a) ∧ d'.cards.length = d.cards.length := by
  have hlength (d : Duel) : d.cards.length = d.fixture.cards.length := (List.length_map _).symm
  rw [hlength, hlength]
  rcases hd.fixture_of_state hd' with ⟨⟨reply, hdone⟩, hfollows⟩ | ⟨⟨e, hrefused⟩, hfixture⟩
  · by_cases ha : ∃ owner card place, a = .create owner card place
    · refine .inl ⟨⟨ha, reply, d', hdone⟩, ?_⟩
      obtain ⟨owner, card, place, rfl⟩ := ha
      obtain ⟨spec, -, -, hφ⟩ := hfollows
      rw [hφ]
      simp [Fixture.extend]
    · refine .inr ⟨fun h => ha h.1, ?_⟩
      rw [hfollows.cards_eq fun owner card place heq => ha ⟨owner, card, place, heq⟩]
  · refine .inr ⟨fun h => ?_, by rw [hfixture]⟩
    obtain ⟨-, reply, d₁, hdone⟩ := h
    cases hrefused.symm.trans hdone

theorem next_eq : d.nextInstance = ⟨d.cards.length + 1⟩ := by
  have hnext : d.nextInstance = ⟨(d.cards.map Card.tag).length + 1⟩ := hd.fixture.next
  rw [hnext, List.length_map]

/-- After an action a duel has all that lasts of it, and the cards that
are new come after the others. -/
theorem keeps_of_state (h : d.Declared) (hd' : (d.perform limit a).state? = some d') :
    d.Keeps (d'.cards.drop d.cards.length) d' := by
  have hsound : d'.Sound := (hd.sound_of_state hd').1
  have hdeclared : d'.Declared := hd.declared_of_state h hd'
  have hgrows : d.fixture.Grows d'.fixture := hd.grows_of_state hd'
  have hplayers : [d'.first.id, d'.second.id] = [d.first.id, d.second.id] := hgrows.players
  simp only [List.cons.injEq, and_true] at hplayers
  refine
    { catalog := hgrows.catalog
      first := keeps_of_seat hd hsound h hdeclared hgrows List.mem_cons_self List.mem_cons_self
        hplayers.1
      second := keeps_of_seat hd hsound h hdeclared hgrows (by simp [seats]) (by simp [seats])
        hplayers.2
      cards := ⟨_, (List.take_append_drop _ _).symm,
        keeps_of_cards hd hsound h hdeclared hgrows⟩
      nextInstance := ?_
      generator := hd.precedes_of_state hd' }
  rw [hd.next_eq, hsound.next_eq, List.length_drop]
  refine congrArg InstanceId.mk ?_
  show d'.cards.length + 1 = d.cards.length + 1 + (d'.cards.length - d.cards.length)
  rcases hd.length_of_state hd' with ⟨-, hlength⟩ | ⟨-, hlength⟩ <;> omega

end Duel.Sound

/-! ## §4 Still actions -/

/-- The action calls up no abilities. -/
def Action.still : Action → Bool
  | setCurrent _ | draw _ _ | create _ _ _ => true
  | a => a.registers

/-- A still action leaves the generator and the stats of every bearer. -/
theorem Duel.Sound.still_of_state {d d' : Duel} {limit : Nat} {a : Action} (hd : d.Sound)
    (ha : a.still) (hd' : (d.perform limit a).state? = some d') :
    d'.generator = d.generator ∧ ∀ b block, d.stats b = .ok block → d'.stats b = .ok block := by
  let Q (d' : Duel) : Prop :=
    d'.generator = d.generator ∧ ∀ b block, d.stats b = .ok block → d'.stats b = .ok block
  have hkept (d' : Duel) (hstats : d'.stats = d.stats) (hgenerator : d'.generator = d.generator) :
      Q d' :=
    ⟨hgenerator, fun b block hb => hstats ▸ hb⟩
  have early : Exits.Early ⟨fun _ s => Q s.duel, fun _ => True⟩ ⟨d, [], 0⟩ :=
    ⟨fun _ => hkept d rfl rfl, fun _ _ _ => hkept d rfl rfl⟩
  have hreg {d' : Duel} {new : Registration → Prop} (hreg : d.Registers d' new) : Q d' :=
    hkept d' hreg.stats_eq.1 hreg.stats_eq.2
  have hrun : wp ⟨fun _ s => Q s.duel, fun _ => True⟩ (a.run (dispatch limit (limit + 1)))
      (fun _ s => Q s.duel) ⟨d, [], 0⟩ := by
    cases a with
    | setCurrent player =>
      exact wp_map.mpr (wp_setCurrent early fun _ => hkept _ (stats_congr rfl rfl) rfl)
    | create owner card place =>
      refine wp_map.mpr (wp_create early fun id d' hcreate => ?_)
      obtain ⟨hstats, hgenerator⟩ := stats_create hcreate
      exact ⟨hgenerator, hstats.kept⟩
    | watchPlayer player => exact wp_map.mpr (wp_watchPlayer early fun d' _ _ h' => hreg h')
    | watchCard card => exact wp_map.mpr (wp_watchCard early fun d' _ _ _ h' => hreg h')
    | watchDestroy card => exact wp_map.mpr (wp_watchDestroy early fun d' _ _ h' => hreg h')
    | draw player count =>
      have hs : Standing d.fixture
          (fun s => s.duel.stats = d.stats ∧ s.duel.generator = d.generator) ⟨d, [], 0⟩ :=
        ⟨rfl, hd.laid, rfl, rfl⟩
      have hdraw := wp_drawCards (I := fun _ s => s.duel.stats = d.stats ∧
        s.duel.generator = d.generator) player count hd.fixture early (fun _ => trivial)
        (fun n s z card hs' _ _ => by
          rw [stats_drawn, generator_drawn]
          exact hs'.holds) hs
      exact wp_map.mpr (wp_mono hdraw fun _ s' ⟨_, hs'⟩ => hkept _ hs'.holds.1 hs'.holds.2)
    | _ => cases ha
  obtain ⟨s, rfl, ⟨_, hs⟩ | ⟨_, hs⟩⟩ := state_of_wp hrun hd'
  · exact hs
  · exact hs

/-- **What actions never touch.** After any action on a duel that is
reached, done or refused, in the midst of whatever chain, the duel has
the catalog, the seats, the zones and the cards that it had, every bearer
the same stats with the same names and bounds, and the generator its
seed. There is a card more, one, if the action was to create a card and
was done, and otherwise there is none; the player whose turn it is
changes only where the action is to change that; and a still action
writes no stat and draws nothing. -/
theorem actions_keep_rest {log : List Action} {d d' : Duel} (h : Reached log d) {limit : Nat}
    {a : Action} (hd' : (d.perform limit a).state? = some d') :
    (∃ new, d.Keeps new d' ∧
      (a.CreatesIn (d.perform limit a) ∧ new.length = 1 ∨
        ¬ a.CreatesIn (d.perform limit a) ∧ new = [])) ∧
    ((∀ player, a ≠ .setCurrent player) → d'.current = d.current) ∧
    (a.still → d'.generator = d.generator ∧
      ∀ b block, d.stats b = .ok block → d'.stats b = .ok block) := by
  have hd := h.sound
  refine ⟨⟨_, hd.keeps_of_state h.declared hd', ?_⟩, hd.current_of_state hd',
    fun ha => hd.still_of_state ha hd'⟩
  rcases hd.length_of_state hd' with ⟨hcreates, hlength⟩ | ⟨hcreates, hlength⟩
  · exact .inl ⟨hcreates, by rw [List.length_drop]; omega⟩
  · exact .inr ⟨hcreates, List.drop_eq_nil_of_le (Nat.le_of_eq hlength)⟩

/-- A spell is played and its chain is cut off: the card lies elsewhere,
and the rest is as before. -/
theorem rest_of_cut_off_move :
    ∃ d d', Reached [] d ∧
      (d.perform 0 (.move ⟨1⟩ ⟨2⟩ Starter.deck Starter.board {})).state? = some d' ∧ d' ≠ d ∧
      d.Keeps [] d' ∧ d'.current = d.current := by
  obtain ⟨d, h, d', hd', hne⟩ :=
    @Reached.exists_of_performAll 0 (Starter.catalog {}) 7 ⟨⟨1⟩, [⟨1⟩, ⟨2⟩]⟩ ⟨⟨2⟩, [⟨1⟩]⟩ []
      (fun d =>
        ∃ d' ∈ (d.perform 0 (.move ⟨1⟩ ⟨2⟩ Starter.deck Starter.board {})).state?, d' ≠ d)
      (by decide +kernel)
  obtain ⟨⟨new, hkeeps, hnew⟩, hcurrent, -⟩ := actions_keep_rest h hd'
  refine ⟨d, d', h, hd', hne, ?_, hcurrent fun _ heq => nomatch heq⟩
  rcases hnew with ⟨⟨⟨_, _, _, heq⟩, -⟩, -⟩ | ⟨-, rfl⟩
  · cases heq
  · exact hkeeps

end CardDuel
