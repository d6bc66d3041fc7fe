/-
CardDuel.Proofs.Inert — reactions that nobody has registered.

A change of a stat sets something off only through the watchers of that
stat. So long as nobody registers one, the abilities that a change of a
stat would trigger and the destroy conditions of card types lie idle: a
duel on the catalog without them, `Catalog.stripped`, goes the same way
step by step. Neither turns nor moves, fights or expiries look at them by
another path, and what is stripped counts neither for the depth of a
chain nor for the place of an activated ability.

  §1 Stripped catalogs — what is left, and that it passes validation.
  §2 Quiet actions     — no chain tells a duel without watchers from its
                         stripped copy.
  §3 Quiet runs        — nor do a start and a run.
-/
import CardDuel.Proofs.Cleanliness
import CardDuel.Proofs.Limit
import CardDuel.Proofs.Mentions
import CardDuel.Proofs.Registrations
import CardDuel.Proofs.Simulation

namespace CardDuel

open Engine Play

/-! ## §1 Stripped catalogs -/

/-- The ability acts on changes of a stat. -/
def Ability.reactsToStat : Ability → Bool
  | triggered a => a.trigger.kind.ofStat
  | activated _ => false

/-- The print without the abilities that act on changes of a stat. -/
def CardSpec.stripped (s : CardSpec) : CardSpec :=
  { s with abilities := s.abilities.filter (!·.reactsToStat) }

/-- The type without its destroy conditions. -/
def CardType.stripped (t : CardType) : CardType := { t with destroyConditions := [] }

/-- The catalog without all that acts on changes of a stat. -/
def Catalog.stripped (c : Catalog) : Catalog :=
  { c with
    cardTypes := c.cardTypes.map CardType.stripped
    cards := .ofList (c.cards.cards.map CardSpec.stripped) }

namespace CardSpec

variable (s : CardSpec)

/-- Stripping leaves the triggered abilities of every other kind. -/
theorem triggeredBy_stripped {kind : TriggerKind} (h : kind.ofStat = false) :
    s.stripped.triggeredBy kind = s.triggeredBy kind := by
  simp only [triggeredBy, triggered, stripped, List.filterMap_filter, List.filter_filterMap]
  refine List.filterMap_congr fun a _ => ?_
  cases a with
  | activated a => rfl
  | triggered a =>
    by_cases hkind : a.trigger.kind = kind
    · simp [Ability.reactsToStat, hkind, h]
    · cases hreacts : a.trigger.kind.ofStat <;>
        simp [Ability.reactsToStat, Ability.triggered?, hreacts, hkind, Option.filter]

@[simp] theorem activated_stripped : s.stripped.activated = s.activated := by
  simp only [activated, stripped, List.filterMap_filter]
  refine List.filterMap_congr fun a _ => ?_
  cases a with
  | activated a => rfl
  | triggered a =>
    cases hreacts : a.trigger.kind.ofStat <;>
      simp [Ability.reactsToStat, Ability.activated?, hreacts]

end CardSpec

namespace Catalog

variable (c : Catalog)

@[simp] theorem cards_stripped :
    c.stripped.cards.cards = c.cards.cards.map CardSpec.stripped :=
  Registry.cards_ofList _

@[simp] theorem card?_stripped (id : CardId) :
    c.stripped.card? id = (c.card? id).map CardSpec.stripped := by
  simp only [card?, Registry.get?_eq_find?, cards_stripped, List.find?_map]
  rfl

@[simp] theorem cardType?_stripped (id : CardTypeId) :
    c.stripped.cardType? id = (c.cardType? id).map CardType.stripped := by
  simp only [cardType?, stripped, List.find?_map]
  rfl

theorem printsAlike_stripped : c.PrintsAlike c.stripped where
  card id := by
    rw [card?_stripped, Option.map_map]
    rfl
  cardType id := by
    rw [cardType?_stripped, Option.map_map]
    rfl

/-- Nothing that is declared is stripped. -/
theorem declared_stripped (m : Mention) : m.declared c.stripped = m.declared c := by
  have hany (name : String) (o : Option CardType) :
      (o.map CardType.stripped).any (·.hasStat name) = o.any (·.hasStat name) := by
    cases o <;> rfl
  cases m with
  | zone id => rfl
  | cardType id => simp [Mention.declared]
  | playerStat name => rfl
  | ownStat t name => rfl
  | statOf t name => rw [Mention.declared, cardType?_stripped, hany, Mention.declared]
  | cardStat name =>
    simp only [Mention.declared, stripped, List.any_map]
    rfl

variable {c}

/-- A catalog that passes validation still does when it is stripped. -/
theorem validate_stripped (h : c.validate = .ok ()) : c.stripped.validate = .ok () := by
  obtain ⟨horderly, hchecked⟩ := validate_eq_ok_iff.mp h
  simp only [checked, List.forall_mem_append, List.forall_mem_flatMap] at hchecked
  obtain ⟨⟨hrules, htypes⟩, hcards⟩ := hchecked
  have hkept {s : CardSpec} {a : Ability} (ha : a ∈ s.stripped.abilities) : a ∈ s.abilities :=
    List.mem_of_mem_filter ha
  refine validate_eq_ok_iff.mpr ⟨⟨horderly.zones, ?_, ?_⟩, ?_⟩
  · rw [cards_stripped, List.map_map]
    exact horderly.cards
  · intro s' hs' a ha
    rw [cards_stripped] at hs'
    obtain ⟨s, hs, rfl⟩ := List.mem_map.mp hs'
    exact horderly.matched s hs a (hkept ha)
  · simp only [declared_stripped, checked, List.forall_mem_append, List.forall_mem_flatMap]
    refine ⟨⟨hrules, fun t' ht' m hm => ?_⟩, fun s' hs' m hm => ?_⟩
    · obtain ⟨t, ht, rfl⟩ := List.mem_map.mp ht'
      have hzone : m ∈ t.zoneAfterTrigger.toList.map Mention.zone := by
        simpa [CardType.mentions, CardType.stripped] using hm
      exact htypes t ht m (List.mem_append_left _ hzone)
    · rw [cards_stripped] at hs'
      obtain ⟨s, hs, rfl⟩ := List.mem_map.mp hs'
      refine hcards s hs m ?_
      rcases List.mem_append.mp hm with hm | hm
      · exact List.mem_append_left _ hm
      · obtain ⟨a, ha, hm⟩ := List.mem_flatMap.mp hm
        exact List.mem_append_right _ (List.mem_flatMap.mpr ⟨a, hkept ha, hm⟩)

end Catalog

/-! ## §2 Quiet actions -/

/-- The duel on the stripped catalog. -/
def Duel.stripped (d : Duel) : Duel := { d with catalog := d.catalog.stripped }

/-- The action registers no watcher, and calls up no abilities that act
on changes of a stat. -/
def Action.quiet : Action → Bool
  | dispatch _ _ kind _ _ => !kind.ofStat
  | a => !a.registers

/-- The second duel is the stripped first one, and nothing is watched. -/
structure Duel.Strips (d d' : Duel) : Prop where
  stripped : d' = d.stripped
  unwatched : d.watchers = WatchTable.empty

theorem Duel.specOf_stripped (d : Duel) (id : InstanceId) :
    d.stripped.specOf id = (d.specOf id).map CardSpec.stripped := by
  have hcard : d.stripped.card id = d.card id := rfl
  simp only [specOf, hcard]
  cases d.card id with
  | error e => rfl
  | ok c =>
    have hcatalog : d.stripped.catalog = d.catalog.stripped := rfl
    cases hspec : d.catalog.card? c.spec <;>
      simp [hcatalog, hspec, Bind.bind, Except.bind, Except.map]

theorem likeness_stripped : Likeness (·.ofStat = false) Duel.Strips where
  plain h := h
  differ {d d'} h := ⟨d.catalog.stripped, d.watchers, h.stripped⟩
  update {d d' f} h hf := by
    obtain ⟨hcatalog, hwatchers⟩ := hf.kept d
    have hreset : f d.stripped = (f d).reset d.catalog.stripped d.watchers := hf.reset ..
    refine ⟨?_, hwatchers.trans h.unwatched⟩
    rw [h.stripped, hreset, ← hcatalog, ← hwatchers]
    rfl
  rules h := by rw [h.stripped]; rfl
  prints {d d'} h := h.stripped ▸ d.catalog.printsAlike_stripped
  after {d d'} t h := by
    rw [h.stripped]
    show (d.catalog.stripped.cardType? t).bind _ = _
    rw [Catalog.cardType?_stripped]
    cases d.catalog.cardType? t <;> rfl
  triggered {d d' kind} id hkind h := by
    rw [h.stripped, Duel.specOf_stripped]
    cases d.specOf id with
    | error e => rfl
    | ok spec => exact congrArg Except.ok (spec.triggeredBy_stripped hkind)
  activated {d d'} id h := by
    rw [h.stripped, Duel.specOf_stripped]
    cases d.specOf id with
    | error e => rfl
    | ok spec => exact congrArg Except.ok spec.activated_stripped

/-- **No chain misses what is stripped**: where nothing is watched, nothing
is set off by a change of a stat. -/
theorem mirror_stripped : Mirror (·.ofStat = false) Duel.Strips where
  toLikeness := likeness_stripped
  notify b stat change _ := by
    refine (Sim.note _).bind fun _ => Sim.duel.bindRel fun d d' hD => ?_
    have hwatchers : d'.watchers = d.watchers := by rw [hD.stripped]; rfl
    -- There is nobody to tell, on either side.
    rw [hwatchers, hD.unwatched]
    exact .pure rfl

theorem covers_stripped {a : Action} (ha : a.quiet) : Covers (·.ofStat = false) Duel.Strips a := by
  cases a with
  | dispatch player card kind accepts selection => simpa [Action.quiet, Covers] using ha
  | watchPlayer player => cases ha
  | watchCard card => cases ha
  | watchDestroy card => cases ha
  | _ => trivial

/-! ## §3 Quiet runs -/

namespace Duel

variable {d d' : Duel}

theorem Strips.outcomes (h : d.Strips d') (limit : Nat) {actions : List Action}
    (hquiet : ∀ a ∈ actions, a.quiet) :
    d'.outcomes limit actions = (d.outcomes limit actions).map (·.mapState Duel.stripped) := by
  have hview := outcomes_congr limit Duel.stripped id mirror_stripped
    (fun _ _ h => h.stripped) (fun a ha => covers_stripped (hquiet a ha)) h
  simpa using hview

theorem create_stripped (d : Duel) (owner : PlayerId) (card : CardId) (place : ZoneId) :
    d.stripped.create owner card place =
      (d.create owner card place).map fun r => (r.1, r.2.stripped) := by
  refine (create_reset d.catalog.printsAlike_stripped d.watchers owner card place).trans ?_
  cases hcreate : d.create owner card place with
  | error e => rfl
  | ok r =>
    obtain ⟨spec, -, -, hφ⟩ := fixture_create hcreate
    have hcatalog : r.2.catalog = d.catalog := congrArg Fixture.catalog hφ
    have hwatchers : r.2.watchers = d.watchers := congrArg Fixture.watchers hφ
    simp only [Except.map, reset, Duel.stripped, hcatalog, hwatchers]

theorem createAll_stripped (d : Duel) (owner : PlayerId) (place : ZoneId) (cards : List CardId) :
    d.stripped.createAll owner place cards = (d.createAll owner place cards).map Duel.stripped := by
  induction cards generalizing d with
  | nil => rfl
  | cons card rest ih =>
    rw [createAll, createAll, create_stripped]
    cases d.create owner card place with
    | error e => rfl
    | ok r => exact ih r.2

theorem deal_stripped (d : Duel) (first second : Entrant) :
    d.stripped.deal first second = (d.deal first second).map Duel.stripped := by
  have hcatalog : d.stripped.catalog.rules = d.catalog.rules := rfl
  rw [deal, deal, hcatalog, createAll_stripped]
  cases d.createAll first.id d.catalog.rules.deck first.deck with
  | error e => rfl
  | ok d₁ => exact createAll_stripped ..

/-- A duel on the stripped catalog starts as one on the catalog does. -/
theorem start_stripped {c : Catalog} (h : c.validate = .ok ()) (seed : UInt64)
    (first second : Entrant) :
    start c.stripped seed first second = (start c seed first second).map Duel.stripped := by
  have hblank : blank c.stripped seed first.id second.id =
      (blank c seed first.id second.id).stripped := rfl
  rw [start, start, h, Catalog.validate_stripped h, hblank, deal_stripped]
  by_cases hid : first.id = second.id
  · simp only [if_pos hid]
    rfl
  · simp only [if_neg hid]
    cases (blank c seed first.id second.id).deal first second <;> rfl

end Duel

/-- **Reactions that nobody registers are inert.** Strip a catalog that
passes validation of every ability that a change of a stat triggers, and
of every destroy condition. It still passes validation, a duel starts on
it as on the catalog or fails to with the same error, and a run of
actions that register no watcher, and call up no ability of those kinds
directly, goes the same way step by step: with the same replies and
errors, and with duels that differ in their catalogs only. -/
theorem unwatched_reactions_inert {c : Catalog} (h : c.validate = .ok ()) :
    c.stripped.validate = .ok () ∧
    ∀ seed first second,
      Duel.start c.stripped seed first second =
        (Duel.start c seed first second).map Duel.stripped ∧
      ∀ d, Duel.start c seed first second = .ok d →
        ∀ limit actions, (∀ a ∈ actions, a.quiet) →
          d.stripped.outcomes limit actions =
            (d.outcomes limit actions).map (·.mapState Duel.stripped) := by
  refine ⟨Catalog.validate_stripped h, fun seed first second =>
    ⟨Duel.start_stripped h seed first second, fun d hd limit actions hquiet => ?_⟩⟩
  have hstrips : d.Strips d.stripped := ⟨rfl, Duel.watchers_of_start hd⟩
  exact hstrips.outcomes limit hquiet

/-- A creature whose owner gains a life whenever it loses one. -/
def Starter.brooder : CardSpec where
  id := ⟨3⟩
  name := "Brooder"
  cardType := creature.id
  abilities :=
    [.triggered
      { trigger := .statDecreased .card "Life"
        effect := .player { stat := "Life", adjustment := .increase, amount := .constant 1 }
        target := .player .acting [] }]

/-- Two creatures that would answer a blow fight, and neither answers nor
is destroyed, as if they were plain ones that nothing destroys. -/
theorem inert_in_a_fight :
    let c := Starter.catalog { extraCards := [Starter.brooder] }
    let fight : List Action :=
      [.move ⟨1⟩ ⟨1⟩ Starter.deck Starter.board {}, .move ⟨2⟩ ⟨2⟩ Starter.deck Starter.board {},
       .attackCard ⟨1⟩ ⟨1⟩ ⟨2⟩]
    c.stripped ≠ c ∧ ∃ d, Duel.start c 7 ⟨⟨1⟩, [⟨3⟩]⟩ ⟨⟨2⟩, [⟨3⟩]⟩ = .ok d ∧
      d.stripped.outcomes 64 fight = (d.outcomes 64 fight).map (·.mapState Duel.stripped) := by
  intro c fight
  have hvalid : c.validate = .ok () := by decide +kernel
  obtain ⟨d, hd, -⟩ := @Duel.exists_of_start c 7 ⟨⟨1⟩, [⟨3⟩]⟩ ⟨⟨2⟩, [⟨3⟩]⟩ (fun _ => True)
    (by decide +kernel)
  refine ⟨by decide +kernel, d, hd, ?_⟩
  exact ((unwatched_reactions_inert hvalid).2 7 _ _).2 d hd 64 fight (by decide)

end CardDuel
