/-
CardDuel.Proofs.Mentions — the names that a catalog mentions.

A catalog declares zones, card types and stats, and mentions them by name
in its rules, types, cards, abilities and conditions. `Mention` is one
such place, and says where the name is looked up during a duel. Validation
checks most mentions, `Catalog.checked`; the others, `Catalog.overlooked`,
it never looks at. They are the attack stat of the rules, the stats of
cards that a trigger watches, and the stats in the conditions of a target.
A misspelt name there passes, and no card ever meets the condition, sets
off the trigger or strikes a blow.

  §1 Mentions — those of each part of a catalog.
  §2 Checks   — what each check of validation accepts.
  §3 Catalogs — what validation accepts, and what it lets through.
-/
import CardDuel.Catalog.Starter
import CardDuel.Proofs.References
import CardDuel.Proofs.Registry

/-- A check comes before the rest: both have to go well. -/
theorem Except.check_eq_ok_iff {ε β : Type} {check : Except ε Unit} {f : Unit → Except ε β}
    {b : β} : check >>= f = .ok b ↔ check = .ok () ∧ f () = .ok b := by
  rw [bind_eq_ok_iff]
  exact ⟨fun ⟨_, h⟩ => h, fun h => ⟨(), h⟩⟩

namespace CardDuel

/-! ## §1 Mentions -/

/-- A name that is mentioned, and where it is looked up. -/
inductive Mention where
  | zone (id : ZoneId)
  | cardType (id : CardTypeId)
  /-- Among the stats of players. -/
  | playerStat (name : String)
  /-- Among the stats of the type that mentions it. -/
  | ownStat (t : CardType) (name : String)
  /-- Among the stats of the type of that number. -/
  | statOf (t : CardTypeId) (name : String)
  /-- Among the stats of cards, of whatever type. -/
  | cardStat (name : String)
  deriving DecidableEq, Repr

/-- The catalog declares the name where it is looked up. -/
def Mention.declared (c : Catalog) : Mention → Bool
  | zone id => (c.zone? id).isSome
  | cardType id => (c.cardType? id).isSome
  | playerStat name => c.hasPlayerStat name
  | ownStat t name => t.hasStat name
  | statOf t name => (c.cardType? t).any (·.hasStat name)
  | cardStat name => c.cardTypes.any (·.hasStat name)

def Rules.mentions (r : Rules) : List Mention :=
  r.zones.map (fun (_, zone) => .zone zone) ++ [.playerStat r.lifeStat]

def CardType.mentions (t : CardType) : List Mention :=
  t.zoneAfterTrigger.toList.map .zone ++ t.destroyConditions.map fun k => .ownStat t k.stat

def Trigger.mentions : Trigger → List Mention
  | cardEntered zone | cardLeft zone => [.zone zone]
  | t =>
    match t.watched? with
    | some (.player, stat) => [.playerStat stat]
    | _ => []

def Effect.mentions : Effect → List Mention
  | player e => [.playerStat e.stat]
  | card e => [.zone e.zone, .cardType e.cardType, .statOf e.cardType e.stat]
  | move e => [.zone e.zone, .zone e.destination, .cardType e.cardType]

def Ability.mentions (a : Ability) : List Mention :=
  a.trigger?.toList.flatMap Trigger.mentions ++ a.effect.mentions

def CardSpec.mentions (s : CardSpec) : List Mention :=
  .cardType s.cardType :: s.overrides.map (fun (stat, _) => .statOf s.cardType stat) ++
    s.abilities.flatMap Ability.mentions

/-- The stat of cards that a trigger watches. -/
def Trigger.cardMentions (t : Trigger) : List Mention :=
  match t.watched? with
  | some (.card, stat) => [.cardStat stat]
  | _ => []

/-- The stats in the conditions of a target, for cards among those of the
type that the effect is for. -/
def Ability.conditionMentions (a : Ability) : List Mention :=
  match a.target with
  | .player _ conditions => conditions.map fun k => .playerStat k.stat
  | .card _ conditions =>
    a.effect.cardType?.toList.flatMap fun t => conditions.map fun k => .statOf t k.stat

/-- The effect and the target are of one family. -/
def Ability.matched (a : Ability) : Bool := a.effect.targetsPlayers != a.target.isCard

namespace Catalog

/-- The mentions that validation looks at. -/
def checked (c : Catalog) : List Mention :=
  c.rules.mentions ++ c.cardTypes.flatMap CardType.mentions ++
    c.cards.cards.flatMap CardSpec.mentions

/-- The mentions that validation never looks at. -/
def overlooked (c : Catalog) : List Mention :=
  .cardStat c.rules.attackStat :: c.cards.cards.flatMap fun s => s.abilities.flatMap fun a =>
    a.trigger?.toList.flatMap Trigger.cardMentions ++ a.conditionMentions

/-- All names that the catalog mentions anywhere. -/
def mentions (c : Catalog) : List Mention := c.checked ++ c.overlooked

/-! ## §2 Checks -/

variable {c : Catalog}

theorem requireZone_eq_ok_iff {id : ZoneId} :
    c.requireZone id = .ok () ↔ (Mention.zone id).declared c := by
  unfold requireZone Mention.declared
  split <;> simp [*]

theorem requirePlayerStat_eq_ok_iff {name : String} :
    c.requirePlayerStat name = .ok () ↔ (Mention.playerStat name).declared c := by
  unfold requirePlayerStat Mention.declared
  split <;> simp [*]

theorem requireStat_eq_ok_iff {t : CardType} {name : String} :
    requireStat t name = .ok () ↔ (Mention.ownStat t name).declared c := by
  unfold requireStat Mention.declared
  split <;> simp [*]

theorem requireCardType_eq_ok_iff {id : CardTypeId} {t : CardType} :
    c.requireCardType id = .ok t ↔ c.cardType? id = some t := by
  unfold requireCardType
  cases c.cardType? id <;> simp

theorem validateRules_eq_ok_iff :
    c.validateRules = .ok () ↔ ∀ m ∈ c.rules.mentions, m.declared c := by
  rw [validateRules, Except.check_eq_ok_iff, Except.forM_eq_ok_iff, requirePlayerStat_eq_ok_iff,
    Rules.mentions, List.forall_mem_append, List.forall_mem_map, List.forall_mem_singleton]
  refine and_congr_left' (forall₂_congr fun r _ => ?_)
  dsimp only [Mention.declared]
  split <;> simp [*]

theorem validateCardType_eq_ok_iff {t : CardType} :
    c.validateCardType t = .ok () ↔ ∀ m ∈ t.mentions, m.declared c := by
  rw [CardType.mentions, List.forall_mem_append, List.forall_mem_map, List.forall_mem_map]
  unfold validateCardType
  cases t.zoneAfterTrigger with
  | none =>
    rw [Except.check_eq_ok_iff, Except.forM_eq_ok_iff]
    simp [requireStat_eq_ok_iff (c := c)]
  | some zone =>
    rw [Except.check_eq_ok_iff, Except.forM_eq_ok_iff]
    simp [requireZone_eq_ok_iff, requireStat_eq_ok_iff (c := c)]

theorem validateTrigger_eq_ok_iff {t : Trigger} :
    c.validateTrigger t = .ok () ↔ ∀ m ∈ t.mentions, m.declared c := by
  cases t with
  | turnStarted | turnEnded => simp [validateTrigger, Trigger.mentions, Trigger.watched?]
  | cardEntered zone | cardLeft zone =>
    simp [validateTrigger, Trigger.mentions, requireZone_eq_ok_iff]
  | statIncreased subject stat | statDecreased subject stat | statReached subject stat value =>
    cases subject <;>
      simp [validateTrigger, Trigger.mentions, Trigger.watched?, requirePlayerStat_eq_ok_iff]

theorem validateEffect_eq_ok_iff {card : CardId} {index : Nat} {e : Effect} {target : Target} :
    c.validateEffect card index e target = .ok () ↔
      (e.targetsPlayers != target.isCard) ∧ ∀ m ∈ e.mentions, m.declared c := by
  cases e with
  | player e =>
    cases target <;> simp [validateEffect, Effect.targetsPlayers, Target.isCard, Effect.mentions,
      requirePlayerStat_eq_ok_iff]
  | card e =>
    cases target with
    | player => simp [validateEffect, Effect.targetsPlayers, Target.isCard]
    | card =>
      rw [validateEffect, Except.check_eq_ok_iff, requireZone_eq_ok_iff, Except.bind_eq_ok_iff]
      simp only [requireCardType_eq_ok_iff, Effect.targetsPlayers, Target.isCard, Effect.mentions]
      cases ht : c.cardType? e.cardType <;>
        simp [Mention.declared, ht, requireStat_eq_ok_iff (c := c)]
  | move e =>
    cases target with
    | player => simp [validateEffect, Effect.targetsPlayers, Target.isCard]
    | card =>
      rw [validateEffect, Except.check_eq_ok_iff, requireZone_eq_ok_iff, Except.check_eq_ok_iff,
        requireZone_eq_ok_iff, Except.bind_eq_ok_iff]
      simp only [requireCardType_eq_ok_iff, Effect.targetsPlayers, Target.isCard, Effect.mentions]
      cases ht : c.cardType? e.cardType <;> simp [Mention.declared, ht, Pure.pure, Except.pure]

theorem validateAbility_eq_ok_iff {card : CardId} {index : Nat} {a : Ability} :
    c.validateAbility card index a = .ok () ↔ a.matched ∧ ∀ m ∈ a.mentions, m.declared c := by
  unfold validateAbility Ability.matched Ability.mentions
  rw [List.forall_mem_append, and_left_comm, ← @validateEffect_eq_ok_iff c card index]
  cases a.trigger? with
  | none =>
    rw [Except.check_eq_ok_iff]
    simp
  | some t =>
    rw [Except.check_eq_ok_iff]
    simp [validateTrigger_eq_ok_iff]

theorem validateCard_eq_ok_iff {s : CardSpec} :
    c.validateCard s = .ok () ↔
      (∀ a ∈ s.abilities, a.matched) ∧ ∀ m ∈ s.mentions, m.declared c := by
  -- The place of an ability is named in an error only, so it is of no matter here.
  have hplaces {p : Ability → Prop} :
      (∀ a index, (a, index) ∈ s.abilities.zipIdx → p a) ↔ ∀ a ∈ s.abilities, p a := by
    constructor
    · intro h a ha
      obtain ⟨index, hindex⟩ := List.mem_iff_getElem?.mp ha
      exact h a index (List.mk_mem_zipIdx_iff_getElem?.mpr hindex)
    · intro h a index hindex
      exact h a (List.mem_of_getElem? (List.mk_mem_zipIdx_iff_getElem?.mp hindex))
  rw [validateCard, Except.bind_eq_ok_iff]
  simp only [Except.check_eq_ok_iff, Except.forM_eq_ok_iff, requireCardType_eq_ok_iff, Prod.forall,
    validateAbility_eq_ok_iff, hplaces, requireStat_eq_ok_iff (c := c), CardSpec.mentions,
    List.cons_append, List.forall_mem_cons, List.forall_mem_append, List.forall_mem_map,
    List.forall_mem_flatMap]
  cases ht : c.cardType? s.cardType with
  | none => simp [Mention.declared, ht]
  | some t =>
    have htype : (Mention.cardType s.cardType).declared c := by simp [Mention.declared, ht]
    have hown (name : String) :
        (Mention.ownStat t name).declared c = (Mention.statOf s.cardType name).declared c := by
      simp [Mention.declared, ht]
    simp only [Option.some.injEq, exists_eq_left', hown, htype, true_and]
    rw [and_left_comm]
    refine and_congr_right fun _ => ?_
    simp only [imp_and, forall_and]

/-! ## §3 Catalogs -/

/-- Nothing that needs a name of its own shares it, and every effect goes
with its target. -/
structure Orderly (c : Catalog) : Prop where
  zones : c.zones.Pairwise fun z z' => z.id ≠ z'.id ∧ z.name ≠ z'.name
  cards : (c.cards.cards.map CardSpec.id).Nodup
  matched : ∀ s ∈ c.cards.cards, ∀ a ∈ s.abilities, a.matched

/-- **What validation accepts**: the orderly catalogs that declare what
the mentions it looks at are of. -/
theorem validate_eq_ok_iff :
    c.validate = .ok () ↔ c.Orderly ∧ ∀ m ∈ c.checked, m.declared c := by
  have hzones : c.validateZones = .ok () ↔
      c.zones.Pairwise fun z z' => z.id ≠ z'.id ∧ z.name ≠ z'.name := by
    have hclash := @firstClash?_eq_none_iff [] c.zones
    unfold validateZones
    split <;> simp_all
  have hregistry : c.validateRegistry = .ok () ↔ (c.cards.cards.map CardSpec.id).Nodup := by
    rw [validateRegistry, ← Registry.firstDuplicate?_eq_none_iff]
    cases c.cards.firstDuplicate? <;> simp
  rw [validate]
  simp only [Except.check_eq_ok_iff, Except.forM_eq_ok_iff, hzones, hregistry,
    validateRules_eq_ok_iff, validateCardType_eq_ok_iff, validateCard_eq_ok_iff, checked,
    List.forall_mem_append, List.forall_mem_flatMap]
  constructor
  · intro h
    obtain ⟨hzones, hrules, htypes, hcards, hprints⟩ := h
    exact ⟨⟨hzones, hcards, fun s hs => (hprints s hs).1⟩, ⟨hrules, htypes⟩,
      fun s hs => (hprints s hs).2⟩
  · intro h
    obtain ⟨⟨hzones, hcards, hmatched⟩, ⟨hrules, htypes⟩, hprints⟩ := h
    exact ⟨hzones, hrules, htypes, hcards, fun s hs => ⟨hmatched s hs, hprints s hs⟩⟩

end Catalog

/-- **When validation closes all references.** Everything that a catalog
which passes validation mentions is declared, if and only if those names
are that validation never looks at. -/
theorem mentions_declared_iff {c : Catalog} (h : c.validate = .ok ()) :
    (∀ m ∈ c.mentions, m.declared c) ↔ ∀ m ∈ c.overlooked, m.declared c := by
  obtain ⟨-, hchecked⟩ := Catalog.validate_eq_ok_iff.mp h
  rw [Catalog.mentions, List.forall_mem_append]
  exact and_iff_right hchecked

/-- The starter catalog mentions nothing that it does not declare. -/
theorem starter_mentions_declared :
    (Starter.catalog {}).validate = .ok () ∧
      ∀ m ∈ (Starter.catalog {}).mentions, m.declared (Starter.catalog {}) := by
  have hvalid : (Starter.catalog {}).validate = .ok () := rfl
  exact ⟨hvalid, (mentions_declared_iff hvalid).mpr (by decide +kernel)⟩

/-- A creature with one ability. -/
def Starter.gifted (ability : TriggeredAbility) : CardSpec where
  id := ⟨3⟩
  name := "Scout"
  cardType := Starter.creature.id
  abilities := [.triggered ability]

/-- The starter catalog, but what creatures strike with is called vigor,
which no card has. -/
def Starter.misspeltAttack : Catalog :=
  { Starter.catalog {} with rules := { (Starter.catalog {}).rules with attackStat := "Vigor" } }

/-- The starter catalog and a card that waits for the vigor of a card to
rise. -/
def Starter.misspeltTrigger : Catalog :=
  Starter.catalog
    { extraCards :=
        [Starter.gifted
          { trigger := .statIncreased .card "Vigor"
            effect := .player { stat := "Life", adjustment := .increase, amount := .constant 1 }
            target := .player .acting [] }] }

/-- The starter catalog and a card whose gift is for players with vigor. -/
def Starter.misspeltCondition : Catalog :=
  Starter.catalog
    { extraCards :=
        [Starter.gifted
          { trigger := .turnStarted
            effect := .player { stat := "Life", adjustment := .increase, amount := .constant 1 }
            target := .player .acting [⟨"Vigor", .greater, 0⟩] }] }

/-- The catalog passes validation, though it mentions a name that it does
not declare. -/
def Catalog.Slips (c : Catalog) : Prop :=
  c.validate = .ok () ∧ ∃ m ∈ c.mentions, m.declared c = false

/-- **A misspelt name can pass.** Each of the three catalogs mentions vigor,
a stat that it declares nowhere, in one of the places that validation
never looks at. -/
theorem misspelt_names_pass :
    Starter.misspeltAttack.Slips ∧ Starter.misspeltTrigger.Slips ∧
      Starter.misspeltCondition.Slips := by
  refine ⟨⟨rfl, ?_⟩, ⟨rfl, ?_⟩, ⟨rfl, ?_⟩⟩
  · decide +kernel
  · decide +kernel
  · decide +kernel

end CardDuel
