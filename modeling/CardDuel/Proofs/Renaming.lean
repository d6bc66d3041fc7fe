/-
CardDuel.Proofs.Renaming — the numbers of players, cards, types and zones
under other numbers.

A renaming gives each player, print, card type and zone another number,
and no two the same. It carries over to all that refers to them: catalogs,
duels, registrations, the choices of the caller, errors. The numbers of
cards in play are not renamed, since the duel gives them out itself.
Looking something up under its new number yields what was there under the
old one, renamed; and so validation, and the start of a duel, end alike.

A number has finitely many values, so a renaming is a permutation, and
every renaming of some of the numbers extends to one of all.

  §1 Renamings — and how those of a few numbers extend to all.
  §2 Catalogs  — their parts under a renaming.
  §3 Duels     — seats, cards and registrations, errors and actions.
  §4 Look-ups  — what is found under the new numbers.
  §5 Updates   — what changes under the new numbers.
  §6 Starts    — validation and the laying out of decks.
-/
import Mathlib.Data.FinEnum
import Mathlib.Logic.Equiv.Fintype
import CardDuel.Play.Action
import CardDuel.Proofs.Reached
import CardDuel.Proofs.Registry

/-- Both endings under other names. -/
def Except.bimap {ε ε' α α' : Type} (g : ε → ε') (f : α → α') : Except ε α → Except ε' α'
  | ok a => ok (f a)
  | error e => error (g e)

namespace Except

variable {ε ε' α α' β β' : Type} {g : ε → ε'} {f : α → α'} {h : β → β'}

@[simp] theorem bimap_ok (a : α) : (ok a : Except ε α).bimap g f = ok (f a) := rfl

@[simp] theorem bimap_error (e : ε) : (error e : Except ε α).bimap g f = error (g e) := rfl

/-- The rule for computations that go on with other values under the other
names. -/
theorem bind_bimap {x : Except ε α} {x' : Except ε' α'} {k : α → Except ε β}
    {k' : α' → Except ε' β'} (hx : x' = x.bimap g f) (hk : ∀ a, k' (f a) = (k a).bimap g h) :
    x' >>= k' = (x >>= k).bimap g h := by
  subst hx
  cases x with
  | error e => rfl
  | ok a => exact hk a

/-- A list of checks under the other names fails at the same place. -/
theorem forM_bimap {k : α → Except ε PUnit} {k' : α' → Except ε' PUnit}
    (hk : ∀ a, k' (f a) = (k a).bimap g id) (l : List α) :
    (l.map f).forM k' = (l.forM k).bimap g id := by
  induction l with
  | nil => rfl
  | cons a rest ih => exact bind_bimap (hk a) fun _ => ih

end Except

namespace CardDuel

/-! ## §1 Renamings -/

/-- Other numbers for players, prints, card types and zones. -/
structure Renaming where
  player : Equiv.Perm PlayerId
  card : Equiv.Perm CardId
  cardType : Equiv.Perm CardTypeId
  zone : Equiv.Perm ZoneId

/-- The renaming that gives the old numbers back. -/
def Renaming.symm (ρ : Renaming) : Renaming :=
  ⟨ρ.player.symm, ρ.card.symm, ρ.cardType.symm, ρ.zone.symm⟩

/-- The renaming keeps two players in their order. -/
def Renaming.KeepsOrder (ρ : Renaming) (p q : PlayerId) : Prop :=
  ρ.player p ≤ ρ.player q ↔ p ≤ q

instance (ρ : Renaming) (p q : PlayerId) : Decidable (ρ.KeepsOrder p q) :=
  inferInstanceAs (Decidable (_ ↔ _))

/-- What gives the members of a set different values does as a permutation
does, if there are finitely many values. -/
theorem exists_perm_eqOn {α : Type} [Finite α] {s : Set α} {f : α → α} (h : s.InjOn f) :
    ∃ σ : Equiv.Perm α, s.EqOn σ f := by
  classical
  have : Finite ↑{a | a ∈ s} := inferInstance
  exact ⟨(Equiv.Set.imageOfInjOn f s h).extendSubtype, fun a ha =>
    Equiv.extendSubtype_apply_of_mem (Equiv.Set.imageOfInjOn f s h) a ha⟩

instance : Finite PlayerId := Finite.of_injective PlayerId.number fun ⟨_⟩ ⟨_⟩ h => congrArg _ h

instance : Finite CardId := Finite.of_injective CardId.number fun ⟨_⟩ ⟨_⟩ h => congrArg _ h

instance : Finite CardTypeId := Finite.of_injective CardTypeId.number fun ⟨_⟩ ⟨_⟩ h => congrArg _ h

instance : Finite ZoneId := Finite.of_injective ZoneId.number fun ⟨_⟩ ⟨_⟩ h => congrArg _ h

/-- Numbers that are given to some players in their order, and to some
cards, types and zones without repetition, are those of a renaming. -/
theorem Renaming.exists_extending {players : Set PlayerId} {cards : Set CardId}
    {cardTypes : Set CardTypeId} {zones : Set ZoneId} {player : PlayerId → PlayerId}
    {card : CardId → CardId} {cardType : CardTypeId → CardTypeId} {zone : ZoneId → ZoneId}
    (hplayer : ∀ p ∈ players, ∀ q ∈ players, player p ≤ player q ↔ p ≤ q)
    (hcard : cards.InjOn card) (hcardType : cardTypes.InjOn cardType) (hzone : zones.InjOn zone) :
    ∃ ρ : Renaming, players.EqOn ρ.player player ∧ cards.EqOn ρ.card card ∧
      cardTypes.EqOn ρ.cardType cardType ∧ zones.EqOn ρ.zone zone ∧
      ∀ p ∈ players, ∀ q ∈ players, ρ.KeepsOrder p q := by
  have hinj : players.InjOn player := by
    intro p hp q hq heq
    have hle : p ≤ q := (hplayer p hp q hq).mp (heq ▸ UInt32.le_refl _)
    have hge : q ≤ p := (hplayer q hq p hp).mp (heq ▸ UInt32.le_refl _)
    exact congrArg PlayerId.mk (UInt32.le_antisymm hle hge)
  obtain ⟨σp, hσp⟩ := exists_perm_eqOn hinj
  obtain ⟨σc, hσc⟩ := exists_perm_eqOn hcard
  obtain ⟨σt, hσt⟩ := exists_perm_eqOn hcardType
  obtain ⟨σz, hσz⟩ := exists_perm_eqOn hzone
  refine ⟨⟨σp, σc, σt, σz⟩, hσp, hσc, hσt, hσz, fun p hp q hq => ?_⟩
  show σp p ≤ σp q ↔ p ≤ q
  rw [hσp hp, hσp hq]
  exact hplayer p hp q hq

variable (ρ : Renaming)

/-! ## §2 Catalogs -/

/-! Each part has the new numbers in the places of the old. Names, stats,
amounts and conditions refer to nothing by its number. -/

def ZoneSpec.rename (z : ZoneSpec) : ZoneSpec := { z with id := ρ.zone z.id }

def Rules.rename (r : Rules) : Rules :=
  { r with
    deck := ρ.zone r.deck
    hand := ρ.zone r.hand
    board := ρ.zone r.board
    graveyard := ρ.zone r.graveyard }

def CardType.rename (t : CardType) : CardType :=
  { t with id := ρ.cardType t.id, zoneAfterTrigger := t.zoneAfterTrigger.map ρ.zone }

def Trigger.rename : Trigger → Trigger
  | cardEntered zone => cardEntered (ρ.zone zone)
  | cardLeft zone => cardLeft (ρ.zone zone)
  | t => t

def CardEffect.rename (e : CardEffect) : CardEffect :=
  { e with zone := ρ.zone e.zone, cardType := ρ.cardType e.cardType }

def MoveEffect.rename (e : MoveEffect) : MoveEffect :=
  ⟨ρ.zone e.zone, ρ.cardType e.cardType, ρ.zone e.destination⟩

def Effect.rename : Effect → Effect
  | player e => player e
  | card e => card (e.rename ρ)
  | move e => move (e.rename ρ)

def TriggeredAbility.rename (a : TriggeredAbility) : TriggeredAbility :=
  { a with trigger := a.trigger.rename ρ, effect := a.effect.rename ρ }

def ActivatedAbility.rename (a : ActivatedAbility) : ActivatedAbility :=
  { a with effect := a.effect.rename ρ }

def Ability.rename : Ability → Ability
  | triggered a => triggered (a.rename ρ)
  | activated a => activated (a.rename ρ)

def CardSpec.rename (s : CardSpec) : CardSpec :=
  { s with
    id := ρ.card s.id
    cardType := ρ.cardType s.cardType
    abilities := s.abilities.map (·.rename ρ) }

def Registry.rename (r : Registry) : Registry := .ofList (r.cards.map (·.rename ρ))

def Catalog.rename (c : Catalog) : Catalog where
  zones := c.zones.map (·.rename ρ)
  playerStats := c.playerStats
  cardTypes := c.cardTypes.map (·.rename ρ)
  cards := c.cards.rename ρ
  rules := c.rules.rename ρ

/-! ## §3 Duels -/

/-! The numbers of cards in play, the stats and the generator stay as they
are. -/

def Zone.rename (z : Zone) : Zone := { z with spec := z.spec.rename ρ }

def Seat.rename (s : Seat) : Seat :=
  { s with id := ρ.player s.id, zones := s.zones.map (·.rename ρ) }

def Card.rename (c : Card) : Card :=
  { c with spec := ρ.card c.spec, cardType := ρ.cardType c.cardType, owner := ρ.player c.owner }

def Bearer.rename : Bearer → Bearer
  | player id => player (ρ.player id)
  | card id => card id

def Watcher.rename : Watcher → Watcher
  | propagate player subject => propagate (ρ.player player) subject
  | destroy player card condition => destroy (ρ.player player) card condition

def Registration.rename (r : Registration) : Registration :=
  ⟨r.bearer.rename ρ, r.stat, r.watcher.rename ρ⟩

def WatchTable.rename (t : WatchTable) : WatchTable := ⟨t.entries.map (·.rename ρ)⟩

def Duel.rename (d : Duel) : Duel where
  catalog := d.catalog.rename ρ
  first := d.first.rename ρ
  second := d.second.rename ρ
  current := ρ.player d.current
  cards := d.cards.map (·.rename ρ)
  nextInstance := d.nextInstance
  generator := d.generator
  watchers := d.watchers.rename ρ

def Entrant.rename (e : Entrant) : Entrant := ⟨ρ.player e.id, e.deck.map ρ.card⟩

def LookupError.rename : LookupError → LookupError
  | playerNotFound player => playerNotFound (ρ.player player)
  | cardNotFound card => cardNotFound card
  | zoneNotFound player zone => zoneNotFound (ρ.player player) (ρ.zone zone)
  | cardNotInZone card zone => cardNotInZone card (ρ.zone zone)
  | cardSpecNotFound card => cardSpecNotFound (ρ.card card)
  | cardTypeNotFound cardType => cardTypeNotFound (ρ.cardType cardType)

def CatalogError.rename : CatalogError → CatalogError
  | duplicateZone name => duplicateZone name
  | duplicateCard card => duplicateCard (ρ.card card)
  | missingRulesZone role zone => missingRulesZone role (ρ.zone zone)
  | unknownZone zone => unknownZone (ρ.zone zone)
  | unknownCardType cardType => unknownCardType (ρ.cardType cardType)
  | unknownStat name => unknownStat name
  | targetMismatch card ability => targetMismatch (ρ.card card) ability
  | invalidPlayers => invalidPlayers

def DuelError.rename : DuelError → DuelError
  | lookup cause => lookup (cause.rename ρ)
  | catalog cause => catalog (cause.rename ρ)
  | e => e

def Selection.rename (s : Selection) : Selection := { s with zone := s.zone.map ρ.zone }

/-- The action on the things that have the new numbers. A test on
triggers is put to the trigger with its old number. -/
def Action.rename : Action → Action
  | startTurn => startTurn
  | endTurn => endTurn
  | setCurrent player => setCurrent (ρ.player player)
  | move player card origin destination selection =>
    move (ρ.player player) card (ρ.zone origin) (ρ.zone destination) (selection.rename ρ)
  | draw player count => draw (ρ.player player) count
  | create owner card zone => create (ρ.player owner) (ρ.card card) (ρ.zone zone)
  | attackPlayer attacker card => attackPlayer (ρ.player attacker) card
  | attackCard attacker card target => attackCard (ρ.player attacker) card target
  | activate player card index selection =>
    activate (ρ.player player) card index (selection.rename ρ)
  | dispatch player card kind accepts selection =>
    dispatch (ρ.player player) card kind (fun t => accepts (t.rename ρ.symm)) (selection.rename ρ)
  | watchPlayer player => watchPlayer (ρ.player player)
  | watchCard card => watchCard card
  | watchDestroy card => watchDestroy card

variable {ρ}

/-! ## §4 Look-ups -/

/-! A thing that is renamed has the new number; what has no number to be
renamed is as it was. -/

@[simp] theorem ZoneSpec.id_rename (z : ZoneSpec) : (z.rename ρ).id = ρ.zone z.id := rfl

@[simp] theorem CardType.id_rename (t : CardType) : (t.rename ρ).id = ρ.cardType t.id := rfl

@[simp] theorem CardSpec.id_rename (s : CardSpec) : (s.rename ρ).id = ρ.card s.id := rfl

@[simp] theorem Seat.id_rename (s : Seat) : (s.rename ρ).id = ρ.player s.id := rfl

@[simp] theorem Card.id_rename (c : Card) : (c.rename ρ).id = c.id := rfl

@[simp] theorem Duel.catalog_rename (d : Duel) :
    (d.rename ρ).catalog = d.catalog.rename ρ := rfl

@[simp] theorem Selection.player_rename (s : Selection) : (s.rename ρ).player = s.player := rfl

@[simp] theorem Selection.card_rename (s : Selection) : (s.rename ρ).card = s.card := rfl

/-- A renamed trigger is of the kind that it was. -/
@[simp] theorem Trigger.kind_rename (t : Trigger) : (t.rename ρ).kind = t.kind := by
  cases t <;> rfl

/-- With its old numbers given back, a trigger is what it was. -/
@[simp] theorem Trigger.rename_symm_rename (t : Trigger) : (t.rename ρ).rename ρ.symm = t := by
  cases t <;> simp [rename, Renaming.symm]

/-- A renamed trigger answers to the same changes of stats. -/
@[simp] theorem Trigger.answers_rename (subject : Subject) (stat : String) (change : StatChange)
    (t : Trigger) : (t.rename ρ).answers subject stat change = t.answers subject stat change := by
  cases t <;> rfl

/-- The triggered abilities of a renamed print are those of the print,
renamed, in their order. -/
@[simp] theorem CardSpec.triggered_rename (s : CardSpec) :
    (s.rename ρ).triggered = s.triggered.map (·.rename ρ) := by
  simp only [triggered, rename, List.filterMap_map, List.map_filterMap]
  refine List.filterMap_congr fun a _ => ?_
  cases a <;> rfl

/-- So are its activated abilities. -/
@[simp] theorem CardSpec.activated_rename (s : CardSpec) :
    (s.rename ρ).activated = s.activated.map (·.rename ρ) := by
  simp only [activated, rename, List.filterMap_map, List.map_filterMap]
  refine List.filterMap_congr fun a _ => ?_
  cases a <;> rfl

/-- The prints of a renamed registry are in the order in which they were
registered. -/
@[simp] theorem Registry.cards_rename (r : Registry) :
    (r.rename ρ).cards = r.cards.map (·.rename ρ) :=
  Registry.cards_ofList _

namespace Catalog

variable (c : Catalog)

/-! A zone, a type or a print is found under its new number. No number is
given twice, so nothing else is found there. -/

@[simp] theorem zone?_rename (id : ZoneId) :
    (c.rename ρ).zone? (ρ.zone id) = (c.zone? id).map (·.rename ρ) := by
  simp only [zone?, rename, List.find?_map, Function.comp_def, ZoneSpec.id_rename,
    EmbeddingLike.apply_eq_iff_eq]

@[simp] theorem cardType?_rename (id : CardTypeId) :
    (c.rename ρ).cardType? (ρ.cardType id) = (c.cardType? id).map (·.rename ρ) := by
  simp only [cardType?, rename, List.find?_map, Function.comp_def, CardType.id_rename,
    EmbeddingLike.apply_eq_iff_eq]

@[simp] theorem card?_rename (id : CardId) :
    (c.rename ρ).card? (ρ.card id) = (c.card? id).map (·.rename ρ) := by
  simp only [card?, rename, Registry.get?_eq_find?, Registry.cards_rename, List.find?_map,
    Function.comp_def, CardSpec.id_rename, EmbeddingLike.apply_eq_iff_eq]

end Catalog

@[simp] theorem Zone.id_rename (z : Zone) : (z.rename ρ).id = ρ.zone z.id := rfl

@[simp] theorem Zone.contains_rename (z : Zone) (card : InstanceId) :
    (z.rename ρ).contains card = z.contains card := rfl

namespace Seat

variable (s : Seat)

/-! The same of the zones of a seat; and the zones in which a card lies, or
whose cards may answer, are the same ones in the same order. -/

@[simp] theorem zone?_rename (id : ZoneId) :
    (s.rename ρ).zone? (ρ.zone id) = (s.zone? id).map (·.rename ρ) := by
  simp only [zone?, rename, List.find?_map, Function.comp_def, Zone.id_rename,
    EmbeddingLike.apply_eq_iff_eq]

@[simp] theorem zoneOf?_rename (card : InstanceId) :
    (s.rename ρ).zoneOf? card = (s.zoneOf? card).map ρ.zone := by
  simp only [zoneOf?, rename, List.find?_map, Function.comp_def, Zone.contains_rename,
    Option.map_map, Zone.id_rename]

@[simp] theorem triggeringZones_rename :
    (s.rename ρ).triggeringZones = s.triggeringZones.map ρ.zone := by
  have htriggering (z : Zone) : (z.rename ρ).spec.triggering = z.spec.triggering := rfl
  simp only [triggeringZones, rename, List.filter_map, Function.comp_def, htriggering,
    List.map_map, Zone.id_rename]

end Seat

namespace Duel

variable (d : Duel)

/-! The look-ups of a duel, by which its computations find what they work
on. An error names the thing by its new number. -/

theorem seat_rename (p : PlayerId) :
    (d.rename ρ).seat (ρ.player p) = (d.seat p).bimap (·.rename ρ) (·.rename ρ) := by
  simp only [seat, rename, Seat.rename, EmbeddingLike.apply_eq_iff_eq]
  split
  · rfl
  · split <;> rfl

theorem opponent_rename (p : PlayerId) :
    (d.rename ρ).opponent (ρ.player p) = (d.opponent p).bimap (·.rename ρ) ρ.player := by
  simp only [opponent, rename, Seat.rename, EmbeddingLike.apply_eq_iff_eq]
  split
  · rfl
  · split <;> rfl

/-- A zone of a player is found under both new numbers, and so is the
error for a player or a zone that is not there. -/
theorem zone_rename (p : PlayerId) (id : ZoneId) :
    (d.rename ρ).zone (ρ.player p) (ρ.zone id) =
      (d.zone p id).bimap (·.rename ρ) (·.rename ρ) := by
  refine Except.bind_bimap (d.seat_rename p) fun s => ?_
  rw [Seat.zone?_rename]
  cases s.zone? id <;> rfl

/-- A card in play is found under the number that it had. -/
theorem card_rename (id : InstanceId) :
    (d.rename ρ).card id = (d.card id).bimap (·.rename ρ) (·.rename ρ) := by
  have hfind : (d.cards.map (·.rename ρ)).find? (·.id = id) =
      (d.cards.find? (·.id = id)).map (·.rename ρ) := List.find?_map ..
  rw [card, card, rename, hfind]
  cases d.cards.find? (·.id = id) <;> rfl

/-- A card has the renamed type exactly if it had the type. -/
theorem isOfType_rename (t : CardTypeId) :
    (d.rename ρ).isOfType (ρ.cardType t) = d.isOfType t := by
  funext id
  rw [isOfType, card_rename, isOfType]
  cases d.card id with
  | error e => rfl
  | ok c => simp [Card.rename]

/-- A card lies with the renamed player, in the renamed zone. -/
theorem location?_rename (id : InstanceId) :
    (d.rename ρ).location? id = (d.location? id).map fun (p, z) => (ρ.player p, ρ.zone z) := by
  rw [location?, card_rename, location?]
  cases d.card id with
  | error e => rfl
  | ok c =>
    simp only [Except.bimap_ok, Card.rename, seat_rename]
    cases d.seat c.owner with
    | error e => rfl
    | ok s =>
      simp only [Except.bimap_ok, Seat.zoneOf?_rename, Option.map_map, Function.comp_def]

/-- The print of a card in play is the print that it had, renamed. -/
theorem specOf_rename (id : InstanceId) :
    (d.rename ρ).specOf id = (d.specOf id).bimap (·.rename ρ) (·.rename ρ) := by
  refine Except.bind_bimap (d.card_rename id) fun c => ?_
  have hspec : (d.rename ρ).catalog.card? (c.rename ρ).spec =
      (d.catalog.card? c.spec).map (·.rename ρ) := d.catalog.card?_rename c.spec
  rw [hspec]
  cases d.catalog.card? c.spec <;> rfl

/-- A bearer has the same stats: they have names and no numbers. -/
theorem stats_rename (b : Bearer) :
    (d.rename ρ).stats (b.rename ρ) = (d.stats b).bimap (·.rename ρ) id := by
  cases b with
  | player p =>
    show ((d.rename ρ).seat (ρ.player p)).map _ = _
    rw [seat_rename, stats]
    cases d.seat p <;> rfl
  | card id =>
    show ((d.rename ρ).card id).map _ = _
    rw [card_rename, stats]
    cases d.card id <;> rfl

/-- So what is read of them is the same. -/
theorem statValue?_rename (b : Bearer) (stat : String) :
    (d.rename ρ).statValue? (b.rename ρ) stat = d.statValue? b stat := by
  rw [statValue?, stats_rename, statValue?]
  cases d.stats b <;> rfl

end Duel

/-! ## §5 Updates -/

/-- A change of a zone that does the same on renamed zones does the same on
renamed seats. -/
theorem Seat.modifyZone_rename {f g : Zone → Zone} (hf : ∀ z, g (z.rename ρ) = (f z).rename ρ)
    (s : Seat) (id : ZoneId) :
    (s.rename ρ).modifyZone (ρ.zone id) g = (s.modifyZone id f).rename ρ := by
  simp only [modifyZone, rename, List.map_map, Seat.mk.injEq, true_and, and_true]
  refine List.map_congr_left fun z _ => ?_
  simp only [Function.comp_apply, Zone.id_rename, EmbeddingLike.apply_eq_iff_eq, hf]
  split <;> rfl

namespace Duel

variable (d : Duel)

/-- A change of a seat that does the same on renamed seats does the same on
renamed duels. -/
theorem modifySeat_rename {f g : Seat → Seat} (hf : ∀ s, g (s.rename ρ) = (f s).rename ρ)
    (p : PlayerId) :
    (d.rename ρ).modifySeat (ρ.player p) g = (d.modifySeat p f).rename ρ := by
  simp only [modifySeat, rename, Seat.id_rename, EmbeddingLike.apply_eq_iff_eq, hf]
  split
  · rfl
  · split <;> rfl

theorem modifyZone_rename {f g : Zone → Zone} (hf : ∀ z, g (z.rename ρ) = (f z).rename ρ)
    (p : PlayerId) (id : ZoneId) :
    (d.rename ρ).modifyZone (ρ.player p) (ρ.zone id) g = (d.modifyZone p id f).rename ρ :=
  d.modifySeat_rename (fun s => s.modifyZone_rename hf id) p

/-- A card goes from the renamed origin to the renamed destination. -/
theorem transfer_rename (p : PlayerId) (card : InstanceId) (origin destination : ZoneId) :
    (d.rename ρ).transfer (ρ.player p) card (ρ.zone origin) (ρ.zone destination) =
      (d.transfer p card origin destination).rename ρ := by
  rw [transfer, modifyZone_rename (f := (·.remove card)) _ fun _ => rfl,
    modifyZone_rename (f := (·.push card)) _ fun _ => rfl, transfer]

/-- A change of a card that does the same on renamed cards does the same on
renamed duels. -/
theorem modifyCard_rename {f g : Card → Card} (hf : ∀ c, g (c.rename ρ) = (f c).rename ρ)
    (id : InstanceId) : (d.rename ρ).modifyCard id g = (d.modifyCard id f).rename ρ := by
  simp only [modifyCard, rename, List.map_map, Duel.mk.injEq, true_and, and_true]
  refine List.map_congr_left fun c _ => ?_
  simp only [Function.comp_apply, Card.id_rename, hf]
  split <;> rfl

/-- Stats are put in place with the renamed bearer. -/
theorem putStats_rename (b : Bearer) (block : StatBlock) :
    (d.rename ρ).putStats (b.rename ρ) block = (d.putStats b block).rename ρ := by
  cases b with
  | player p =>
    let put (s : Seat) : Seat := { s with stats := block }
    exact d.modifySeat_rename (f := put) (g := put) (fun _ => rfl) p
  | card id =>
    let put (c : Card) : Card := { c with stats := block }
    exact d.modifyCard_rename (f := put) (g := put) (fun _ => rfl) id

/-- A card that comes into play gets the number that it would have got. -/
theorem enroll_rename (c : Card) : (d.rename ρ).enroll (c.rename ρ) = (d.enroll c).rename ρ := by
  simp [enroll, rename]

/-- **Creating a card** gives it the same number, or fails for the same
reason. -/
theorem create_rename (owner : PlayerId) (card : CardId) (place : ZoneId) :
    (d.rename ρ).create (ρ.player owner) (ρ.card card) (ρ.zone place) =
      (d.create owner card place).bimap (·.rename ρ) fun r => (r.1, r.2.rename ρ) := by
  simp only [create, catalog_rename, Catalog.card?_rename]
  cases d.catalog.card? card with
  | none => rfl
  | some spec =>
    have htype : (spec.rename ρ).cardType = ρ.cardType spec.cardType := rfl
    simp only [Option.map_some, Bind.bind, Except.bind, htype, Catalog.cardType?_rename]
    cases d.catalog.cardType? spec.cardType with
    | none => rfl
    | some t =>
      simp only [Option.map_some, zone_rename]
      cases d.zone owner place with
      | error e => rfl
      | ok z =>
        let new : Card := .ofSpec d.nextInstance spec t owner
        let push (z : Zone) : Zone := z.push d.nextInstance
        have hpush : ((d.rename ρ).enroll (new.rename ρ)).modifyZone (ρ.player owner) (ρ.zone place)
            push = ((d.enroll new).modifyZone owner place push).rename ρ := by
          rw [enroll_rename]
          exact modifyZone_rename (f := push) (g := push) _ (fun _ => rfl) owner place
        exact congrArg (fun d' => Except.ok (d.nextInstance, d')) hpush

/-- So does creating the cards of a deck, one by one. -/
theorem createAll_rename (owner : PlayerId) (place : ZoneId) (cards : List CardId) :
    (d.rename ρ).createAll (ρ.player owner) (ρ.zone place) (cards.map ρ.card) =
      (d.createAll owner place cards).bimap (·.rename ρ) (·.rename ρ) := by
  induction cards generalizing d with
  | nil => rfl
  | cons card rest ih =>
    exact Except.bind_bimap (d.create_rename owner card place) fun r => ih r.2

end Duel

/-- No two bearers are renamed to one. -/
theorem Bearer.rename_inj {b b' : Bearer} : b.rename ρ = b'.rename ρ ↔ b = b' := by
  cases b <;> cases b' <;> simp [rename]

/-- No two watchers are renamed to one. -/
theorem Watcher.rename_inj {w w' : Watcher} : w.rename ρ = w'.rename ρ ↔ w = w' := by
  cases w <;> cases w' <;> simp [rename]

namespace WatchTable

variable (t : WatchTable)

/-- The watchers of a stat are those that it had, in their order. -/
theorem on_rename (b : Bearer) (stat : String) :
    (t.rename ρ).on (b.rename ρ) stat = (t.on b stat).map (·.rename ρ) := by
  simp only [on, rename, List.filter_map, List.map_map, Function.comp_def, Registration.rename,
    Bearer.rename_inj]

/-- A watcher is registered once under the new numbers, as it is once under
the old. -/
theorem register_rename (b : Bearer) (stat : String) (w : Watcher) :
    (t.rename ρ).register (b.rename ρ) stat (w.rename ρ) = (t.register b stat w).rename ρ := by
  have hinj : Function.Injective (Registration.rename ρ) := by
    rintro ⟨b, stat, w⟩ ⟨b', stat', w'⟩ heq
    simpa [Registration.rename, Bearer.rename_inj, Watcher.rename_inj] using heq
  have hmem : ⟨b.rename ρ, stat, w.rename ρ⟩ ∈ t.entries.map (Registration.rename ρ) ↔
      ⟨b, stat, w⟩ ∈ t.entries :=
    List.mem_map_of_injective hinj (a := ⟨b, stat, w⟩)
  simp only [register, rename, hmem]
  split
  · rfl
  · simp [Registration.rename]

/-- So are the watchers of a list. -/
theorem registers_rename {α : Type} {b : Bearer} {name : α → String} {watcher : α → Watcher}
    (l : List α) :
    l.foldl (fun t a => t.register (b.rename ρ) (name a) ((watcher a).rename ρ)) (t.rename ρ) =
      (l.foldl (fun t a => t.register b (name a) (watcher a)) t).rename ρ := by
  induction l generalizing t with
  | nil => rfl
  | cons a rest ih =>
    simp only [List.foldl_cons, register_rename]
    exact ih _

end WatchTable

/-! ## §6 Starts -/

namespace Catalog

variable (c : Catalog)

/-! The requirements of validation, then its parts in the order in which
they are checked. Each holds of the renamed thing as of the thing itself,
or fails with the renamed error. -/

theorem requireZone_rename (zone : ZoneId) :
    (c.rename ρ).requireZone (ρ.zone zone) = (c.requireZone zone).bimap (·.rename ρ) id := by
  rw [requireZone, zone?_rename, Option.isSome_map, requireZone]
  split <;> rfl

theorem requireCardType_rename (id : CardTypeId) :
    (c.rename ρ).requireCardType (ρ.cardType id) =
      (c.requireCardType id).bimap (·.rename ρ) (·.rename ρ) := by
  rw [requireCardType, cardType?_rename, requireCardType]
  cases c.cardType? id <;> rfl

theorem requirePlayerStat_rename (name : String) :
    (c.rename ρ).requirePlayerStat name =
      (c.requirePlayerStat name).bimap (·.rename ρ) id := by
  show (if c.hasPlayerStat name then _ else _) = _
  rw [requirePlayerStat]
  split <;> rfl

theorem requireStat_rename (t : CardType) (name : String) :
    requireStat (t.rename ρ) name = (requireStat t name).bimap (·.rename ρ) id := by
  show (if t.hasStat name then _ else _) = _
  rw [requireStat]
  split <;> rfl

theorem requireStats_rename {α : Type} (t : CardType) (name : α → String) (l : List α) :
    (l.forM fun a => requireStat (t.rename ρ) (name a)) =
      (l.forM fun a => requireStat t (name a)).bimap (·.rename ρ) id := by
  induction l with
  | nil => rfl
  | cons a rest ih => exact Except.bind_bimap (requireStat_rename t (name a)) fun _ => ih

/-- The first zone whose number or name is taken is the same zone. -/
theorem firstClash?_rename (seen zones : List ZoneSpec) :
    ZoneSpec.firstClash? (seen.map (·.rename ρ)) (zones.map (·.rename ρ)) =
      (ZoneSpec.firstClash? seen zones).map (·.rename ρ) := by
  induction zones generalizing seen with
  | nil => rfl
  | cons z rest ih =>
    simp only [List.map_cons, ZoneSpec.firstClash?, List.any_map, Function.comp_def,
      ZoneSpec.rename, EmbeddingLike.apply_eq_iff_eq]
    split
    · rfl
    · exact ih (z :: seen)

/-- An id has the place that it had under its old number. -/
theorem index_rename (r : Registry) (id : CardId) :
    (r.rename ρ).index (ρ.card id) = r.index id := by
  simp only [Registry.index_eq, Registry.cards_rename, List.findIdx?_map, Function.comp_def,
    CardSpec.id_rename, EmbeddingLike.apply_eq_iff_eq]

/-- The first print whose number is taken is the same print. -/
theorem firstDuplicate?_rename (r : Registry) :
    (r.rename ρ).firstDuplicate? = r.firstDuplicate?.map ρ.card := by
  simp only [Registry.firstDuplicate?, Registry.cards_rename, List.zipIdx_map, List.find?_map, Option.map_map,
    Function.comp_def, Prod.map_fst, Prod.map_snd, CardSpec.id_rename, index_rename, id_eq]

theorem validateZones_rename :
    (c.rename ρ).validateZones = c.validateZones.bimap (·.rename ρ) id := by
  rw [validateZones, validateZones]
  have hclash : ZoneSpec.firstClash? [] (c.rename ρ).zones =
      (ZoneSpec.firstClash? [] c.zones).map (·.rename ρ) := firstClash?_rename [] c.zones
  rw [hclash]
  cases ZoneSpec.firstClash? [] c.zones <;> rfl

theorem validateRegistry_rename :
    (c.rename ρ).validateRegistry = c.validateRegistry.bimap (·.rename ρ) id := by
  have hduplicate : (c.rename ρ).cards.firstDuplicate? =
      c.cards.firstDuplicate?.map ρ.card := firstDuplicate?_rename c.cards
  rw [validateRegistry, validateRegistry, hduplicate]
  cases c.cards.firstDuplicate? <;> rfl

theorem validateRules_rename :
    (c.rename ρ).validateRules = c.validateRules.bimap (·.rename ρ) id := by
  refine Except.bind_bimap (f := id) ?_ fun _ => c.requirePlayerStat_rename _
  refine Except.forM_bimap (f := fun r => (r.1, ρ.zone r.2)) (fun r => ?_) c.rules.zones
  dsimp only
  rw [zone?_rename, Option.isSome_map]
  split <;> rfl

theorem validateCardType_rename (t : CardType) :
    (c.rename ρ).validateCardType (t.rename ρ) =
      (c.validateCardType t).bimap (·.rename ρ) id := by
  have hafter : (t.rename ρ).zoneAfterTrigger = t.zoneAfterTrigger.map ρ.zone := rfl
  have hconditions : _ = Except.bimap (CatalogError.rename ρ) id _ :=
    requireStats_rename t Condition.stat t.destroyConditions
  rw [validateCardType, validateCardType, hafter]
  cases t.zoneAfterTrigger with
  | none => exact hconditions
  | some zone => exact Except.bind_bimap (c.requireZone_rename zone) fun _ => hconditions

theorem validateTrigger_rename (t : Trigger) :
    (c.rename ρ).validateTrigger (t.rename ρ) = (c.validateTrigger t).bimap (·.rename ρ) id := by
  cases t with
  | turnStarted | turnEnded => rfl
  | cardEntered zone | cardLeft zone => exact c.requireZone_rename zone
  | statIncreased subject stat | statDecreased subject stat | statReached subject stat value =>
    cases subject with
    | player => exact c.requirePlayerStat_rename stat
    | card => rfl

theorem validateEffect_rename (card : CardId) (index : Nat) (e : Effect) (target : Target) :
    (c.rename ρ).validateEffect (ρ.card card) index (e.rename ρ) target =
      (c.validateEffect card index e target).bimap (·.rename ρ) id := by
  cases e with
  | player e =>
    cases target with
    | player => exact c.requirePlayerStat_rename e.stat
    | card => rfl
  | card e =>
    cases target with
    | player => rfl
    | card =>
      refine Except.bind_bimap (c.requireZone_rename e.zone) fun _ => ?_
      exact Except.bind_bimap (c.requireCardType_rename e.cardType) fun t =>
        requireStat_rename t e.stat
  | move e =>
    cases target with
    | player => rfl
    | card =>
      refine Except.bind_bimap (c.requireZone_rename e.zone) fun _ => ?_
      refine Except.bind_bimap (c.requireZone_rename e.destination) fun _ => ?_
      exact Except.bind_bimap (c.requireCardType_rename e.cardType) fun _ => rfl

theorem validateAbility_rename (card : CardId) (index : Nat) (a : Ability) :
    (c.rename ρ).validateAbility (ρ.card card) index (a.rename ρ) =
      (c.validateAbility card index a).bimap (·.rename ρ) id := by
  cases a with
  | triggered a =>
    exact Except.bind_bimap (c.validateTrigger_rename a.trigger) fun _ =>
      c.validateEffect_rename card index a.effect a.target
  | activated a => exact c.validateEffect_rename card index a.effect a.target

theorem validateCard_rename (s : CardSpec) :
    (c.rename ρ).validateCard (s.rename ρ) = (c.validateCard s).bimap (·.rename ρ) id := by
  have habilities : (s.rename ρ).abilities.zipIdx = s.abilities.zipIdx.map fun r =>
      (r.1.rename ρ, r.2) := List.zipIdx_map ..
  refine Except.bind_bimap (c.requireCardType_rename s.cardType) fun t => ?_
  refine Except.bind_bimap (requireStats_rename t Prod.fst s.overrides) fun _ => ?_
  rw [habilities]
  exact Except.forM_bimap (fun r => c.validateAbility_rename s.id r.2 r.1) _

/-- **Validation does not tell numbers apart**: it accepts the same
catalogs, and meets the same fault first. -/
theorem validate_rename : (c.rename ρ).validate = c.validate.bimap (·.rename ρ) id := by
  refine Except.bind_bimap c.validateZones_rename fun _ => ?_
  refine Except.bind_bimap c.validateRules_rename fun _ => ?_
  refine Except.bind_bimap (Except.forM_bimap c.validateCardType_rename c.cardTypes) fun _ => ?_
  refine Except.bind_bimap c.validateRegistry_rename fun _ => ?_
  have hcards : (c.rename ρ).cards.cards = c.cards.cards.map (·.rename ρ) := c.cards.cards_rename
  rw [hcards]
  exact Except.forM_bimap c.validateCard_rename c.cards.cards

end Catalog

namespace Duel

/-- Both decks are laid out with the renamed cards. -/
theorem deal_rename (d : Duel) (first second : Entrant) :
    (d.rename ρ).deal (first.rename ρ) (second.rename ρ) =
      (d.deal first second).bimap (·.rename ρ) (·.rename ρ) :=
  Except.bind_bimap (d.createAll_rename first.id d.catalog.rules.deck first.deck) fun d =>
    d.createAll_rename second.id d.catalog.rules.deck second.deck

/-- The duel without cards has the renamed zones, and the same stats and
generator. -/
theorem blank_rename (c : Catalog) (seed : UInt64) (first second : PlayerId) :
    blank (c.rename ρ) seed (ρ.player first) (ρ.player second) =
      (blank c seed first second).rename ρ := by
  have hseat (p : PlayerId) : Seat.ofSpecs (ρ.player p) (c.rename ρ).zones c.playerStats =
      (Seat.ofSpecs p c.zones c.playerStats).rename ρ := by
    simp only [Seat.ofSpecs, Seat.rename, Catalog.rename, List.map_map]
    rfl
  simp only [blank, rename, ← hseat]
  rfl

/-- A duel on the renamed catalog starts with the renamed cards, or does
not start for the same reason. -/
theorem start_rename (c : Catalog) (seed : UInt64) (first second : Entrant) :
    start (c.rename ρ) seed (first.rename ρ) (second.rename ρ) =
      (start c seed first second).bimap (·.rename ρ) (·.rename ρ) := by
  have hids : (first.rename ρ).id = (second.rename ρ).id ↔ first.id = second.id :=
    ρ.player.injective.eq_iff
  have hdeal : (blank (c.rename ρ) seed (first.rename ρ).id (second.rename ρ).id).deal
      (first.rename ρ) (second.rename ρ) =
        ((blank c seed first.id second.id).deal first second).bimap (·.rename ρ) (·.rename ρ) := by
    rw [← deal_rename, ← blank_rename]
    rfl
  simp only [start, Catalog.validate_rename, hids]
  cases c.validate with
  | error e => rfl
  | ok _ =>
    by_cases hid : first.id = second.id
    · simp only [if_pos hid]
      rfl
    · simp only [if_neg hid]
      rw [hdeal]
      cases (blank c seed first.id second.id).deal first second <;> rfl

end Duel

end CardDuel
