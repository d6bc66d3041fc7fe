/-
CardDuel.Catalog.Validation — is a catalog fit for a duel?

`Catalog.validate` checks a catalog part by part and reports the first
fault it meets: zones with one number or one name, zones and the life
stat of the rules, card types, printed cards with one number, and last
each printed card with its abilities. A duel starts only on a catalog
that passes.

Not checked are the attack stat of the rules, the stats that triggers on
cards watch, and the stats that conditions of targets name.
-/
import CardDuel.Catalog.Basic
import CardDuel.Error

namespace CardDuel

/-- The first zone that shares its number or its name with one before it;
`seen` are the zones before the list. -/
def ZoneSpec.firstClash? (seen : List ZoneSpec) : List ZoneSpec → Option ZoneSpec
  | [] => none
  | z :: rest =>
    if seen.any (fun z' => z'.id = z.id ∨ z'.name = z.name) then some z
    else firstClash? (z :: seen) rest

/-- The zones that the rules use, each with the name of its role. -/
def Rules.zones (r : Rules) : List (String × ZoneId) :=
  [("deck", r.deck), ("hand", r.hand), ("board", r.board), ("graveyard", r.graveyard)]

namespace Catalog

/-! ## Single references -/

def requireZone (c : Catalog) (id : ZoneId) : Except CatalogError Unit :=
  if (c.zone? id).isSome then .ok () else .error (.unknownZone id)

def requireCardType (c : Catalog) (id : CardTypeId) : Except CatalogError CardType :=
  match c.cardType? id with
  | some t => .ok t
  | none => .error (.unknownCardType id)

def requirePlayerStat (c : Catalog) (name : String) : Except CatalogError Unit :=
  if c.hasPlayerStat name then .ok () else .error (.unknownStat name)

def requireStat (t : CardType) (name : String) : Except CatalogError Unit :=
  if t.hasStat name then .ok () else .error (.unknownStat name)

/-! ## Parts of a catalog -/

def validateZones (c : Catalog) : Except CatalogError Unit :=
  match ZoneSpec.firstClash? [] c.zones with
  | some z => .error (.duplicateZone z.name)
  | none => .ok ()

def validateRules (c : Catalog) : Except CatalogError Unit := do
  c.rules.zones.forM fun (role, zone) =>
    if (c.zone? zone).isSome then .ok () else .error (.missingRulesZone role zone)
  c.requirePlayerStat c.rules.lifeStat

def validateCardType (c : Catalog) (t : CardType) : Except CatalogError Unit := do
  match t.zoneAfterTrigger with
  | some zone => c.requireZone zone
  | none => .ok ()
  t.destroyConditions.forM fun condition => requireStat t condition.stat

def validateTrigger (c : Catalog) (t : Trigger) : Except CatalogError Unit :=
  match t with
  | .cardEntered zone => c.requireZone zone
  | .cardLeft zone => c.requireZone zone
  | _ =>
    match t.watched? with
    | some (.player, stat) => c.requirePlayerStat stat
    | _ => .ok ()

/-- Checks the references of an effect, and that it is of one family with
its target. -/
def validateEffect (c : Catalog) (card : CardId) (index : Nat) (effect : Effect)
    (target : Target) : Except CatalogError Unit :=
  match effect, target with
  | .player e, .player _ _ => c.requirePlayerStat e.stat
  | .card e, .card _ _ => do
    c.requireZone e.zone
    let t ← c.requireCardType e.cardType
    requireStat t e.stat
  | .move e, .card _ _ => do
    c.requireZone e.zone
    c.requireZone e.destination
    let _ ← c.requireCardType e.cardType
  | _, _ => .error (.targetMismatch card index)

def validateAbility (c : Catalog) (card : CardId) (index : Nat) (a : Ability) :
    Except CatalogError Unit := do
  match a.trigger? with
  | some t => c.validateTrigger t
  | none => .ok ()
  c.validateEffect card index a.effect a.target

def validateCard (c : Catalog) (card : CardSpec) : Except CatalogError Unit := do
  let t ← c.requireCardType card.cardType
  card.overrides.forM fun (stat, _) => requireStat t stat
  card.abilities.zipIdx.forM fun (a, index) => c.validateAbility card.id index a

def validateRegistry (c : Catalog) : Except CatalogError Unit :=
  match c.cards.firstDuplicate? with
  | some id => .error (.duplicateCard id)
  | none => .ok ()

/-! ## The whole catalog -/

/-- Checks a catalog; the error is the first fault met. -/
def validate (c : Catalog) : Except CatalogError Unit := do
  c.validateZones
  c.validateRules
  c.cardTypes.forM c.validateCardType
  c.validateRegistry
  c.cards.cards.forM c.validateCard

end Catalog

end CardDuel
