/-
CardDuel.Play.Targeting — the players and cards that an effect is for.

Targets are found in three steps. The kind of a target and the state of
the duel give a pool: either all of its members are meant, or one of them
at random. Then a random member is drawn, with one draw from the
generator, or none if the pool is empty. Last, members that fail a
condition are dropped, the drawn one included.

Card candidates lie in one zone, which a selection may replace, are of
the effect's type, and are listed in the order of the zone with the
acting player's side first. A chosen card has to lie in the zone, on a
side that the target allows. `available` asks, without drawing, whether
an effect could have a target at all, conditions left aside.
-/
import CardDuel.Ability.Effect
import CardDuel.Ability.Target
import CardDuel.Play.Engine

namespace CardDuel.Play

open Engine

/-! ## Pools -/

/-- The possible targets, and whether all are meant or one at random. -/
inductive Pool (α : Type) where
  | every (members : List α)
  | oneOf (members : List α)
  deriving DecidableEq, Repr

/-- The members that are meant. -/
def Pool.choose {α : Type} : Pool α → Engine (List α)
  | every members => return members
  | oneOf members => do
    let picked ← draw (Random.Generator.pick? members)
    return picked.toList

/-- The pool of a player target. -/
def playerPool (d : Duel) (acting : PlayerId) (selection : Selection) (kind : PlayerTarget) :
    Except LookupError (Pool PlayerId) := do
  let opponent ← d.opponent acting
  match kind with
  | .acting => return .every [acting]
  | .opponent => return .every [opponent]
  | .chosen =>
    match selection.player with
    | some 0 => return .every [acting]
    | some 1 => return .every [opponent]
    | _ => return .every []
  | .random =>
    if d.first.id ≤ d.second.id then return .oneOf [d.first.id, d.second.id]
    else return .oneOf [d.second.id, d.first.id]
  | .all => return .every [d.first.id, d.second.id]

/-- The cards of a type in a zone of the given players. -/
def candidates (d : Duel) (zone : ZoneId) (t : CardTypeId) :
    List PlayerId → Except LookupError (List InstanceId)
  | [] => .ok []
  | player :: rest => do
    let z ← d.zone player zone
    let others ← candidates d zone t rest
    return z.cards.filter (d.isOfType t) ++ others

/-- The card lies in a zone of one of the given players. -/
def liesIn (d : Duel) (zone : ZoneId) (card : InstanceId) :
    List PlayerId → Except LookupError Bool
  | [] => .ok false
  | player :: rest => do
    let z ← d.zone player zone
    if z.contains card then return true else liesIn d zone card rest

/-- The pool of a card target. -/
def cardPool (d : Duel) (acting : PlayerId) (source : InstanceId) (zone : ZoneId)
    (t : CardTypeId) (selection : Selection) (kind : CardTarget) :
    Except LookupError (Pool InstanceId) := do
  let zone := selection.zone.getD zone
  let opponent ← d.opponent acting
  match kind with
  | .source => return .every [source]
  | .chosen side =>
    match selection.card with
    | none => return .every []
    | some card =>
      let found ← liesIn d zone card (side.players acting opponent)
      return .every (if found then [card] else [])
  | .random side => return .oneOf (← candidates d zone t (side.players acting opponent))
  | .all side => return .every (← candidates d zone t (side.players acting opponent))

/-! ## Conditions -/

/-- All conditions hold on the stats of a bearer; a missing stat fails
its condition. -/
def satisfies (d : Duel) (bearer : Bearer) : List Condition → Except Fault Bool
  | [] => .ok true
  | c :: rest => do
    match ← d.statValue? bearer c.stat with
    | some value => if c.holds value then satisfies d bearer rest else return false
    | none => return false

/-- The members of a list that satisfy all conditions, in order. -/
def keepSatisfying {α : Type} (d : Duel) (bearer : α → Bearer) (conditions : List Condition) :
    List α → Except Fault (List α)
  | [] => .ok []
  | a :: rest => do
    let kept ← satisfies d (bearer a) conditions
    let others ← keepSatisfying d bearer conditions rest
    return if kept then a :: others else others

/-- Chooses from a pool and drops what fails a condition. -/
def Pool.targets {α : Type} (bearer : α → Bearer) (conditions : List Condition) (pool : Pool α) :
    Engine (List α) := do
  let chosen ← pool.choose
  let d ← duel
  sound (keepSatisfying d bearer conditions chosen)

/-! ## Targets -/

/-- The players that a target means when `acting` acts. A target among
cards means no player. -/
def playerTargets (acting : PlayerId) (target : Target) (selection : Selection) :
    Engine (List PlayerId) :=
  match target with
  | .player kind conditions => do
    let pool ← find (playerPool · acting selection kind)
    pool.targets .player conditions
  | .card _ _ => return []

/-- The cards that a target means when `acting` acts with `source` and
the effect is for cards of a type in a zone. A target among players means
no card. -/
def cardTargets (acting : PlayerId) (source : InstanceId) (target : Target) (zone : ZoneId)
    (t : CardTypeId) (selection : Selection) : Engine (List InstanceId) :=
  match target with
  | .player _ _ => return []
  | .card kind conditions => do
    let pool ← find (cardPool · acting source zone t selection kind)
    pool.targets .card conditions

/-! ## Availability -/

/-- A card of a type lies in a zone of a player. -/
def hasCandidate (d : Duel) (zone : ZoneId) (t : CardTypeId) (player : PlayerId) : Bool :=
  match d.zone player zone with
  | .ok z => z.cards.any (d.isOfType t)
  | .error _ => false

/-- A card target could mean a card now, for cards of a type in a zone.
The source always can. -/
def cardAvailable (d : Duel) (acting : PlayerId) (zone : ZoneId) (t : CardTypeId)
    (selection : Selection) (kind : CardTarget) : Bool :=
  let zone := selection.zone.getD zone
  match kind, d.opponent acting with
  | .source, _ => true
  | .chosen side, .ok opponent =>
    match selection.card with
    | some card => (liesIn d zone card (side.players acting opponent)).toOption = some true
    | none => false
  | .random side, .ok opponent => (side.players acting opponent).any (hasCandidate d zone t)
  | .all side, .ok opponent => (side.players acting opponent).any (hasCandidate d zone t)
  | _, .error _ => false

/-- An effect could have a target now. Players are always available to an
effect on players. -/
def available (d : Duel) (acting : PlayerId) (effect : Effect) (target : Target)
    (selection : Selection) : Bool :=
  match target, effect with
  | .player _ _, e => e.targetsPlayers
  | .card _ _, .player _ => false
  | .card kind _, .card e => cardAvailable d acting e.zone e.cardType selection kind
  | .card kind _, .move e => cardAvailable d acting e.zone e.cardType selection kind

end CardDuel.Play
