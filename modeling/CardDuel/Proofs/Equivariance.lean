/-
CardDuel.Proofs.Equivariance — numbers are nothing but names.

A duel and its renamed copy go the same way. `Renames ρ f m m'` says that
the computation `m'` on a renamed scene ends as `m` does on the scene,
with the renamed error or with the value under `f`, and with the renamed
scene. There is one rule for each way to build a computation, and from
these one lemma for each computation of a chain: none of them orders
numbers, computes with them or compares them but for equality. The one
exception is a random player, who is picked from the two players in the
order of their numbers; so a renaming has to keep these two in order.

  §1 Endings — computations on a scene and on the renamed scene.
  §2 Rules   — one for each way to build a computation.
  §3 Targets — the pools of a target, conditions and availability.
  §4 Chains  — the computations of a chain.
  §5 Actions — the actions of a caller, and lists of them.
-/
import CardDuel.Proofs.Limit
import CardDuel.Proofs.Renaming

namespace CardDuel

open Engine Play

/-! ## §1 Endings -/

variable (ρ : Renaming)

def Event.rename : Event → Event
  | dispatched level card kind => dispatched level card kind
  | wrote bearer stat change => wrote (bearer.rename ρ) stat change
  | notified bearer stat change => notified (bearer.rename ρ) stat change

def Scene.rename (s : Scene) : Scene :=
  ⟨s.duel.rename ρ, s.journal.map (·.rename ρ), s.depth⟩

/-- The ending with the renamed error, and with other views of value and
state. -/
def Outcome.rename {σ τ α β : Type} (view : σ → τ) (f : α → β) : Outcome σ α → Outcome τ β
  | done a s => done (f a) (view s)
  | refused e s => refused (e.rename ρ) (view s)
  | fault cause => fault cause

/-- The two players keep their order. -/
def Duel.OrderKept (d : Duel) : Prop := ρ.KeepsOrder d.first.id d.second.id

namespace Engine

/-- On the renamed scene, the second computation ends as the first one
does on the scene, with renamed error and scene and with the value under
`f`. -/
structure Renames {α β : Type} (f : α → β) (m : Engine α) (m' : Engine β) : Prop where
  ends : ∀ s, s.duel.OrderKept ρ → m' (s.rename ρ) = (m s).rename ρ (·.rename ρ) f
  kept : ∀ s, s.duel.OrderKept ρ → ∀ s' ∈ (m s).state?, s'.duel.OrderKept ρ

end Engine

variable {ρ}

theorem Duel.OrderKept.of_players {d d' : Duel} (h : d.OrderKept ρ)
    (hplayers : d'.fixture.players = d.fixture.players) : d'.OrderKept ρ := by
  simp only [Fixture.players, fixture, List.cons.injEq, and_true] at hplayers
  unfold OrderKept
  rw [hplayers.1, hplayers.2]
  exact h

namespace Engine.Renames

/-! ## §2 Rules -/

variable {α β γ δ : Type} {f : α → β} {g : γ → δ} {m : Engine α} {m' : Engine β}

theorem pure {a : α} {b : β} (h : b = f a) : Renames ρ f (pure a) (pure b) where
  ends s _ := by rw [h]; rfl
  kept s hs s' hs' := by cases hs'; exact hs

theorem bind {k : α → Engine γ} {k' : β → Engine δ} (first : Renames ρ f m m')
    (next : ∀ a, Renames ρ g (k a) (k' (f a))) : Renames ρ g (m >>= k) (m' >>= k') where
  ends s hs := by
    have hkept := first.kept s hs
    rw [bind_eq, bind_eq, first.ends s hs]
    cases hm : m s with
    | done a s₁ =>
      rw [hm] at hkept
      exact (next a).ends s₁ (hkept s₁ rfl)
    | refused e s₁ => rfl
    | fault cause => rfl
  kept s hs s' hs' := by
    have hkept := first.kept s hs
    rw [bind_eq] at hs'
    cases hm : m s with
    | done a s₁ =>
      rw [hm] at hs' hkept
      exact (next a).kept s₁ (hkept s₁ rfl) s' hs'
    | refused e s₁ =>
      rw [hm] at hs' hkept
      exact hkept s' hs'
    | fault cause => rw [hm] at hs'; cases hs'

theorem map {m m' : Engine α} (h : Renames ρ id m m') (k : α → γ) :
    Renames ρ id (k <$> m) (k <$> m') := by
  rw [← bind_pure_comp, ← bind_pure_comp]
  exact h.bind fun a => pure rfl

/-- A computation that goes on with the duel. -/
theorem bindDuel {k : Duel → Engine γ} {k' : Duel → Engine δ}
    (next : ∀ d, d.OrderKept ρ → Renames ρ g (k d) (k' (d.rename ρ))) :
    Renames ρ g (duel >>= k) (duel >>= k') where
  ends s hs := (next s.duel hs).ends s hs
  kept s hs := (next s.duel hs).kept s hs

theorem modifyDuel {f f' : Duel → Duel} (h : ∀ d, f' (d.rename ρ) = (f d).rename ρ)
    (hplayers : ∀ d, (f d).fixture.players = d.fixture.players) :
    Renames ρ id (modifyDuel f) (modifyDuel f') where
  ends s _ := by
    show Outcome.done () (Scene.mk (f' (s.duel.rename ρ)) _ _) = _
    rw [h]
    rfl
  kept s hs s' hs' := by
    cases hs'
    exact hs.of_players (hplayers _)

theorem note {e e' : Event} (h : e' = e.rename ρ) : Renames ρ id (note e) (note e') where
  ends s _ := by rw [h]; rfl
  kept s hs s' hs' := by cases hs'; exact hs

theorem refuse {e e' : DuelError} (h : e' = e.rename ρ) :
    Renames ρ f (refuse e) (refuse e') where
  ends s _ := by rw [h]; rfl
  kept s hs s' hs' := by cases hs'; exact hs

theorem find {look : Duel → Except LookupError α} {look' : Duel → Except LookupError β}
    (h : ∀ d, look' (d.rename ρ) = (look d).bimap (·.rename ρ) f) :
    Renames ρ f (find look) (find look') where
  ends s _ := by
    have hlook : look' (s.rename ρ).duel = (look s.duel).bimap (·.rename ρ) f := h s.duel
    simp only [Engine.find, hlook]
    cases look s.duel <;> rfl
  kept s hs s' hs' := by
    unfold Engine.find at hs'
    cases hlook : look s.duel <;> rw [hlook] at hs' <;> cases hs' <;> exact hs

theorem sound {x : Except Fault α} {x' : Except Fault β} (h : x' = x.map f) :
    Renames ρ f (sound x) (sound x') where
  ends s _ := by
    rw [h]
    cases x <;> rfl
  kept s hs s' hs' := by
    cases x with
    | ok a => cases hs'; exact hs
    | error cause => cases hs'

theorem draw {roll : Random.Generator → α × Random.Generator}
    {roll' : Random.Generator → β × Random.Generator}
    (h : ∀ g, roll' g = (f (roll g).1, (roll g).2)) : Renames ρ f (draw roll) (draw roll') where
  ends s _ := by
    obtain rfl : roll' = fun g => (f (roll g).1, (roll g).2) := funext h
    rfl
  kept s hs s' hs' := by cases hs'; exact hs

theorem depth : Renames ρ id depth depth where
  ends s _ := rfl
  kept s hs s' hs' := by cases hs'; exact hs

theorem nested (h : Renames ρ f m m') : Renames ρ f (nested m) (nested m') where
  ends s hs := by
    have hinner := h.ends { s with depth := s.depth + 1 } hs
    show (m' (Scene.rename ρ { s with depth := s.depth + 1 })).mapState _ = _
    rw [hinner, Engine.nested]
    cases m { s with depth := s.depth + 1 } <;> rfl
  kept s hs s' hs' := by
    rw [Engine.nested, Outcome.state?_mapState, Option.mem_map] at hs'
    obtain ⟨s₁, hs₁, rfl⟩ := hs'
    exact h.kept { s with depth := s.depth + 1 } hs s₁ hs₁

theorem foldlM {k : γ → α → Engine γ} {k' : γ → β → Engine γ}
    (h : ∀ c a, Renames ρ id (k c a) (k' c (f a))) (l : List α) (c : γ) :
    Renames ρ id (l.foldlM k c) ((l.map f).foldlM k' c) := by
  induction l generalizing c with
  | nil => exact pure rfl
  | cons a rest ih =>
    rw [List.map_cons, List.foldlM_cons, List.foldlM_cons]
    exact (h c a).bind ih

/-- The rule for a list without numbers in it. -/
theorem foldlMSame {k k' : γ → α → Engine γ} (h : ∀ c a, Renames ρ id (k c a) (k' c a))
    (l : List α) (c : γ) : Renames ρ id (l.foldlM k c) (l.foldlM k' c) := by
  have hmap := foldlM (f := id) h l c
  rwa [List.map_id] at hmap

theorem forM {k : α → Engine Unit} {k' : β → Engine Unit} (h : ∀ a, Renames ρ id (k a) (k' (f a)))
    (l : List α) : Renames ρ id (l.forM k) ((l.map f).forM k') := by
  induction l with
  | nil => exact pure rfl
  | cons a rest ih => exact (h a).bind fun _ => ih

theorem forMSame {k k' : α → Engine Unit} (h : ∀ a, Renames ρ id (k a) (k' a)) (l : List α) :
    Renames ρ id (l.forM k) (l.forM k') := by
  have hmap := forM (f := id) h l
  rwa [List.map_id] at hmap

end Engine.Renames

/-! ## §3 Targets -/

/-- The pool with other members. -/
def Play.Pool.map {α β : Type} (f : α → β) : Pool α → Pool β
  | every members => every (members.map f)
  | oneOf members => oneOf (members.map f)

@[simp] theorem Play.Pool.map_id {α : Type} (pool : Pool α) : pool.map id = pool := by
  cases pool <;> simp [map]

theorem Side.players_rename (side : Side) (acting opponent : PlayerId) :
    side.players (ρ.player acting) (ρ.player opponent) =
      (side.players acting opponent).map ρ.player := by
  cases side <;> rfl

theorem Selection.getD_rename (s : Selection) (place : ZoneId) :
    (s.rename ρ).zone.getD (ρ.zone place) = ρ.zone (s.zone.getD place) :=
  Option.getD_map ..

/-- One member of a list is picked by its place. -/
theorem Random.Generator.pick?_map {α β : Type} (f : α → β) (members : List α)
    (g : Random.Generator) :
    g.pick? (members.map f) = ((g.pick? members).1.map f, (g.pick? members).2) := by
  simp only [pick?, List.length_map, List.getElem?_map, Option.map_bind, Function.comp_def]

section
variable (d : Duel)

theorem satisfies_rename (b : Bearer) (conditions : List Condition) :
    satisfies (d.rename ρ) (b.rename ρ) conditions = satisfies d b conditions := by
  induction conditions with
  | nil => rfl
  | cons k rest ih => simp only [satisfies, d.statValue?_rename, ih]

theorem keepSatisfying_rename {α β : Type} {f : α → β} {bearer : α → Bearer} {bearer' : β → Bearer}
    (hbearer : ∀ a, bearer' (f a) = (bearer a).rename ρ) (conditions : List Condition)
    (l : List α) :
    keepSatisfying (d.rename ρ) bearer' conditions (l.map f) =
      (keepSatisfying d bearer conditions l).map (List.map f) := by
  induction l with
  | nil => rfl
  | cons a rest ih =>
    simp only [List.map_cons, keepSatisfying, hbearer, satisfies_rename, ih]
    cases satisfies d (bearer a) conditions with
    | error cause => rfl
    | ok kept =>
      cases keepSatisfying d bearer conditions rest with
      | error cause => rfl
      | ok others => cases kept <;> rfl

theorem playerPool_rename (h : d.OrderKept ρ) (acting : PlayerId) (selection : Selection)
    (kind : PlayerTarget) :
    playerPool (d.rename ρ) (ρ.player acting) (selection.rename ρ) kind =
      (playerPool d acting selection kind).bimap (·.rename ρ) (Pool.map ρ.player) := by
  refine Except.bind_bimap (d.opponent_rename acting) fun opponent => ?_
  cases kind with
  | acting | opponent | all => rfl
  | chosen =>
    simp only [Selection.player_rename]
    split <;> rfl
  | random =>
    -- The only place where numbers are compared for order.
    have horder : (d.rename ρ).first.id ≤ (d.rename ρ).second.id ↔ d.first.id ≤ d.second.id := h
    simp only [horder]
    split <;> rfl

theorem candidates_rename (place : ZoneId) (t : CardTypeId) (players : List PlayerId) :
    candidates (d.rename ρ) (ρ.zone place) (ρ.cardType t) (players.map ρ.player) =
      (candidates d place t players).bimap (·.rename ρ) id := by
  induction players with
  | nil => rfl
  | cons p rest ih =>
    refine Except.bind_bimap (d.zone_rename p place) fun z => Except.bind_bimap ih fun others => ?_
    rw [d.isOfType_rename]
    rfl

theorem liesIn_rename (place : ZoneId) (card : InstanceId) (players : List PlayerId) :
    liesIn (d.rename ρ) (ρ.zone place) card (players.map ρ.player) =
      (liesIn d place card players).bimap (·.rename ρ) id := by
  induction players with
  | nil => rfl
  | cons p rest ih =>
    refine Except.bind_bimap (d.zone_rename p place) fun z => ?_
    rw [Zone.contains_rename, ih]
    split <;> rfl

theorem cardPool_rename (acting : PlayerId) (source : InstanceId) (place : ZoneId)
    (t : CardTypeId) (selection : Selection) (kind : CardTarget) :
    cardPool (d.rename ρ) (ρ.player acting) source (ρ.zone place) (ρ.cardType t)
        (selection.rename ρ) kind =
      (cardPool d acting source place t selection kind).bimap (·.rename ρ) id := by
  refine Except.bind_bimap (d.opponent_rename acting) fun opponent => ?_
  cases kind with
  | source => rfl
  | chosen side =>
    simp only [Selection.card_rename, Selection.getD_rename, Side.players_rename]
    cases selection.card with
    | none => rfl
    | some card =>
      exact Except.bind_bimap (liesIn_rename d _ card _) fun found => rfl
  | random side | all side =>
    simp only [Selection.getD_rename, Side.players_rename]
    exact Except.bind_bimap (candidates_rename d _ t _) fun members => rfl

theorem hasCandidate_rename (place : ZoneId) (t : CardTypeId) (p : PlayerId) :
    hasCandidate (d.rename ρ) (ρ.zone place) (ρ.cardType t) (ρ.player p) =
      hasCandidate d place t p := by
  rw [hasCandidate, d.zone_rename, hasCandidate, d.isOfType_rename]
  cases d.zone p place <;> rfl

theorem cardAvailable_rename (acting : PlayerId) (place : ZoneId) (t : CardTypeId)
    (selection : Selection) (kind : CardTarget) :
    cardAvailable (d.rename ρ) (ρ.player acting) (ρ.zone place) (ρ.cardType t)
        (selection.rename ρ) kind =
      cardAvailable d acting place t selection kind := by
  simp only [cardAvailable, d.opponent_rename, Selection.getD_rename, Selection.card_rename]
  cases d.opponent acting with
  | error e => cases kind <;> rfl
  | ok opponent =>
    cases kind with
    | source => rfl
    | chosen side =>
      simp only [Except.bimap_ok, Side.players_rename, liesIn_rename]
      cases selection.card with
      | none => rfl
      | some card =>
        dsimp only
        cases liesIn d (selection.zone.getD place) card (side.players acting opponent) <;> rfl
    | random side | all side =>
      simp only [Except.bimap_ok, Side.players_rename, List.any_map, Function.comp_def,
        hasCandidate_rename]

theorem available_rename (acting : PlayerId) (effect : Effect) (target : Target)
    (selection : Selection) :
    available (d.rename ρ) (ρ.player acting) (effect.rename ρ) target (selection.rename ρ) =
      available d acting effect target selection := by
  cases target with
  | player kind conditions => cases effect <;> rfl
  | card kind conditions =>
    cases effect with
    | player e => rfl
    | card e => exact cardAvailable_rename d acting e.zone e.cardType selection kind
    | move e => exact cardAvailable_rename d acting e.zone e.cardType selection kind

end

/-! ## §4 Chains -/

namespace Engine.Renames

theorem findSeat (p : PlayerId) :
    Renames ρ (·.rename ρ) (Engine.find (·.seat p)) (Engine.find (·.seat (ρ.player p))) :=
  .find fun d => d.seat_rename p

theorem findOpponent (p : PlayerId) :
    Renames ρ ρ.player (Engine.find (·.opponent p)) (Engine.find (·.opponent (ρ.player p))) :=
  .find fun d => d.opponent_rename p

theorem findZone (p : PlayerId) (place : ZoneId) :
    Renames ρ (·.rename ρ) (Engine.find (·.zone p place))
      (Engine.find (·.zone (ρ.player p) (ρ.zone place))) :=
  .find fun d => d.zone_rename p place

theorem findCard (card : InstanceId) :
    Renames ρ (·.rename ρ) (Engine.find (·.card card)) (Engine.find (·.card card)) :=
  .find fun d => d.card_rename card

theorem findSpec (card : InstanceId) :
    Renames ρ (·.rename ρ) (Engine.find (·.specOf card)) (Engine.find (·.specOf card)) :=
  .find fun d => d.specOf_rename card

theorem findStats (b : Bearer) :
    Renames ρ id (Engine.find (·.stats b)) (Engine.find (·.stats (b.rename ρ))) :=
  .find fun d => d.stats_rename b

theorem transfer (p : PlayerId) (card : InstanceId) (origin destination : ZoneId) :
    Renames ρ id (Engine.modifyDuel (·.transfer p card origin destination))
      (Engine.modifyDuel (·.transfer (ρ.player p) card (ρ.zone origin) (ρ.zone destination))) :=
  .modifyDuel (fun d => d.transfer_rename p card origin destination) fun d => by simp

theorem putStats (b : Bearer) (block : StatBlock) :
    Renames ρ id (Engine.modifyDuel (·.putStats b block))
      (Engine.modifyDuel (·.putStats (b.rename ρ) block)) :=
  .modifyDuel (fun d => d.putStats_rename b block) fun d => by simp

theorem relocate (p : PlayerId) (card : InstanceId) (t : CardTypeId) (destination : ZoneId) :
    Renames ρ id (relocate p card t destination)
      (relocate (ρ.player p) card (ρ.cardType t) (ρ.zone destination)) := by
  refine .bindDuel fun d _ => ?_
  have hafter : ((d.rename ρ).catalog.cardType? (ρ.cardType t)).bind (·.zoneAfterTrigger) =
      ((d.catalog.cardType? t).bind (·.zoneAfterTrigger)).map ρ.zone := by
    rw [Duel.catalog_rename, Catalog.cardType?_rename]
    cases d.catalog.cardType? t <;> rfl
  rw [hafter]
  cases (d.catalog.cardType? t).bind (·.zoneAfterTrigger) with
  | none => exact .pure rfl
  | some after =>
    simp only [Option.map_some, EmbeddingLike.apply_eq_iff_eq]
    split
    · exact .pure rfl
    · refine (findZone ..).bind fun z => ?_
      rw [Zone.contains_rename]
      split
      · exact (findZone ..).bind fun _ => transfer ..
      · exact .pure rfl

/-- A fault or value that has nothing to do with numbers. -/
theorem soundSame {α : Type} (x : Except Fault α) : Renames ρ id (Engine.sound x) (Engine.sound x) :=
  .sound (by cases x <;> rfl)

theorem writeStat (b : Bearer) (stat : String)
    (write : Stat → Except Fault (StatChange × Stat)) :
    Renames ρ id (writeStat b stat write) (writeStat (b.rename ρ) stat write) := by
  refine (findStats b).bind fun block => ?_
  dsimp only [id_eq]
  split
  · exact .pure rfl
  · refine (soundSame _).bind fun _ => (putStats ..).bind fun _ => ?_
    exact (note rfl).bind fun _ => .pure rfl

theorem adjustStat (b : Bearer) (stat : String) (adjustment : Adjustment) (amount : Amount)
    (turns : UInt32) :
    Renames ρ id (adjustStat b stat adjustment amount turns)
      (adjustStat (b.rename ρ) stat adjustment amount turns) := by
  refine (findStats b).bind fun block => ?_
  dsimp only [id_eq]
  split
  · exact (draw fun _ => rfl).bind fun _ => writeStat ..
  · exact .pure rfl

theorem ageStats (b : Bearer) : Renames ρ id (ageStats b) (ageStats (b.rename ρ)) := by
  refine (findStats b).bind fun block => (soundSame _).bind fun aged => ?_
  refine (putStats ..).bind fun _ => ?_
  exact (forMSame (fun _ => note rfl) aged.1).bind fun _ => .pure rfl

theorem targets {α β : Type} (f : α → β) (bearer : α → Bearer) (bearer' : β → Bearer)
    (hbearer : ∀ a, bearer' (f a) = (bearer a).rename ρ) (conditions : List Condition)
    (pool : Pool α) :
    Renames ρ (List.map f) (pool.targets bearer conditions)
      ((pool.map f).targets bearer' conditions) := by
  refine bind (f := List.map f) ?_ fun chosen => .bindDuel fun d _ => ?_
  · cases pool with
    | every members => exact .pure rfl
    | oneOf members =>
      refine bind (f := Option.map f) (draw fun g => g.pick?_map f members) fun picked => ?_
      cases picked <;> exact .pure rfl
  · exact .sound (keepSatisfying_rename d hbearer conditions chosen)

theorem cardTargets (conditions : List Condition) (pool : Pool InstanceId) :
    Renames ρ id (pool.targets .card conditions) (pool.targets .card conditions) := by
  have htargets : Renames ρ _ _ _ := targets id .card .card (fun _ => rfl) conditions pool
  rwa [Pool.map_id, List.map_id_fun] at htargets

end Engine.Renames

open Engine.Renames (findSeat findOpponent findZone findCard findSpec soundSame)

/-- Calls on abilities end alike under a renaming, for tests that say of
the renamed trigger what they say of the trigger. -/
def Equivariant (ρ : Renaming) (fire : Dispatch) : Prop :=
  ∀ player card kind (accepts accepts' : Trigger → Bool) selection,
    (∀ t, accepts' (t.rename ρ) = accepts t) →
      Renames ρ id (fire player card kind accepts selection)
        (fire (ρ.player player) card kind accepts' (selection.rename ρ))

namespace Equivariant

variable {fire : Dispatch} (hfire : Equivariant ρ fire)
include hfire

theorem move (p : PlayerId) (card : InstanceId) (origin destination : ZoneId)
    (selection : Selection) :
    Renames ρ id (move fire p card origin destination selection)
      (move fire (ρ.player p) card (ρ.zone origin) (ρ.zone destination)
        (selection.rename ρ)) := by
  refine (findCard _).bind fun c => (findZone ..).bind fun z => ?_
  rw [Zone.contains_rename]
  split
  · refine (findZone ..).bind fun _ => (Renames.transfer ..).bind fun _ => ?_
    refine (hfire _ _ _ _ _ _ fun t => ?_).bind fun _ => ?_
    · cases t <;> simp [Trigger.rename]
    refine (hfire _ _ _ _ _ _ fun t => ?_).bind fun _ => ?_
    · cases t <;> simp [Trigger.rename]
    exact Renames.relocate ..
  · exact .refuse rfl

theorem walk (p : PlayerId) (kind : TriggerKind) (accepts accepts' : Trigger → Bool)
    (haccepts : ∀ t, accepts' (t.rename ρ) = accepts t) :
    Renames ρ id (walk fire p kind accepts) (walk fire (ρ.player p) kind accepts') := by
  refine Renames.bind (f := id) ?_ fun _ => .pure rfl
  refine (findSeat _).bind fun s => ?_
  rw [Seat.triggeringZones_rename]
  refine .foldlM (fun tour place => ?_) _ _
  refine (findZone ..).bind fun z => .foldlMSame (fun tour card => ?_) z.cards _
  refine (findZone ..).bind fun z' => ?_
  rw [Zone.contains_rename]
  split
  · exact (hfire _ _ _ _ _ _ haccepts).bind fun _ => .pure rfl
  · exact .pure rfl

theorem propagate (p : PlayerId) (subject : Subject) (stat : String) (change : StatChange) :
    Renames ρ id (propagate fire p subject stat change)
      (propagate fire (ρ.player p) subject stat change) := by
  have haccepts (t : Trigger) : (t.rename ρ).answers subject stat change =
      t.answers subject stat change := t.answers_rename ..
  exact (hfire.walk p _ _ _ haccepts).bind fun _ => (hfire.walk p _ _ _ haccepts).bind fun _ =>
    (hfire.walk p _ _ _ haccepts).bind fun _ => .pure rfl

theorem checkDestroy (p : PlayerId) (card : InstanceId) (index : Nat) :
    Renames ρ id (checkDestroy fire p card index)
      (checkDestroy fire (ρ.player p) card index) := by
  refine (findCard _).bind fun c => .bindDuel fun d _ => ?_
  have hconditions :
      ((d.rename ρ).catalog.cardType? (c.rename ρ).cardType).bind (·.destroyConditions[index]?) =
        (d.catalog.cardType? c.cardType).bind (·.destroyConditions[index]?) := by
    show ((d.catalog.rename ρ).cardType? (ρ.cardType c.cardType)).bind _ = _
    rw [Catalog.cardType?_rename]
    cases d.catalog.cardType? c.cardType <;> rfl
  rw [hconditions]
  cases (d.catalog.cardType? c.cardType).bind (·.destroyConditions[index]?) with
  | none => exact .pure rfl
  | some condition =>
    refine (soundSame (c.stats.value? condition.stat)).bind fun value => ?_
    cases value with
    | none => exact .pure rfl
    | some value =>
      dsimp only [id_eq]
      split
      · refine (findZone ..).bind fun board => ?_
        rw [Zone.contains_rename]
        split
        · exact hfire.move ..
        · exact .pure rfl
      · exact .pure rfl

theorem notify (b : Bearer) (stat : String) (change : StatChange) :
    Renames ρ id (notify fire b stat change) (notify fire (b.rename ρ) stat change) := by
  refine (Renames.note rfl).bind fun _ => .bindDuel fun d _ => ?_
  have hwatchers : (d.rename ρ).watchers.on (b.rename ρ) stat =
      (d.watchers.on b stat).map (·.rename ρ) := d.watchers.on_rename b stat
  rw [hwatchers]
  refine .forM (fun w => ?_) _
  cases w with
  | propagate p subject => exact hfire.propagate ..
  | destroy p card index => exact hfire.checkDestroy ..

theorem applyAndNotify (b : Bearer) (stat : String) {write write' : Engine (Option StatChange)}
    (before : Bool) (hwrite : Renames ρ id write write') :
    Renames ρ id (applyAndNotify fire b stat write before)
      (applyAndNotify fire (b.rename ρ) stat write' before) := by
  refine hwrite.bind fun change => ?_
  cases change with
  | none => exact .pure rfl
  | some change => exact (hfire.notify b stat change).bind fun _ => .pure rfl

theorem moveIfThere (place destination : ZoneId) (before : Bool) (card : InstanceId) :
    Renames ρ id (moveIfThere fire place destination before card)
      (moveIfThere fire (ρ.zone place) (ρ.zone destination) before card) := by
  refine .bindDuel fun d _ => ?_
  rw [d.location?_rename]
  cases d.location? card with
  | none => exact .pure rfl
  | some found =>
    obtain ⟨owner, current⟩ := found
    simp only [Option.map_some, EmbeddingLike.apply_eq_iff_eq]
    split
    · exact (hfire.move owner card place destination {}).bind fun _ => .pure rfl
    · exact .pure rfl

theorem resolve (acting : PlayerId) (source : InstanceId) (effect : Effect) (target : Target)
    (selection : Selection) :
    Renames ρ id (resolve fire acting source effect target selection)
      (resolve fire (ρ.player acting) source (effect.rename ρ) target (selection.rename ρ)) := by
  refine .bindDuel fun d hd => ?_
  rw [available_rename]
  split
  · cases target with
    | player kind conditions =>
      cases effect with
      | player e =>
        simp only [Effect.rename, playerPool_rename d hd]
        cases playerPool d acting selection kind with
        | error e => exact .pure rfl
        | ok pool =>
          refine (Renames.targets ρ.player .player .player (fun _ => rfl) conditions pool).bind
            fun targets => .foldlM (fun applied p => ?_) targets false
          exact hfire.applyAndNotify (.player p) e.stat applied (Renames.adjustStat ..)
      | card e => exact .pure rfl
      | move e => exact .pure rfl
    | card kind conditions =>
      cases effect with
      | player e => exact .pure rfl
      | card e =>
        simp only [Effect.rename, CardEffect.rename, cardPool_rename d]
        cases cardPool d acting source e.zone e.cardType selection kind with
        | error e => exact .pure rfl
        | ok pool =>
          refine (Renames.cardTargets conditions pool).bind fun targets => ?_
          refine .foldlMSame (fun applied card => ?_) targets false
          exact hfire.applyAndNotify (.card card) e.stat applied (Renames.adjustStat ..)
      | move e =>
        simp only [Effect.rename, MoveEffect.rename, cardPool_rename d, Selection.getD_rename]
        cases cardPool d acting source e.zone e.cardType selection kind with
        | error e => exact .pure rfl
        | ok pool =>
          refine (Renames.cardTargets conditions pool).bind fun targets => ?_
          exact .foldlMSame (fun _ _ => hfire.moveIfThere ..) targets false
  · exact .pure rfl

theorem resolveAll (acting : PlayerId) (source : InstanceId) (selection : Selection)
    (abilities : List TriggeredAbility) :
    Renames ρ id (resolveAll fire acting source selection abilities)
      (resolveAll fire (ρ.player acting) source (selection.rename ρ)
        (abilities.map (·.rename ρ))) := by
  refine .foldlM (fun resolved a => ?_) abilities 0
  refine (hfire.resolve acting source a.effect a.target selection).bind fun any => ?_
  dsimp only [id_eq]
  split <;> exact .pure rfl

end Equivariant

/-- **Calls on abilities end alike under a renaming**, by induction on the
rounds. -/
theorem equivariant_dispatch (limit rounds : Nat) : Equivariant ρ (dispatch limit rounds) := by
  induction rounds with
  | zero => exact fun _ _ _ _ _ _ _ => soundSame (.error .outOfRounds)
  | succ rounds ih =>
    intro player card kind accepts accepts' selection haccepts
    -- A renamed trigger is of the same kind, and the two tests agree on it.
    have hcalled (spec : CardSpec) :
        (spec.rename ρ).triggered.filter (fun a => a.trigger.kind = kind && accepts' a.trigger) =
          (spec.triggered.filter fun a =>
            a.trigger.kind = kind && accepts a.trigger).map (·.rename ρ) := by
      have htrigger (a : TriggeredAbility) : (a.rename ρ).trigger = a.trigger.rename ρ := rfl
      simp only [CardSpec.triggered_rename, List.filter_map, Function.comp_def, htrigger,
        Trigger.kind_rename, haccepts]
    refine (findSpec _).bind fun spec => Renames.depth.bind fun level => ?_
    dsimp only [id_eq]
    split
    · exact .refuse rfl
    · rw [hcalled]
      exact .nested ((Renames.note rfl).bind fun _ => ih.resolveAll ..)

/-! ## §5 Actions -/

namespace Engine.Renames

theorem attackOf (card : InstanceId) : Renames ρ id (attackOf card) (attackOf card) := by
  refine (findCard card).bind fun c => .bindDuel fun d _ => ?_
  exact (soundSame (c.stats.value? d.catalog.rules.attackStat)).bind fun _ => .pure rfl

theorem requireOnBoard (p : PlayerId) (card : InstanceId) :
    Renames ρ id (requireOnBoard p card) (requireOnBoard (ρ.player p) card) := by
  refine .bindDuel fun d _ => (findZone p d.catalog.rules.board).bind fun board => ?_
  rw [Zone.contains_rename]
  split
  · exact .pure rfl
  · exact .refuse rfl

theorem modifyZone (p : PlayerId) (place : ZoneId) {f : Zone → Zone}
    (hf : ∀ z, f (z.rename ρ) = (f z).rename ρ) :
    Renames ρ id (Engine.modifyDuel (·.modifyZone p place f))
      (Engine.modifyDuel (·.modifyZone (ρ.player p) (ρ.zone place) f)) :=
  .modifyDuel (fun d => d.modifyZone_rename hf p place) fun d => by simp

theorem setCurrent (p : PlayerId) : Renames ρ id (setCurrent p) (setCurrent (ρ.player p)) :=
  (findSeat p).bind fun _ => .modifyDuel (fun _ => rfl) fun _ => rfl

theorem drawLoop (p : PlayerId) (count : Nat) :
    Renames ρ id (drawLoop p count) (drawLoop (ρ.player p) count) := by
  induction count with
  | zero => exact .pure rfl
  | succ count ih =>
    refine .bindDuel fun d _ => (findZone p d.catalog.rules.deck).bind fun deck => ?_
    have htop : (deck.rename ρ).top? = deck.top? := rfl
    rw [htop]
    split
    · exact .pure rfl
    · refine (modifyZone p d.catalog.rules.deck (f := (·.dropTop)) fun _ => rfl).bind fun _ => ?_
      refine (modifyZone p d.catalog.rules.hand (f := (·.push _)) fun _ => rfl).bind fun _ => ?_
      exact ih.bind fun _ => .pure rfl

theorem drawCards (p : PlayerId) (count : Nat) :
    Renames ρ id (drawCards p count) (drawCards (ρ.player p) count) :=
  .bindDuel fun d _ => (findZone p d.catalog.rules.deck).bind fun _ =>
    (findZone p d.catalog.rules.hand).bind fun _ =>
      (soundSame (makeRoom count)).bind fun _ => drawLoop p count

theorem create (owner : PlayerId) (card : CardId) (place : ZoneId) :
    Renames ρ id (create owner card place)
      (create (ρ.player owner) (ρ.card card) (ρ.zone place)) where
  ends s _ := by
    have hcreate : (s.rename ρ).duel.create (ρ.player owner) (ρ.card card) (ρ.zone place) = _ :=
      s.duel.create_rename owner card place
    simp only [Play.create, bind_eq, Engine.find, hcreate]
    cases s.duel.create owner card place <;> rfl
  kept s hs s' hs' := by
    simp only [Play.create, bind_eq, Engine.find] at hs'
    cases hcreate : s.duel.create owner card place with
    | error e => rw [hcreate] at hs'; cases hs'; exact hs
    | ok r =>
      rw [hcreate] at hs'
      cases hs'
      obtain ⟨spec, -, -, hφ⟩ := Duel.fixture_create hcreate
      have hplayers : r.2.fixture.players = s.duel.fixture.players := by rw [hφ]; rfl
      exact hs.of_players hplayers

/-- The rule for a computation that registers watchers. -/
theorem register {α : Type} (b : Bearer) (name : α → String) {w w' : α → Watcher}
    (hw : ∀ a, w' a = (w a).rename ρ) (l : List α) :
    Renames ρ id
      (Engine.modifyDuel fun d =>
        { d with watchers := l.foldl (fun t a => t.register b (name a) (w a)) d.watchers })
      (Engine.modifyDuel fun d =>
        { d with
          watchers := l.foldl (fun t a => t.register (b.rename ρ) (name a) (w' a)) d.watchers }) := by
  obtain rfl : w' = fun a => (w a).rename ρ := funext hw
  exact .modifyDuel (fun d => congrArg (Duel.mk _ _ _ _ _ _ _) (d.watchers.registers_rename l))
    fun _ => rfl

theorem watchPlayer (p : PlayerId) : Renames ρ id (watchPlayer p) (watchPlayer (ρ.player p)) :=
  (findSeat p).bind fun s =>
    register (.player p) id (w := fun _ => .propagate p .player) (fun _ => rfl) s.stats.names

theorem watchCard (card : InstanceId) : Renames ρ id (watchCard card) (watchCard card) :=
  (findCard card).bind fun c =>
    register (.card card) id (w := fun _ => .propagate c.owner .card) (fun _ => rfl) c.stats.names

theorem watchDestroy (card : InstanceId) : Renames ρ id (watchDestroy card) (watchDestroy card) := by
  refine (findCard card).bind fun c => bind (f := (·.rename ρ)) (.find fun d => ?_) fun t => ?_
  · have htype : (d.rename ρ).catalog.cardType? (c.rename ρ).cardType =
        (d.catalog.cardType? c.cardType).map (·.rename ρ) := d.catalog.cardType?_rename c.cardType
    rw [htype]
    cases d.catalog.cardType? c.cardType <;> rfl
  · exact register (.card card) (fun r : Condition × Nat => r.1.stat)
      (w := fun r => .destroy c.owner card r.2) (fun _ => rfl) t.destroyConditions.zipIdx

end Engine.Renames

namespace Equivariant

variable {fire : Dispatch} (hfire : Equivariant ρ fire)
include hfire

theorem startTurn : Renames ρ id (startTurn fire) (startTurn fire) :=
  .bindDuel fun d _ => hfire.walk d.current .turnStarted (fun _ => true) _ fun _ => rfl

theorem expire (p : PlayerId) : Renames ρ id (expire fire p) (expire fire (ρ.player p)) := by
  refine (findSeat p).bind fun s => ?_
  have hbearers : (Bearer.player (ρ.player p) ::
      ((s.rename ρ).zones.flatMap (·.cards)).map Bearer.card) =
        (Bearer.player p :: (s.zones.flatMap (·.cards)).map Bearer.card).map (·.rename ρ) := by
    simp [Seat.rename, Bearer.rename, List.flatMap_map, Zone.rename]
  rw [hbearers]
  refine .forM (fun b => (Renames.ageStats b).bind fun changes => ?_) _
  exact .forMSame (fun r => hfire.notify b r.1 r.2) changes

theorem endTurn : Renames ρ id (endTurn fire) (endTurn fire) :=
  .bindDuel fun d _ =>
    (hfire.walk d.current .turnEnded (fun _ => true) (fun _ => true) fun _ => rfl).bind fun _ =>
      (hfire.expire d.current).bind fun _ => .pure rfl

theorem notifyBlow (b : Bearer) (life : String) (blow : Option StatChange) :
    Renames ρ id (notifyBlow fire b life blow) (notifyBlow fire (b.rename ρ) life blow) := by
  cases blow with
  | none => exact .pure rfl
  | some change => exact hfire.notify b life change

theorem attackPlayer (attacker : PlayerId) (card : InstanceId) :
    Renames ρ id (attackPlayer fire attacker card) (attackPlayer fire (ρ.player attacker) card) := by
  refine .bindDuel fun d _ => (findOpponent attacker).bind fun defender => ?_
  refine (Renames.requireOnBoard attacker card).bind fun _ => ?_
  refine (Renames.attackOf card).bind fun attack => ?_
  refine (Renames.writeStat (.player defender) _ _).bind fun blow => ?_
  exact hfire.notifyBlow (.player defender) ..

theorem attackCard (attacker : PlayerId) (card target : InstanceId) :
    Renames ρ id (attackCard fire attacker card target)
      (attackCard fire (ρ.player attacker) card target) := by
  refine .bindDuel fun d _ => (findOpponent attacker).bind fun defender => ?_
  refine (Renames.requireOnBoard attacker card).bind fun _ => ?_
  refine (Renames.requireOnBoard defender target).bind fun _ => ?_
  refine (Renames.attackOf card).bind fun attack => (Renames.attackOf target).bind fun answer => ?_
  refine (Renames.writeStat (.card target) _ _).bind fun blow => ?_
  refine (Renames.writeStat (.card card) _ _).bind fun counterblow => ?_
  exact (hfire.notifyBlow (.card target) ..).bind fun _ => hfire.notifyBlow (.card card) ..

theorem activate (p : PlayerId) (card : InstanceId) (index : Nat) (selection : Selection) :
    Renames ρ id (activate fire p card index selection)
      (activate fire (ρ.player p) card index (selection.rename ρ)) := by
  refine (findSeat p).bind fun _ => (findSpec card).bind fun spec => ?_
  rw [CardSpec.activated_rename, List.getElem?_map, List.length_map]
  cases spec.activated[index]? with
  | none => exact .refuse rfl
  | some a => exact hfire.resolve p card a.effect a.target selection

/-- **Actions end alike under a renaming.** -/
theorem run (a : Action) : Renames ρ id (a.run fire) ((a.rename ρ).run fire) := by
  cases a with
  | startTurn => exact hfire.startTurn.map _
  | endTurn => exact hfire.endTurn.map _
  | setCurrent p => exact (Renames.setCurrent p).map _
  | move p card origin destination selection =>
    exact (hfire.move p card origin destination selection).map _
  | draw p count => exact (Renames.drawCards p count).map _
  | create owner card place => exact (Renames.create owner card place).map _
  | attackPlayer attacker card => exact (hfire.attackPlayer attacker card).map _
  | attackCard attacker card target => exact (hfire.attackCard attacker card target).map _
  | activate p card index selection => exact (hfire.activate p card index selection).map _
  | dispatch p card kind accepts selection =>
    refine (hfire p card kind accepts _ selection fun t => ?_).map _
    rw [Trigger.rename_symm_rename]
  | watchPlayer p => exact (Renames.watchPlayer p).map _
  | watchCard card => exact (Renames.watchCard card).map _
  | watchDestroy card => exact (Renames.watchDestroy card).map _

end Equivariant

namespace Duel

theorem perform_rename {d : Duel} (hd : d.OrderKept ρ) (limit : Nat) (a : Action) :
    (d.rename ρ).perform limit (a.rename ρ) = (d.perform limit a).rename ρ (·.rename ρ) id ∧
      ∀ d' ∈ (d.perform limit a).state?, d'.OrderKept ρ := by
  have hrun : Renames ρ id _ _ := (equivariant_dispatch limit (limit + 1)).run a
  have hends : (d.rename ρ).record limit (a.rename ρ) =
      (d.record limit a).rename ρ (·.rename ρ) id := hrun.ends ⟨d, [], 0⟩ hd
  constructor
  · rw [perform, hends, perform]
    cases d.record limit a <;> rfl
  · intro d' hd'
    rw [perform, Outcome.state?_mapState, Option.mem_map] at hd'
    obtain ⟨s, hs, rfl⟩ := hd'
    exact hrun.kept ⟨d, [], 0⟩ hd s hs

theorem outcomes_rename {d : Duel} (hd : d.OrderKept ρ) (limit : Nat) (actions : List Action) :
    (d.rename ρ).outcomes limit (actions.map (·.rename ρ)) =
      (d.outcomes limit actions).map (·.rename ρ (·.rename ρ) id) := by
  induction actions generalizing d with
  | nil => rfl
  | cons a rest ih =>
    obtain ⟨hperform, hkept⟩ := perform_rename hd limit a
    simp only [List.map_cons, outcomes, hperform]
    cases hfirst : d.perform limit a with
    | done reply d' =>
      rw [hfirst] at hkept
      exact congrArg _ (ih (hkept d' rfl))
    | refused e d' =>
      rw [hfirst] at hkept
      exact congrArg _ (ih (hkept d' rfl))
    | fault cause => rfl

end Duel

/-- **Numbers are nothing but names.** Give players, prints, card types and zones
other numbers, in the catalog, for the players who enter and in all
actions. Validation accepts the catalog or meets the same fault, and a
duel starts or fails for the same reason. Where the two players keep
their order, a run then goes the same way step by step: with the same
replies, the renamed errors and the renamed duels, in which the numbers
of cards in play, the stats and the generator are as they were. -/
theorem numbers_are_names (ρ : Renaming) (c : Catalog) (seed : UInt64) (first second : Entrant) :
    (c.rename ρ).validate = c.validate.bimap (·.rename ρ) id ∧
    Duel.start (c.rename ρ) seed (first.rename ρ) (second.rename ρ) =
      (Duel.start c seed first second).bimap (·.rename ρ) (·.rename ρ) ∧
    ∀ d, Duel.start c seed first second = .ok d → ρ.KeepsOrder first.id second.id →
      ∀ limit actions, (d.rename ρ).outcomes limit (actions.map (·.rename ρ)) =
        (d.outcomes limit actions).map (·.rename ρ (·.rename ρ) id) := by
  refine ⟨c.validate_rename, Duel.start_rename c seed first second,
    fun d hd horder limit actions => Duel.outcomes_rename ?_ limit actions⟩
  have hplayers := Duel.players_of_start hd
  simp only [Fixture.players, Duel.fixture, List.cons.injEq, and_true] at hplayers
  rw [Duel.OrderKept, hplayers.1, hplayers.2]
  exact horder

/-- The second player gets another number, and the deck and the graveyard,
the two prints and the two types trade theirs. -/
def Starter.swaps : Renaming where
  player := Equiv.swap ⟨2⟩ ⟨9⟩
  card := Equiv.swap grunt.id spark.id
  cardType := Equiv.swap creature.id spell.id
  zone := Equiv.swap deck graveyard

/-- A creature and a spell are played under the swapped numbers as under
the old ones. -/
theorem play_under_swapped_numbers :
    ∃ d, Duel.start (Starter.catalog {}) 7 ⟨⟨1⟩, [⟨1⟩, ⟨2⟩]⟩ ⟨⟨2⟩, [⟨1⟩]⟩ = .ok d ∧
      d.rename Starter.swaps ≠ d ∧
      ∀ actions : List Action, (d.rename Starter.swaps).outcomes 64
          (actions.map (·.rename Starter.swaps)) =
        (d.outcomes 64 actions).map (·.rename Starter.swaps (·.rename Starter.swaps) id) := by
  obtain ⟨d, hd, hne⟩ := @Duel.exists_of_start (Starter.catalog {}) 7 ⟨⟨1⟩, [⟨1⟩, ⟨2⟩]⟩ ⟨⟨2⟩, [⟨1⟩]⟩
    (fun d => d.rename Starter.swaps ≠ d) (by decide +kernel)
  refine ⟨d, hd, hne, fun actions => ?_⟩
  exact (numbers_are_names Starter.swaps _ _ _ _).2.2 d hd (by decide +kernel) 64 actions

end CardDuel
