/-
CardDuel.Proofs.Simulation — the same computation on two duels.

`Sim D V m m'` says of two computations that from scenes whose duels `D`
relates they end alike: both done with values that `V` relates, or both
refused with the same error, or both with the same fault, and again with
duels that `D` relates. There is one rule for each way to build a
computation. `Mirror K D` lists what is asked of a relation on duels that
differ in their catalogs and their registrations only, and from it
follows, one lemma for each computation of a chain, that no chain can
tell such duels apart. `K` are the kinds of triggers for which abilities
may be called up: the duels have to be alike in the abilities of these
kinds, and need not be in the others.

  §1 Endings — outcomes and computations that correspond.
  §2 Rules   — one for each way to build a computation.
  §3 Mirrors — duels that differ in what chains do not look at.
  §4 Chains  — no computation of a chain tells mirrored duels apart.
  §5 Actions — nor does an action, nor a list of them.
-/
import CardDuel.Proofs.Limit

namespace CardDuel

open Engine Play

/-! ## §1 Endings -/

/-- The outcomes are alike, with values that `V` relates and states that
`R` relates. -/
inductive Outcome.Match {σ τ α β : Type} (R : σ → τ → Prop) (V : α → β → Prop) :
    Outcome σ α → Outcome τ β → Prop where
  | done {a : α} {b : β} {s : σ} {t : τ} (hv : V a b) (hs : R s t) : Match R V (done a s) (done b t)
  | refused {s : σ} {t : τ} (e : DuelError) (hs : R s t) : Match R V (refused e s) (refused e t)
  | fault (cause : Fault) : Match R V (fault cause) (fault cause)

theorem Outcome.Match.mapState {σ τ σ' τ' α β : Type} {R : σ → τ → Prop} {R' : σ' → τ' → Prop}
    {V : α → β → Prop} {o : Outcome σ α} {o' : Outcome τ β} {f : σ → σ'} {g : τ → τ'}
    (h : o.Match R V o') (hR : ∀ s t, R s t → R' (f s) (g t)) :
    (o.mapState f).Match R' V (o'.mapState g) := by
  cases h with
  | done hv hs => exact .done hv (hR _ _ hs)
  | refused e hs => exact .refused e (hR _ _ hs)
  | fault cause => exact .fault cause

@[simp] theorem Outcome.mapState_id {σ α : Type} (o : Outcome σ α) : o.mapState id = o := by
  cases o <;> rfl

/-- The duels of the scenes are as `D` says, and all else in them is the
same. -/
structure Scene.Match (D : Duel → Duel → Prop) (s t : Scene) : Prop where
  duel : D s.duel t.duel
  journal : t.journal = s.journal
  depth : t.depth = s.depth

namespace Engine

/-- From scenes that correspond, the computations end alike. -/
structure Sim {α β : Type} (D : Duel → Duel → Prop) (V : α → β → Prop) (m : Engine α)
    (m' : Engine β) : Prop where
  ends : ∀ s t, s.Match D t → (m s).Match (Scene.Match D) V (m' t)

namespace Sim

/-! ## §2 Rules -/

variable {D : Duel → Duel → Prop} {α β γ δ : Type} {V : α → β → Prop} {W : γ → δ → Prop}
variable {m : Engine α} {m' : Engine β}

theorem pure {a : α} {b : β} (h : V a b) : Sim D V (pure a) (pure b) :=
  ⟨fun _ _ hst => .done h hst⟩

theorem bindRel {f : α → Engine γ} {f' : β → Engine δ} (first : Sim D V m m')
    (next : ∀ a b, V a b → Sim D W (f a) (f' b)) : Sim D W (m >>= f) (m' >>= f') := by
  refine ⟨fun s t hst => ?_⟩
  have hfirst := first.ends s t hst
  rw [bind_eq, bind_eq]
  generalize m s = o at hfirst
  generalize m' t = o' at hfirst
  cases hfirst with
  | done hv hs => exact (next _ _ hv).ends _ _ hs
  | refused e hs => exact .refused e hs
  | fault cause => exact .fault cause

/-- The rule for computations that go on with one value. -/
theorem bind {f : α → Engine γ} {f' : α → Engine δ} {m m' : Engine α} (first : Sim D Eq m m')
    (next : ∀ a, Sim D W (f a) (f' a)) : Sim D W (m >>= f) (m' >>= f') :=
  first.bindRel fun a _ hab => hab ▸ next a

theorem map {f : α → γ} {m m' : Engine α} (h : Sim D Eq m m') : Sim D Eq (f <$> m) (f <$> m') := by
  rw [← bind_pure_comp, ← bind_pure_comp]
  exact h.bind fun a => pure rfl

theorem duel : Sim D D Engine.duel Engine.duel := ⟨fun _ _ hst => .done hst.duel hst⟩

theorem modifyDuel {f f' : Duel → Duel} (h : ∀ d d', D d d' → D (f d) (f' d')) :
    Sim D Eq (Engine.modifyDuel f) (Engine.modifyDuel f') :=
  ⟨fun _ _ hst => .done rfl ⟨h _ _ hst.duel, hst.journal, hst.depth⟩⟩

theorem note (e : Event) : Sim D Eq (Engine.note e) (Engine.note e) :=
  ⟨fun _ _ hst => .done rfl ⟨hst.duel, congrArg (e :: ·) hst.journal, hst.depth⟩⟩

theorem refuse (e : DuelError) : Sim D V (Engine.refuse e) (Engine.refuse e) :=
  ⟨fun _ _ hst => .refused e hst⟩

theorem findRel {look : Duel → Except LookupError α} {look' : Duel → Except LookupError β}
    (h : ∀ d d', D d d' → (∃ a b, look d = .ok a ∧ look' d' = .ok b ∧ V a b) ∨
      ∃ e, look d = .error e ∧ look' d' = .error e) :
    Sim D V (Engine.find look) (Engine.find look') := by
  refine ⟨fun s t hst => ?_⟩
  simp only [Engine.find]
  rcases h _ _ hst.duel with ⟨a, b, ha, hb, hv⟩ | ⟨e, he, he'⟩
  · rw [ha, hb]
    exact .done hv hst
  · rw [he, he']
    exact .refused _ hst

theorem find {look look' : Duel → Except LookupError α} (h : ∀ d d', D d d' → look' d' = look d) :
    Sim D Eq (Engine.find look) (Engine.find look') := by
  refine findRel fun d d' hD => ?_
  rw [h d d' hD]
  cases look d with
  | ok a => exact .inl ⟨a, a, rfl, rfl, rfl⟩
  | error e => exact .inr ⟨e, rfl, rfl⟩

theorem sound (x : Except Fault α) : Sim D Eq (Engine.sound x) (Engine.sound x) := by
  refine ⟨fun s t hst => ?_⟩
  cases x with
  | ok a => exact .done rfl hst
  | error cause => exact .fault cause

theorem depth : Sim D Eq Engine.depth Engine.depth :=
  ⟨fun _ _ hst => .done hst.depth.symm hst⟩

theorem nested (h : Sim D V m m') : Sim D V (Engine.nested m) (Engine.nested m') := by
  refine ⟨fun s t hst => ?_⟩
  have hinner := h.ends { s with depth := s.depth + 1 } { t with depth := t.depth + 1 }
    ⟨hst.duel, hst.journal, congrArg (· + 1) hst.depth⟩
  exact hinner.mapState fun s' t' hst' => ⟨hst'.duel, hst'.journal, congrArg (· - 1) hst'.depth⟩

theorem foldlM {f f' : γ → α → Engine γ} (h : ∀ b a, Sim D Eq (f b a) (f' b a)) (l : List α)
    (b : γ) : Sim D Eq (l.foldlM f b) (l.foldlM f' b) := by
  induction l generalizing b with
  | nil => exact pure rfl
  | cons a rest ih =>
    rw [List.foldlM_cons, List.foldlM_cons]
    exact (h b a).bind ih

theorem forM {f f' : α → Engine Unit} (h : ∀ a, Sim D Eq (f a) (f' a)) (l : List α) :
    Sim D Eq (l.forM f) (l.forM f') := by
  induction l with
  | nil => exact pure rfl
  | cons a rest ih => exact (h a).bind fun _ => ih

/-- A computation that goes on with a part of a print. -/
theorem printed {id : InstanceId} {f f' : CardSpec → Engine γ} (part : CardSpec → α)
    (h : ∀ d d', D d d' → (d'.specOf id).map part = (d.specOf id).map part)
    (next : ∀ spec spec', part spec' = part spec → Sim D Eq (f spec) (f' spec')) :
    Sim D Eq (Engine.find (·.specOf id) >>= f) (Engine.find (·.specOf id) >>= f') := by
  refine bindRel (V := fun spec spec' => part spec' = part spec) (findRel fun d d' hD => ?_) next
  have hpart := h d d' hD
  cases hs : d.specOf id with
  | ok spec =>
    cases ht : d'.specOf id with
    | ok spec' =>
      rw [hs, ht] at hpart
      exact .inl ⟨spec, spec', rfl, rfl, Except.ok.inj hpart⟩
    | error e => rw [hs, ht] at hpart; cases hpart
  | error e =>
    cases ht : d'.specOf id with
    | ok spec' => rw [hs, ht] at hpart; cases hpart
    | error e' =>
      rw [hs, ht] at hpart
      cases hpart
      exact .inr ⟨e, rfl, rfl⟩

end Sim

end Engine

/-! ## §3 Mirrors -/

namespace Duel

/-- The duel with another catalog and other registrations. -/
def reset (d : Duel) (c : Catalog) (w : WatchTable) : Duel := { d with catalog := c, watchers := w }

/-- The update neither looks at catalog and registrations nor changes
them. -/
structure Bare (f : Duel → Duel) : Prop where
  reset : ∀ d c w, f (d.reset c w) = (f d).reset c w

theorem Bare.comp {f g : Duel → Duel} (hf : Bare f) (hg : Bare g) : Bare fun d => g (f d) := by
  refine ⟨fun d c w => ?_⟩
  rw [hf.reset, hg.reset]

/-- A bare update keeps the catalog and the registrations. -/
theorem Bare.kept {f : Duel → Duel} (hf : Bare f) (d : Duel) :
    (f d).catalog = d.catalog ∧ (f d).watchers = d.watchers := by
  have hreset : f d = (f d).reset d.catalog d.watchers :=
    hf.reset d d.catalog d.watchers
  have hcatalog : (f d).catalog = ((f d).reset d.catalog d.watchers).catalog :=
    congrArg Duel.catalog hreset
  have hwatchers : (f d).watchers = ((f d).reset d.catalog d.watchers).watchers :=
    congrArg Duel.watchers hreset
  exact ⟨hcatalog, hwatchers⟩

theorem bare_modifySeat (p : PlayerId) (f : Seat → Seat) : Bare (·.modifySeat p f) := by
  refine ⟨fun d c w => ?_⟩
  by_cases hfirst : d.first.id = p
  · simp [modifySeat, reset, hfirst]
  · by_cases hsecond : d.second.id = p
    · simp [modifySeat, reset, hfirst, hsecond]
    · simp [modifySeat, reset, hfirst, hsecond]

theorem bare_modifyZone (p : PlayerId) (z : ZoneId) (f : Zone → Zone) : Bare (·.modifyZone p z f) :=
  bare_modifySeat p _

theorem bare_transfer (p : PlayerId) (card : InstanceId) (origin destination : ZoneId) :
    Bare (·.transfer p card origin destination) :=
  (bare_modifyZone p origin _).comp (bare_modifyZone p destination _)

theorem bare_putStats (b : Bearer) (block : StatBlock) : Bare (·.putStats b block) := by
  cases b with
  | player p => exact bare_modifySeat p fun s => { s with stats := block }
  | card id => exact ⟨fun d c w => rfl⟩

end Duel

section
variable (d : Duel) (c : Catalog) (w : WatchTable)

@[simp] theorem Duel.opponent_reset : (d.reset c w).opponent = d.opponent := rfl

@[simp] theorem Duel.zone_reset : (d.reset c w).zone = d.zone := rfl

@[simp] theorem Duel.isOfType_reset : (d.reset c w).isOfType = d.isOfType := rfl

@[simp] theorem Duel.stats_reset : (d.reset c w).stats = d.stats := by
  funext b
  cases b <;> rfl

@[simp] theorem Duel.statValue?_reset : (d.reset c w).statValue? = d.statValue? := by
  funext b stat
  simp [statValue?]

@[simp] theorem satisfies_reset (b : Bearer) (conditions : List Condition) :
    satisfies (d.reset c w) b conditions = satisfies d b conditions := by
  induction conditions with
  | nil => rfl
  | cons k rest ih => simp [satisfies, ih]

@[simp] theorem keepSatisfying_reset {α : Type} (bearer : α → Bearer)
    (conditions : List Condition) (l : List α) :
    keepSatisfying (d.reset c w) bearer conditions l = keepSatisfying d bearer conditions l := by
  induction l with
  | nil => rfl
  | cons a rest ih => simp [keepSatisfying, ih]

@[simp] theorem liesIn_reset (place : ZoneId) (card : InstanceId) (players : List PlayerId) :
    liesIn (d.reset c w) place card players = liesIn d place card players := by
  induction players with
  | nil => rfl
  | cons p rest ih => simp [liesIn, ih]

@[simp] theorem candidates_reset (place : ZoneId) (t : CardTypeId) (players : List PlayerId) :
    candidates (d.reset c w) place t players = candidates d place t players := by
  induction players with
  | nil => rfl
  | cons p rest ih => simp [candidates, ih]

@[simp] theorem hasCandidate_reset (place : ZoneId) (t : CardTypeId) :
    hasCandidate (d.reset c w) place t = hasCandidate d place t := rfl

@[simp] theorem available_reset (acting : PlayerId) (effect : Effect) (target : Target)
    (selection : Selection) :
    available (d.reset c w) acting effect target selection =
      available d acting effect target selection := by
  simp [available, cardAvailable]

@[simp] theorem playerPool_reset (acting : PlayerId) (selection : Selection) (kind : PlayerTarget) :
    playerPool (d.reset c w) acting selection kind = playerPool d acting selection kind := rfl

@[simp] theorem cardPool_reset (acting : PlayerId) (source : InstanceId) (place : ZoneId)
    (t : CardTypeId) (selection : Selection) (kind : CardTarget) :
    cardPool (d.reset c w) acting source place t selection kind =
      cardPool d acting source place t selection kind := by
  simp [cardPool]

end

/-- The second catalog has the same prints and types as the first one, as
far as a new card reads them. -/
structure Catalog.PrintsAlike (c c' : Catalog) : Prop where
  card : ∀ id, (c'.card? id).map (fun s => (s.id, s.cardType, s.overrides)) =
    (c.card? id).map fun s => (s.id, s.cardType, s.overrides)
  cardType : ∀ id, (c'.cardType? id).map CardType.stats = (c.cardType? id).map CardType.stats

theorem Catalog.PrintsAlike.refl (c : Catalog) : c.PrintsAlike c := ⟨fun _ => rfl, fun _ => rfl⟩

theorem Card.ofSpec_congr {id : InstanceId} {spec spec' : CardSpec} {t t' : CardType}
    {owner : PlayerId}
    (h : (spec'.id, spec'.cardType, spec'.overrides) = (spec.id, spec.cardType, spec.overrides))
    (ht : t'.stats = t.stats) : Card.ofSpec id spec' t' owner = Card.ofSpec id spec t owner := by
  simp only [Prod.mk.injEq] at h
  simp [Card.ofSpec, CardSpec.stats, CardSpec.override?, h, ht]

namespace Duel

/-- A card is created in the same way on a catalog with the same prints. -/
theorem create_reset {d : Duel} {c : Catalog} (h : d.catalog.PrintsAlike c) (w : WatchTable)
    (owner : PlayerId) (card : CardId) (place : ZoneId) :
    (d.reset c w).create owner card place =
      (d.create owner card place).map fun r => (r.1, r.2.reset c w) := by
  have hcatalog : (d.reset c w).catalog = c := rfl
  have hcard := h.card card
  simp only [create, hcatalog, zone_reset]
  cases hspec : d.catalog.card? card with
  | none =>
    rw [hspec, Option.map_none, Option.map_eq_none_iff] at hcard
    rw [hcard]
    rfl
  | some spec =>
    rw [hspec, Option.map_some, Option.map_eq_some_iff] at hcard
    obtain ⟨spec', hspec', heq⟩ := hcard
    have htypes : spec'.cardType = spec.cardType := (Prod.mk.inj (Prod.mk.inj heq).2).1
    have htype := h.cardType spec.cardType
    simp only [hspec', htypes, Bind.bind, Except.bind]
    cases ht : d.catalog.cardType? spec.cardType with
    | none =>
      rw [ht, Option.map_none, Option.map_eq_none_iff] at htype
      rw [htype]
      rfl
    | some t =>
      rw [ht, Option.map_some, Option.map_eq_some_iff] at htype
      obtain ⟨t', ht', hstats⟩ := htype
      rw [ht']
      cases d.zone owner place with
      | error e => rfl
      | ok z =>
        refine congrArg Except.ok (congrArg (Prod.mk _) ?_)
        show Duel.modifyZone _ _ _ _ = _
        rw [← (bare_modifyZone owner place _).reset]
        simp only [Card.ofSpec_congr heq hstats]
        rfl

end Duel

/-- The kind is that of a trigger that watches a stat. -/
def TriggerKind.ofStat : TriggerKind → Bool
  | statIncreased | statDecreased | statReached => true
  | _ => false

/-- The triggered abilities of a print that are of a kind. -/
def CardSpec.triggeredBy (spec : CardSpec) (kind : TriggerKind) : List TriggeredAbility :=
  spec.triggered.filter (·.trigger.kind = kind)

theorem CardSpec.filter_triggered (spec : CardSpec) {kind : TriggerKind}
    {accepts : Trigger → Bool} :
    spec.triggered.filter (fun a => a.trigger.kind = kind && accepts a.trigger) =
      (spec.triggeredBy kind).filter (fun a => accepts a.trigger) := by
  simp only [triggeredBy, List.filter_filter, Bool.and_comm]

/-- Calls on abilities of the kinds `K` end alike. -/
def Calls (K : TriggerKind → Prop) (D : Duel → Duel → Prop) (fire : Dispatch) : Prop :=
  ∀ player card kind accepts selection, K kind →
    Sim D Eq (fire player card kind accepts selection) (fire player card kind accepts selection)

/-- The duels that are related differ in catalog and registrations only,
and their catalogs are alike in what chains read that call up abilities
of the kinds `K`, those of moves and turns among them. -/
structure Likeness (K : TriggerKind → Prop) (D : Duel → Duel → Prop) : Prop where
  plain : ∀ {kind : TriggerKind}, kind.ofStat = false → K kind
  differ : ∀ {d d'}, D d d' → ∃ c w, d' = d.reset c w
  update : ∀ {d d' f}, D d d' → Duel.Bare f → D (f d) (f d')
  rules : ∀ {d d'}, D d d' → d'.catalog.rules = d.catalog.rules
  prints : ∀ {d d'}, D d d' → d.catalog.PrintsAlike d'.catalog
  after : ∀ {d d'} t, D d d' →
    (d'.catalog.cardType? t).bind (·.zoneAfterTrigger) =
      (d.catalog.cardType? t).bind (·.zoneAfterTrigger)
  triggered : ∀ {d d' kind} id, K kind → D d d' →
    (d'.specOf id).map (·.triggeredBy kind) = (d.specOf id).map (·.triggeredBy kind)
  activated : ∀ {d d'} id, D d d' →
    (d'.specOf id).map CardSpec.activated = (d.specOf id).map CardSpec.activated

/-- What is asked of a relation on duels so that no chain tells them
apart: that telling the watchers ends alike, too. -/
structure Mirror (K : TriggerKind → Prop) (D : Duel → Duel → Prop) : Prop
    extends Likeness K D where
  notify : ∀ {fire} b stat change, Calls K D fire →
    Sim D Eq (notify fire b stat change) (notify fire b stat change)

namespace Likeness

variable {K : TriggerKind → Prop} {D : Duel → Duel → Prop} (L : Likeness K D)
include L

/-- A look-up that does not ask for catalog and registrations. -/
theorem find {α : Type} {look : Duel → Except LookupError α}
    (h : ∀ d c w, look (Duel.reset d c w) = look d) : Sim D Eq (find look) (find look) := by
  refine Sim.find fun d d' hD => ?_
  obtain ⟨c, w, rfl⟩ := L.differ hD
  exact h d c w

theorem modifyDuel {f : Duel → Duel} (h : Duel.Bare f) : Sim D Eq (modifyDuel f) (modifyDuel f) :=
  Sim.modifyDuel fun _ _ hD => L.update hD h

theorem draw {α : Type} (roll : Random.Generator → α × Random.Generator) :
    Sim D Eq (draw roll) (draw roll) := by
  refine ⟨fun s t hst => ?_⟩
  have hbare : Duel.Bare fun d => { d with generator := (roll d.generator).2 } :=
    ⟨fun d c w => rfl⟩
  obtain ⟨c, w, ht⟩ := L.differ hst.duel
  have hgenerator : t.duel.generator = s.duel.generator := by rw [ht]; rfl
  refine .done ?_ ⟨L.update hst.duel hbare, hst.journal, hst.depth⟩
  rw [hgenerator]

/-! ## §4 Chains -/

variable {fire : Dispatch}

theorem relocate (player : PlayerId) (card : InstanceId) (t : CardTypeId) (destination : ZoneId) :
    Sim D Eq (relocate player card t destination) (relocate player card t destination) := by
  refine Sim.duel.bindRel fun d d' hD => ?_
  rw [L.after t hD]
  split
  · exact .pure rfl
  · split
    · exact .pure rfl
    · refine (L.find fun _ _ _ => rfl).bind fun z => ?_
      split
      · exact (L.find fun _ _ _ => rfl).bind fun _ => L.modifyDuel (Duel.bare_transfer ..)
      · exact .pure rfl

theorem move (hfire : Calls K D fire) (player : PlayerId) (card : InstanceId)
    (origin destination : ZoneId) (selection : Selection) :
    Sim D Eq (move fire player card origin destination selection)
      (move fire player card origin destination selection) := by
  refine (L.find fun _ _ _ => rfl).bind fun c => (L.find fun _ _ _ => rfl).bind fun z => ?_
  split
  · refine (L.find fun _ _ _ => rfl).bind fun _ => ?_
    refine (L.modifyDuel (Duel.bare_transfer ..)).bind fun _ => ?_
    refine (hfire _ _ _ _ _ (L.plain rfl)).bind fun _ => ?_
    refine (hfire _ _ _ _ _ (L.plain rfl)).bind fun _ => ?_
    exact L.relocate ..
  · exact .refuse _

theorem walk (hfire : Calls K D fire) (player : PlayerId) {kind : TriggerKind} (hkind : K kind)
    (accepts : Trigger → Bool) :
    Sim D Eq (walk fire player kind accepts) (walk fire player kind accepts) := by
  refine Sim.bind ?_ fun _ => .pure rfl
  refine (L.find fun _ _ _ => rfl).bind fun s => .foldlM (fun tour place => ?_) _ _
  refine (L.find fun _ _ _ => rfl).bind fun z => .foldlM (fun tour card => ?_) _ _
  refine (L.find fun _ _ _ => rfl).bind fun z' => ?_
  split
  · exact (hfire _ _ _ _ _ hkind).bind fun _ => .pure rfl
  · exact .pure rfl

theorem propagate (hfire : Calls K D fire) (hall : ∀ kind, K kind) (player : PlayerId)
    (subject : Subject) (stat : String) (change : StatChange) :
    Sim D Eq (propagate fire player subject stat change)
      (propagate fire player subject stat change) :=
  (L.walk hfire player (hall _) _).bind fun _ => (L.walk hfire player (hall _) _).bind fun _ =>
    (L.walk hfire player (hall _) _).bind fun _ => .pure rfl

theorem writeStat (b : Bearer) (stat : String)
    (write : Stat → Except Fault (StatChange × Stat)) :
    Sim D Eq (writeStat b stat write) (writeStat b stat write) := by
  refine (L.find fun _ _ _ => by simp).bind fun block => ?_
  split
  · exact .pure rfl
  · refine (Sim.sound _).bind fun _ => (L.modifyDuel (Duel.bare_putStats ..)).bind fun _ => ?_
    exact (Sim.note _).bind fun _ => .pure rfl

theorem adjustStat (b : Bearer) (stat : String) (adjustment : Adjustment) (amount : Amount)
    (turns : UInt32) :
    Sim D Eq (adjustStat b stat adjustment amount turns)
      (adjustStat b stat adjustment amount turns) := by
  refine (L.find fun _ _ _ => by simp).bind fun block => ?_
  split
  · exact (L.draw _).bind fun _ => L.writeStat ..
  · exact .pure rfl

theorem moveIfThere (hfire : Calls K D fire) (place destination : ZoneId) (before : Bool)
    (card : InstanceId) :
    Sim D Eq (moveIfThere fire place destination before card)
      (moveIfThere fire place destination before card) := by
  refine Sim.duel.bindRel fun d d' hD => ?_
  obtain ⟨c, w, rfl⟩ := L.differ hD
  have hlocation : (d.reset c w).location? card = d.location? card := rfl
  simp only [hlocation]
  split
  · split
    · exact (L.move hfire ..).bind fun _ => .pure rfl
    · exact .pure rfl
  · exact .pure rfl

theorem targets {α : Type} (bearer : α → Bearer) (conditions : List Condition) (pool : Pool α) :
    Sim D Eq (pool.targets bearer conditions) (pool.targets bearer conditions) := by
  refine Sim.bind ?_ fun chosen => Sim.duel.bindRel fun d d' hD => ?_
  · cases pool with
    | every members => exact .pure rfl
    | oneOf members => exact (L.draw _).bind fun _ => .pure rfl
  · obtain ⟨c, w, rfl⟩ := L.differ hD
    rw [keepSatisfying_reset]
    exact .sound _

end Likeness

namespace Mirror

variable {K : TriggerKind → Prop} {D : Duel → Duel → Prop} {fire : Dispatch}
variable (M : Mirror K D)
include M

theorem applyAndNotify (hfire : Calls K D fire) (b : Bearer) (stat : String)
    {write : Engine (Option StatChange)} (before : Bool) (hwrite : Sim D Eq write write) :
    Sim D Eq (applyAndNotify fire b stat write before)
      (applyAndNotify fire b stat write before) := by
  refine hwrite.bind fun change => ?_
  cases change with
  | none => exact .pure rfl
  | some change => exact (M.notify _ _ _ hfire).bind fun _ => .pure rfl

theorem resolve (hfire : Calls K D fire) (acting : PlayerId) (source : InstanceId) (effect : Effect)
    (target : Target) (selection : Selection) :
    Sim D Eq (resolve fire acting source effect target selection)
      (resolve fire acting source effect target selection) := by
  refine Sim.duel.bindRel fun d d' hD => ?_
  obtain ⟨c, w, rfl⟩ := M.differ hD
  simp only [available_reset, playerPool_reset, cardPool_reset]
  split
  · split
    · split
      · exact .pure rfl
      · exact (M.targets ..).bind fun _ =>
          .foldlM (fun applied _ => M.applyAndNotify hfire _ _ applied (M.adjustStat ..)) _ _
    · split
      · exact .pure rfl
      · exact (M.targets ..).bind fun _ =>
          .foldlM (fun applied _ => M.applyAndNotify hfire _ _ applied (M.adjustStat ..)) _ _
    · split
      · exact .pure rfl
      · exact (M.targets ..).bind fun _ => .foldlM (fun _ _ => M.moveIfThere hfire ..) _ _
    · exact .pure rfl
  · exact .pure rfl

theorem resolveAll (hfire : Calls K D fire) (acting : PlayerId) (source : InstanceId)
    (selection : Selection) (abilities : List TriggeredAbility) :
    Sim D Eq (resolveAll fire acting source selection abilities)
      (resolveAll fire acting source selection abilities) := by
  refine .foldlM (fun resolved a => (M.resolve hfire ..).bind fun any => ?_) _ _
  split <;> exact .pure rfl

/-- **Calls on abilities end alike**, by induction on the rounds. -/
theorem dispatch (limit rounds : Nat) : Calls K D (dispatch limit rounds) := by
  induction rounds with
  | zero => exact fun _ _ _ _ _ _ => Sim.sound (.error .outOfRounds)
  | succ rounds ih =>
    intro player card kind accepts selection hkind
    refine Sim.printed (·.triggeredBy kind) (fun d d' hD => M.triggered card hkind hD)
      fun spec spec' hspec => ?_
    rw [spec'.filter_triggered, hspec, ← spec.filter_triggered]
    refine Sim.depth.bind fun level => ?_
    split
    · exact .refuse _
    · exact .nested ((Sim.note _).bind fun _ => M.resolveAll ih ..)

end Mirror

/-! ## §5 Actions -/

namespace Likeness

variable {K : TriggerKind → Prop} {D : Duel → Duel → Prop} {fire : Dispatch}
variable (L : Likeness K D)
include L

theorem attackOf (card : InstanceId) : Sim D Eq (attackOf card) (attackOf card) := by
  refine (L.find fun _ _ _ => rfl).bind fun c => Sim.duel.bindRel fun d d' hD => ?_
  rw [L.rules hD]
  exact (Sim.sound _).bind fun _ => .pure rfl

theorem requireOnBoard (player : PlayerId) (card : InstanceId) :
    Sim D Eq (requireOnBoard player card) (requireOnBoard player card) := by
  refine Sim.duel.bindRel fun d d' hD => ?_
  rw [L.rules hD]
  refine (L.find fun _ _ _ => rfl).bind fun board => ?_
  split
  · exact .pure rfl
  · exact .refuse _

theorem ageStats (b : Bearer) : Sim D Eq (ageStats b) (ageStats b) := by
  refine (L.find fun _ _ _ => by simp).bind fun block => (Sim.sound _).bind fun aged => ?_
  refine (L.modifyDuel (Duel.bare_putStats ..)).bind fun _ => ?_
  exact (Sim.forM (fun _ => .note _) _).bind fun _ => .pure rfl

theorem startTurn (hfire : Calls K D fire) : Sim D Eq (startTurn fire) (startTurn fire) := by
  refine Sim.duel.bindRel fun d d' hD => ?_
  obtain ⟨c, w, rfl⟩ := L.differ hD
  exact L.walk hfire d.current (L.plain rfl) _

theorem setCurrent (player : PlayerId) : Sim D Eq (setCurrent player) (setCurrent player) :=
  (L.find fun _ _ _ => rfl).bind fun _ => L.modifyDuel ⟨fun _ _ _ => rfl⟩

theorem drawLoop (player : PlayerId) (count : Nat) :
    Sim D Eq (drawLoop player count) (drawLoop player count) := by
  induction count with
  | zero => exact .pure rfl
  | succ count ih =>
    refine Sim.duel.bindRel fun d d' hD => ?_
    rw [L.rules hD]
    refine (L.find fun _ _ _ => rfl).bind fun deck => ?_
    split
    · exact .pure rfl
    · refine (L.modifyDuel (Duel.bare_modifyZone ..)).bind fun _ => ?_
      refine (L.modifyDuel (Duel.bare_modifyZone ..)).bind fun _ => ?_
      exact ih.bind fun _ => .pure rfl

theorem create (owner : PlayerId) (card : CardId) (place : ZoneId) :
    Sim D Eq (create owner card place) (create owner card place) := by
  refine Sim.bindRel (V := fun r r' => r'.1 = r.1 ∧ D r.2 r'.2) (Sim.findRel ?_) ?_
  · intro d d' hD
    obtain ⟨c, w, rfl⟩ := L.differ hD
    have hprints : d.catalog.PrintsAlike c := L.prints hD
    rw [Duel.create_reset hprints]
    cases hcreate : d.create owner card place with
    | error e => exact .inr ⟨e, rfl, rfl⟩
    | ok r =>
      obtain ⟨id, e⟩ := r
      obtain ⟨spec, t, z, -, -, -, -, rfl⟩ := Duel.create_eq_ok hcreate
      let new : Card := .ofSpec d.nextInstance spec t owner
      have henroll : Duel.Bare (·.enroll new) := ⟨fun _ _ _ => rfl⟩
      have hbare := henroll.comp (Duel.bare_modifyZone owner place (·.push d.nextInstance))
      have hupdate := L.update hD hbare
      rw [hbare.reset] at hupdate
      exact .inl ⟨_, _, rfl, rfl, rfl, hupdate⟩
  · intro r r' hr
    obtain ⟨id, e⟩ := r
    obtain ⟨id', e'⟩ := r'
    obtain ⟨rfl, he⟩ := hr
    exact (Sim.modifyDuel fun _ _ _ => he).bind fun _ => .pure rfl

end Likeness

namespace Mirror

variable {K : TriggerKind → Prop} {D : Duel → Duel → Prop} {fire : Dispatch}
variable (M : Mirror K D)
include M

theorem notifyBlow (hfire : Calls K D fire) (b : Bearer) (life : String) (blow : Option StatChange) :
    Sim D Eq (notifyBlow fire b life blow) (notifyBlow fire b life blow) := by
  cases blow with
  | none => exact .pure rfl
  | some change => exact M.notify _ _ _ hfire

theorem attackPlayer (hfire : Calls K D fire) (attacker : PlayerId) (card : InstanceId) :
    Sim D Eq (attackPlayer fire attacker card) (attackPlayer fire attacker card) := by
  refine Sim.duel.bindRel fun d d' hD => ?_
  rw [M.rules hD]
  refine (M.find fun _ _ _ => rfl).bind fun defender => (M.requireOnBoard ..).bind fun _ => ?_
  refine (M.attackOf _).bind fun attack => (M.writeStat ..).bind fun blow => ?_
  exact M.notifyBlow hfire ..

theorem attackCard (hfire : Calls K D fire) (attacker : PlayerId) (card target : InstanceId) :
    Sim D Eq (attackCard fire attacker card target) (attackCard fire attacker card target) := by
  refine Sim.duel.bindRel fun d d' hD => ?_
  rw [M.rules hD]
  refine (M.find fun _ _ _ => rfl).bind fun defender => ?_
  refine (M.requireOnBoard ..).bind fun _ => (M.requireOnBoard ..).bind fun _ => ?_
  refine (M.attackOf _).bind fun attack => (M.attackOf _).bind fun answer => ?_
  refine (M.writeStat ..).bind fun blow => (M.writeStat ..).bind fun counterblow => ?_
  exact (M.notifyBlow hfire ..).bind fun _ => M.notifyBlow hfire ..

theorem expire (hfire : Calls K D fire) (player : PlayerId) :
    Sim D Eq (expire fire player) (expire fire player) := by
  refine (M.find fun _ _ _ => rfl).bind fun s => .forM (fun b => ?_) _
  exact (M.ageStats b).bind fun changes => .forM (fun _ => M.notify _ _ _ hfire) _

theorem endTurn (hfire : Calls K D fire) : Sim D Eq (endTurn fire) (endTurn fire) := by
  refine Sim.duel.bindRel fun d d' hD => ?_
  obtain ⟨c, w, rfl⟩ := M.differ hD
  exact (M.walk hfire d.current (M.plain rfl) _).bind fun _ =>
    (M.expire hfire d.current).bind fun _ => .pure rfl

theorem activate (hfire : Calls K D fire) (player : PlayerId) (card : InstanceId) (index : Nat)
    (selection : Selection) :
    Sim D Eq (activate fire player card index selection)
      (activate fire player card index selection) := by
  refine (M.find fun _ _ _ => rfl).bind fun _ => ?_
  refine Sim.printed CardSpec.activated (fun d d' hD => M.activated card hD)
    fun spec spec' hspec => ?_
  rw [hspec]
  split
  · exact M.resolve hfire ..
  · exact .refuse _

end Mirror

/-- What is asked in addition for an action that registers watchers: it
looks at what chains do not look at. An action that calls up abilities
itself may do so for the kinds `K` only. -/
def Covers (K : TriggerKind → Prop) (D : Duel → Duel → Prop) : Action → Prop
  | .dispatch _ _ kind _ _ => K kind
  | .watchPlayer player => Sim D Eq (watchPlayer player) (watchPlayer player)
  | .watchCard card => Sim D Eq (watchCard card) (watchCard card)
  | .watchDestroy card => Sim D Eq (watchDestroy card) (watchDestroy card)
  | _ => True

/-- **Actions end alike** on duels that no chain tells apart. -/
theorem Mirror.run {K : TriggerKind → Prop} {D : Duel → Duel → Prop} (M : Mirror K D) {a : Action}
    (ha : Covers K D a) (limit rounds : Nat) :
    Sim D Eq (a.run (Play.dispatch limit rounds)) (a.run (Play.dispatch limit rounds)) := by
  have hfire := M.dispatch limit rounds
  cases a with
  | startTurn => exact .map (M.startTurn hfire)
  | endTurn => exact .map (M.endTurn hfire)
  | setCurrent player => exact .map (M.setCurrent player)
  | move player card origin destination selection => exact .map (M.move hfire ..)
  | draw player count =>
    refine .map (Sim.duel.bindRel fun d d' hD => ?_)
    rw [M.rules hD]
    exact (M.find fun _ _ _ => rfl).bind fun _ => (M.find fun _ _ _ => rfl).bind fun _ =>
      (Sim.sound _).bind fun _ => M.drawLoop player count
  | create owner card place => exact .map (M.create owner card place)
  | attackPlayer attacker card => exact .map (M.attackPlayer hfire ..)
  | attackCard attacker card target => exact .map (M.attackCard hfire ..)
  | activate player card index selection => exact .map (M.activate hfire ..)
  | dispatch player card kind accepts selection => exact .map (hfire _ _ _ _ _ ha)
  | watchPlayer player => exact .map ha
  | watchCard card => exact .map ha
  | watchDestroy card => exact .map ha

namespace Duel

variable {D : Duel → Duel → Prop} {d d' : Duel} (limit : Nat)

theorem match_perform {K : TriggerKind → Prop} (M : Mirror K D) {a : Action} (ha : Covers K D a)
    (h : D d d') : (d.perform limit a).Match D Eq (d'.perform limit a) := by
  have hrun := M.run ha limit (limit + 1)
  have hrecord := hrun.ends ⟨d, [], 0⟩ ⟨d', [], 0⟩ ⟨h, rfl, rfl⟩
  exact hrecord.mapState fun _ _ hst => hst.duel

/-- Step by step the replies or errors of a list of actions are the same,
and so is whatever is the same in duels that `D` relates. -/
theorem outcomes_congr {K : TriggerKind → Prop} {σ : Type} (view view' : Duel → σ)
    (M : Mirror K D) (hview : ∀ d d', D d d' → view' d' = view d) {actions : List Action}
    (hactions : ∀ a ∈ actions, Covers K D a) (h : D d d') :
    (d'.outcomes limit actions).map (·.mapState view') =
      (d.outcomes limit actions).map (·.mapState view) := by
  induction actions generalizing d d' with
  | nil => rfl
  | cons a rest ih =>
    rw [List.forall_mem_cons] at hactions
    have hfirst := match_perform limit M hactions.1 h
    simp only [Duel.outcomes, List.map_cons]
    generalize d.perform limit a = o at hfirst
    generalize d'.perform limit a = o' at hfirst
    cases hfirst with
    | done hv hs =>
      cases hv
      exact congrArg₂ List.cons (congrArg (Outcome.done _) (hview _ _ hs)) (ih hactions.2 hs)
    | refused e hs =>
      exact congrArg₂ List.cons (congrArg (Outcome.refused e) (hview _ _ hs)) (ih hactions.2 hs)
    | fault cause => rfl

end Duel

end CardDuel
