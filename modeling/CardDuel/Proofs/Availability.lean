/-
CardDuel.Proofs.Availability — what is available can be had.

Whether an effect has a target is asked twice. `available` looks for one
without drawing, and takes a look-up that fails for an answer; the search
that follows collects the targets, draws one of them if it has to, and
reports a failed look-up. In a laid-out duel the two agree. The players
have the same zones, so either all look-ups of a target fail or none
does, and a card of the type that is looked for lies in one of the zones
if and only if the list of them has a member.

What is found is also changed. Validation has looked up the stat of an
effect among those of players, or of the card type that the targets are
of, and bearers keep the stats declared of them; a card that is to be
moved lies in the zone in which it was found. So an ability that has a
target takes effect, unless a chain comes to the depth limit or a stat
whose bounds are out of order is read.

  §1 Pools     — a pool with members, and `available`.
  §2 Queries   — the search for card targets by itself.
  §3 Targets   — what is found has something to change.
  §4 Abilities — activated abilities take effect.
-/
import CardDuel.Catalog.Starter
import CardDuel.Proofs.Faultless
import CardDuel.Proofs.Idle
import CardDuel.Proofs.Mentions

namespace CardDuel

open Engine Play

/-! ## §1 Pools -/

theorem Duel.exists_opponent {d : Duel} {p : PlayerId} (hp : p ∈ d.fixture.players) :
    ∃ q, d.opponent p = .ok q := by
  simp only [Fixture.players, Duel.fixture, List.mem_cons, List.not_mem_nil, or_false] at hp
  unfold Duel.opponent
  by_cases hfirst : d.first.id = p
  · exact ⟨d.second.id, if_pos hfirst⟩
  · rcases hp with rfl | rfl
    · exact absurd rfl hfirst
    · exact ⟨d.first.id, by rw [if_neg hfirst, if_pos rfl]⟩

namespace Play

variable {d : Duel} {place : ZoneId} {t : CardTypeId} {acting opponent : PlayerId}
variable {source : InstanceId} {selection : Selection}

theorem mem_players_of_side {side : Side} (hopponent : d.opponent acting = .ok opponent) :
    ∀ p ∈ side.players acting opponent, p ∈ d.fixture.players := by
  obtain ⟨hacting, hopponent⟩ := Duel.opponent_eq_ok hopponent
  intro p hp
  cases side <;> simp only [Side.players, List.mem_cons, List.not_mem_nil, or_false] at hp
  · exact hp ▸ hacting
  · exact hp ▸ hopponent
  · rcases hp with rfl | rfl
    · exact hacting
    · exact hopponent

theorem exists_candidates : ∀ {players : List PlayerId},
    (∀ p ∈ players, ∃ z, d.zone p place = .ok z) → ∃ ids, candidates d place t players = .ok ids
  | [], _ => ⟨[], rfl⟩
  | p :: rest, h => by
    obtain ⟨z, hz⟩ := h p List.mem_cons_self
    obtain ⟨others, hothers⟩ := exists_candidates fun q hq => h q (List.mem_cons_of_mem p hq)
    exact ⟨_, by rw [candidates, hz, hothers]; rfl⟩

/-- Candidates lie in the zone and are of the type. -/
theorem of_mem_candidates : ∀ {players : List PlayerId} {ids : List InstanceId},
    candidates d place t players = .ok ids →
      ∀ id ∈ ids, ∃ p z, d.zone p place = .ok z ∧ id ∈ z.cards ∧ d.isOfType t id
  | [], ids, h => by cases h; simp
  | p :: rest, ids, h => by
    obtain ⟨z, hz, h⟩ := Except.bind_eq_ok_iff.mp h
    obtain ⟨others, hothers, h⟩ := Except.bind_eq_ok_iff.mp h
    cases h
    intro id hid
    rcases List.mem_append.mp hid with hid | hid
    · obtain ⟨hlies, htype⟩ := List.mem_filter.mp hid
      exact ⟨p, z, hz, hlies, htype⟩
    · exact of_mem_candidates hothers id hid

theorem candidates_ne_nil_iff : ∀ {players : List PlayerId} {ids : List InstanceId},
    candidates d place t players = .ok ids →
      (ids ≠ [] ↔ players.any (hasCandidate d place t) = true)
  | [], ids, h => by cases h; simp
  | p :: rest, ids, h => by
    obtain ⟨z, hz, h⟩ := Except.bind_eq_ok_iff.mp h
    obtain ⟨others, hothers, h⟩ := Except.bind_eq_ok_iff.mp h
    cases h
    have hhere : z.cards.filter (d.isOfType t) ≠ [] ↔ hasCandidate d place t p = true := by
      simp [hasCandidate, hz, List.filter_eq_nil_iff]
    rw [List.any_cons, Bool.or_eq_true, ← hhere, ← candidates_ne_nil_iff hothers, ne_eq,
      List.append_eq_nil_iff, not_and_or]

end Play

/-- If one player has a zone, then every player has it. -/
theorem Duel.Laid.exists_zone_of_zone {d : Duel} {p q : PlayerId} {place : ZoneId} {z : Zone}
    (h : d.Laid) (hz : d.zone p place = .ok z) (hq : q ∈ d.fixture.players) :
    ∃ z', d.zone q place = .ok z' :=
  h.exists_zone hq (h.mem_zoneIds hz)

namespace Play

variable {d : Duel} {place : ZoneId} {t : CardTypeId} {acting : PlayerId}
variable {source : InstanceId} {selection : Selection}

/-- The two searches for candidates agree. -/
theorem any_hasCandidate_iff {players : List PlayerId} (hd : d.Laid)
    (hplayers : ∀ p ∈ players, p ∈ d.fixture.players) :
    players.any (hasCandidate d place t) = true ↔
      ∃ ids, candidates d place t players = .ok ids ∧ ids ≠ [] := by
  constructor
  · intro h
    obtain ⟨p, -, hp⟩ := List.any_eq_true.mp h
    unfold hasCandidate at hp
    split at hp
    · rename_i z hz
      obtain ⟨ids, hids⟩ :=
        exists_candidates fun q hq => hd.exists_zone_of_zone hz (hplayers q hq)
      exact ⟨ids, hids, (candidates_ne_nil_iff hids).mpr h⟩
    · cases hp
  · intro h
    obtain ⟨ids, hids, hne⟩ := h
    exact (candidates_ne_nil_iff hids).mp hne

/-- **A card target is available** if and only if there is a pool for it
that has members. -/
theorem cardAvailable_iff (hd : d.Laid) (hacting : acting ∈ d.fixture.players)
    (kind : CardTarget) :
    cardAvailable d acting place t selection kind = true ↔
      ∃ pool, cardPool d acting source place t selection kind = .ok pool ∧ pool.members ≠ [] := by
  obtain ⟨opponent, hopponent⟩ := Duel.exists_opponent hacting
  have hplayers (side : Side) : ∀ p ∈ side.players acting opponent, p ∈ d.fixture.players :=
    mem_players_of_side hopponent
  unfold cardAvailable cardPool
  rw [hopponent]
  cases kind with
  | source => simp [Bind.bind, Except.bind, Pure.pure, Except.pure, Pool.members]
  | chosen side =>
    cases selection.card with
    | none => simp [Bind.bind, Except.bind, Pure.pure, Except.pure, Pool.members]
    | some card =>
      cases hfound : liesIn d (selection.zone.getD place) card (side.players acting opponent) with
      | error e => simp [hfound, Bind.bind, Except.bind, Except.toOption]
      | ok found =>
        cases found <;>
          simp [hfound, Bind.bind, Except.bind, Pure.pure, Except.pure, Except.toOption,
            Pool.members]
  | random side | all side =>
    dsimp only
    rw [any_hasCandidate_iff hd (hplayers side)]
    cases hids : candidates d (selection.zone.getD place) t (side.players acting opponent) <;>
      simp [hids, Bind.bind, Except.bind, Pure.pure, Except.pure, Pool.members]

/-! The generator is not looked at. -/

theorem liesIn_generator (g : Random.Generator) (card : InstanceId) (players : List PlayerId) :
    liesIn { d with generator := g } place card players = liesIn d place card players := by
  have hzone : ({ d with generator := g } : Duel).zone = d.zone := rfl
  induction players with
  | nil => rfl
  | cons p rest ih => rw [liesIn, liesIn, hzone, ih]

theorem cardAvailable_generator (g : Random.Generator) (kind : CardTarget) :
    cardAvailable { d with generator := g } acting place t selection kind =
      cardAvailable d acting place t selection kind := by
  have hopponent : ({ d with generator := g } : Duel).opponent = d.opponent := rfl
  have hcandidate : hasCandidate { d with generator := g } = hasCandidate d := rfl
  simp only [cardAvailable, hopponent, hcandidate, liesIn_generator]

/-! ## §2 Queries -/

variable {α : Type} {bearer : α → Bearer}

@[simp] theorem keepSatisfying_nil (l : List α) : keepSatisfying d bearer [] l = .ok l := by
  induction l with
  | nil => rfl
  | cons a rest ih =>
    rw [keepSatisfying, ih]
    rfl

/-- The members of a pool that are meant, and the generator after they
have been drawn. -/
def Pool.drawn (pool : Pool α) (g : Random.Generator) : List α × Random.Generator :=
  match pool with
  | .every members => (members, g)
  | .oneOf members => ((g.pick? members).1.toList, (g.pick? members).2)

theorem keepSatisfying_generator (g : Random.Generator) (conditions : List Condition)
    (l : List α) :
    keepSatisfying { d with generator := g } bearer conditions l =
      keepSatisfying d bearer conditions l := by
  have hvalue : ({ d with generator := g } : Duel).statValue? = d.statValue? := rfl
  have hsatisfies (b : Bearer) (conditions : List Condition) :
      satisfies { d with generator := g } b conditions = satisfies d b conditions := by
    induction conditions with
    | nil => rfl
    | cons k rest ih => simp only [satisfies, hvalue, ih]
  induction l with
  | nil => rfl
  | cons a rest ih => simp only [keepSatisfying, hsatisfies, ih]

/-- Targets are drawn first, and then put to the conditions. Nothing
changes but the generator. -/
theorem targets_eq (bearer : α → Bearer) (conditions : List Condition) (pool : Pool α)
    (s : Scene) :
    pool.targets bearer conditions s =
      match keepSatisfying s.duel bearer conditions (pool.drawn s.duel.generator).1 with
      | .ok kept =>
        .done kept { s with duel := { s.duel with generator := (pool.drawn s.duel.generator).2 } }
      | .error cause => .fault cause := by
  cases pool with
  | every members =>
    show sound (keepSatisfying s.duel bearer conditions members) s = _
    unfold sound Pool.drawn
    cases keepSatisfying s.duel bearer conditions members <;> rfl
  | oneOf members =>
    show sound (keepSatisfying { s.duel with generator := (s.duel.generator.pick? members).2 }
      bearer conditions (s.duel.generator.pick? members).1.toList) _ = _
    rw [keepSatisfying_generator]
    unfold sound Pool.drawn
    dsimp only
    cases keepSatisfying s.duel bearer conditions (s.duel.generator.pick? members).1.toList <;> rfl

theorem mem_of_drawn {pool : Pool α} {g : Random.Generator} {a : α} (h : a ∈ (pool.drawn g).1) :
    a ∈ pool.members := by
  cases pool with
  | every members => exact h
  | oneOf members => exact Random.Generator.mem_of_pick? (Option.mem_toList.mp h)

theorem drawn_eq_nil_iff {pool : Pool α} {g : Random.Generator} :
    (pool.drawn g).1 = [] ↔ pool.members = [] := by
  cases pool with
  | every members => exact Iff.rfl
  | oneOf members => exact Option.toList_eq_nil_iff.trans Random.Generator.pick?_eq_none_iff

/-- Without conditions, targets are found if the pool has members. Nothing
changes but the generator. -/
theorem exists_targets (bearer : α → Bearer) (pool : Pool α) (s : Scene) :
    ∃ chosen g, pool.targets bearer [] s =
        .done chosen { s with duel := { s.duel with generator := g } } ∧
      (∀ a ∈ chosen, a ∈ pool.members) ∧ (chosen = [] ↔ pool.members = []) := by
  refine ⟨(pool.drawn s.duel.generator).1, (pool.drawn s.duel.generator).2, ?_,
    fun _ => mem_of_drawn, drawn_eq_nil_iff⟩
  rw [targets_eq, keepSatisfying_nil]

end Play

/-- A search for card targets is a look-up of the pool, a draw if it is
random, and the conditions, in this order. -/
theorem Duel.ask_cardTargets_eq {d : Duel} {acting : PlayerId} {source : InstanceId}
    {kind : CardTarget} {conditions : List Condition} {place : ZoneId} {t : CardTypeId}
    {selection : Selection} :
    d.ask (.cardTargets acting source (.card kind conditions) place t selection) =
      match cardPool d acting source place t selection kind with
      | .ok pool =>
        match keepSatisfying d .card conditions (pool.drawn d.generator).1 with
        | .ok kept => .done (.cards kept) { d with generator := (pool.drawn d.generator).2 }
        | .error cause => .fault cause
      | .error e => .refused (.lookup e) d := by
  rw [ask, Query.run, ← bind_pure_comp, runOn, bind_eq, cardTargets, bind_eq, find]
  cases cardPool d acting source place t selection kind with
  | error e => rfl
  | ok pool =>
    dsimp only
    rw [targets_eq]
    dsimp only
    cases keepSatisfying d Bearer.card conditions (pool.drawn d.generator).1 <;> rfl

/-- The search for card targets finds some if and only if there is a pool
for them that has members. -/
theorem Duel.ask_cardTargets_iff {d : Duel} {acting : PlayerId} {source : InstanceId}
    {kind : CardTarget} {place : ZoneId} {t : CardTypeId} {selection : Selection} :
    (∃ ids d', d.ask (.cardTargets acting source (.card kind []) place t selection) =
        .done (.cards ids) d' ∧ ids ≠ []) ↔
      ∃ pool, cardPool d acting source place t selection kind = .ok pool ∧ pool.members ≠ [] := by
  rw [ask_cardTargets_eq]
  cases cardPool d acting source place t selection kind with
  | error e => simp
  | ok pool => simp [drawn_eq_nil_iff]

/-- **The two ways to ask agree.** In a duel that is visited, an effect on
cards is available to a player of the duel if and only if the search for
its targets, the conditions left aside, gives some: for every target,
whether the zone of the selection exists or not, and whatever card is
chosen. To ask what is available does not take a generator, and the answer
is the same for all of them. -/
theorem available_iff_found {catalog : Catalog} {d : Duel} (h : Visited catalog d)
    {acting : PlayerId} {seat : Seat} (hacting : d.seat acting = .ok seat) (source : InstanceId)
    {e : Effect} {place : ZoneId} {t : CardTypeId} (hplace : e.zone? = some place)
    (htype : e.cardType? = some t) (kind : CardTarget) (conditions : List Condition)
    (selection : Selection) :
    (available d acting e (.card kind conditions) selection = true ↔
      ∃ ids d', d.ask (.cardTargets acting source (.card kind []) place t selection) =
        .done (.cards ids) d' ∧ ids ≠ []) ∧
    ∀ g, available { d with generator := g } acting e (.card kind conditions) selection =
      available d acting e (.card kind conditions) selection := by
  have hagree : cardAvailable d acting place t selection kind = true ↔
      ∃ ids d', d.ask (.cardTargets acting source (.card kind []) place t selection) =
        .done (.cards ids) d' ∧ ids ≠ [] :=
    (cardAvailable_iff h.sound.laid (Duel.seat_isOk_iff.mp ⟨seat, hacting⟩) kind).trans
      Duel.ask_cardTargets_iff.symm
  cases e with
  | player e => cases hplace
  | card e =>
    cases hplace
    cases htype
    exact ⟨hagree, fun g => cardAvailable_generator g kind⟩
  | move e =>
    cases hplace
    cases htype
    exact ⟨hagree, fun g => cardAvailable_generator g kind⟩

/-- The effect is for creatures on the board. Where the selection names the
decks instead, there are some: it is available, and a target is found. -/
theorem grunt_found_in_deck :
    ∃ d seat, Visited (Starter.catalog {}) d ∧ d.seat ⟨1⟩ = .ok seat ∧
      available d ⟨1⟩ (.move ⟨Starter.board, ⟨0⟩, Starter.hand⟩) (.card (.random .both) []) {} =
        false ∧
      ∃ ids d', d.ask (.cardTargets ⟨1⟩ ⟨1⟩ (.card (.random .both) []) Starter.board ⟨0⟩
        { zone := some Starter.deck }) = .done (.cards ids) d' ∧ ids ≠ [] := by
  obtain ⟨d, hstart, seat, -, hseat, hnone, havailable⟩ :=
    @Duel.exists_of_start (Starter.catalog {}) 7 ⟨⟨1⟩, [⟨1⟩, ⟨2⟩]⟩ ⟨⟨2⟩, [⟨1⟩]⟩
      (fun d => ∃ seat ∈ (d.seat ⟨1⟩).toOption, d.seat ⟨1⟩ = .ok seat ∧
        available d ⟨1⟩ (.move ⟨Starter.board, ⟨0⟩, Starter.hand⟩) (.card (.random .both) []) {} =
          false ∧
        available d ⟨1⟩ (.move ⟨Starter.board, ⟨0⟩, Starter.hand⟩) (.card (.random .both) [])
          { zone := some Starter.deck } = true)
      (by decide +kernel)
  have hvisited : Visited (Starter.catalog {}) d := .start hstart
  exact ⟨d, seat, hvisited, hseat, hnone,
    (available_iff_found hvisited hseat ⟨1⟩ rfl rfl (.random .both) []
      { zone := some Starter.deck }).1.mp havailable⟩

/-! ## §3 Targets -/

/-- The catalog of a duel that is visited passes validation. -/
theorem Visited.validated {catalog : Catalog} {d : Duel} (h : Visited catalog d) :
    catalog.validate = .ok () := by
  induction h with
  | start h => exact (Duel.start_eq_ok_iff.mp h).1
  | action _ _ ih => exact ih
  | query _ _ ih => exact ih

/-- Whom the target means does not hang on the choice of a card, and if it
hangs on the choice of a player, the choice is made. -/
def Target.Definite (selection : Selection) : Target → Prop
  | .player .chosen _ => selection.player = some 0 ∨ selection.player = some 1
  | .player _ _ | .card (.all _) _ | .card (.random _) _ => True
  | .card _ _ => False

namespace Duel

variable {d : Duel} {b : Bearer} {stat : String}

theorem Declared.not_lacks {block declared : StatBlock} (h : d.Declared)
    (hb : d.stats b = .ok block) (hdeclared : d.fixture.declared? b = some declared)
    (hstat : stat ∈ declared.names) : ¬ d.Lacks b stat := by
  intro hlacks
  obtain ⟨declared', hdeclared', halike⟩ := h b block hb
  cases hdeclared.symm.trans hdeclared'
  rw [← halike.names_eq] at hstat
  obtain ⟨s, hs⟩ := StatBlock.exists_get? hstat
  rw [hlacks block hb] at hs
  cases hs

theorem mem_names_ofSpecs {specs : List StatSpec} (h : specs.any (·.name = stat)) :
    stat ∈ (StatBlock.ofSpecs specs).names := by
  simpa [StatBlock.names, StatBlock.ofSpecs, Stat.ofSpec] using h

/-- Players have the stats that the catalog declares of players. -/
theorem Declared.player {p : PlayerId} (h : d.Declared) (hp : p ∈ d.fixture.players)
    (hstat : (Mention.playerStat stat).declared d.catalog) : ¬ d.Lacks (.player p) stat := by
  obtain ⟨s, hs⟩ := seat_isOk_iff.mpr hp
  have hb : d.stats (.player p) = .ok s.stats := by simp [stats, hs, Except.map]
  exact h.not_lacks hb rfl (mem_names_ofSpecs hstat)

/-- Cards of a type have the stats that the catalog declares of it. -/
theorem Declared.card {id : InstanceId} {t : CardTypeId} (h : d.Declared)
    (htype : d.isOfType t id) (hstat : (Mention.statOf t stat).declared d.catalog) :
    ¬ d.Lacks (.card id) stat := by
  unfold isOfType at htype
  split at htype
  · rename_i c hc
    obtain rfl : c.cardType = t := by simpa using htype
    have hb : d.stats (.card id) = .ok c.stats := by simp [stats, hc, Except.map]
    obtain ⟨ct, hct, hname⟩ : ∃ ct, d.catalog.cardType? c.cardType = some ct ∧
        ct.hasStat stat := by
      simpa [Mention.declared, Option.any_eq_true] using hstat
    have hdeclared : d.fixture.declared? (.card id) = some (.ofSpecs ct.stats) := by
      have htag : d.fixture.tag? id = some c.tag := tag?_eq_some_iff.mpr ⟨c, hc, rfl⟩
      have hct : d.fixture.catalog.cardType? c.tag.cardType = some ct := hct
      simp [Fixture.declared?, htag, hct]
    exact h.not_lacks hb hdeclared (mem_names_ofSpecs hname)
  · cases htype

end Duel

namespace Play

variable {d : Duel} {place : ZoneId} {t : CardTypeId} {acting : PlayerId}
variable {source : InstanceId} {selection : Selection}

/-- There is a pool with members for a definite target among players. -/
theorem exists_playerPool {kind : PlayerTarget} {conditions : List Condition}
    (hacting : acting ∈ d.fixture.players)
    (h : (Target.player kind conditions).Definite selection) :
    ∃ pool, playerPool d acting selection kind = .ok pool ∧ pool.members ≠ [] := by
  obtain ⟨opponent, hopponent⟩ := Duel.exists_opponent hacting
  unfold playerPool
  rw [hopponent]
  cases kind with
  | acting => exact ⟨.every [acting], rfl, List.cons_ne_nil _ _⟩
  | opponent => exact ⟨.every [opponent], rfl, List.cons_ne_nil _ _⟩
  | chosen =>
    rcases h with h | h
    · exact ⟨.every [acting], by rw [h]; rfl, List.cons_ne_nil _ _⟩
    · exact ⟨.every [opponent], by rw [h]; rfl, List.cons_ne_nil _ _⟩
  | random =>
    by_cases hle : d.first.id ≤ d.second.id
    · exact ⟨.oneOf [d.first.id, d.second.id], if_pos hle, List.cons_ne_nil _ _⟩
    · exact ⟨.oneOf [d.second.id, d.first.id], if_neg hle, List.cons_ne_nil _ _⟩
  | all => exact ⟨.every [d.first.id, d.second.id], rfl, List.cons_ne_nil _ _⟩

/-- The cards of a definite target lie where they are looked for, and are
of the type. -/
theorem of_mem_cardPool {kind : CardTarget} {conditions : List Condition} {pool : Pool InstanceId}
    (h : (Target.card kind conditions).Definite selection)
    (hpool : cardPool d acting source place t selection kind = .ok pool) :
    ∀ id ∈ pool.members,
      ∃ p z, d.zone p (selection.zone.getD place) = .ok z ∧ id ∈ z.cards ∧ d.isOfType t id := by
  obtain ⟨opponent, -, hpool⟩ := Except.bind_eq_ok_iff.mp hpool
  cases kind with
  | source | chosen side => exact h.elim
  | random side | all side =>
    obtain ⟨ids, hids, hpool⟩ := Except.bind_eq_ok_iff.mp hpool
    cases hpool
    exact of_mem_candidates hids

/-! ## §4 Abilities -/

variable {α : Type} {fire : Dispatch} {s : Scene}

/-- If there is a target, and something to change about each, then the
targets that are chosen are changed. -/
theorem wp_chosen_applied {pool : Pool α} {step : Bool → α → Engine Bool} (bearer : α → Bearer)
    (missed : α → Duel → Prop) (hpool : pool.members ≠ [])
    (hstep : ∀ before a s, wp .all (step before a)
      (fun changed s' => changed = false → before = false ∧ s' = s ∧ missed a s.duel) s)
    (hfound : ∀ a ∈ pool.members, ∀ g, ¬ missed a { s.duel with generator := g }) :
    wp .all (pool.targets bearer [] >>= fun targets => targets.foldlM step false)
      (fun applied _ => applied = true) s := by
  obtain ⟨chosen, g, htargets, hmem, hnil⟩ := exists_targets bearer pool s
  rw [wp_bind]
  unfold wp
  rw [htargets]
  refine wp_mono (wp_foldlM_idle hstep chosen) fun applied s' hs' => ?_
  cases applied with
  | true => rfl
  | false =>
    obtain ⟨-, hmissed⟩ := hs' rfl
    obtain ⟨a, ha⟩ := List.exists_mem_of_ne_nil chosen fun h => hpool (hnil.mp h)
    exact absurd (hmissed a ha) (hfound a (hmem a ha) g)

/-- **An ability with a target takes effect**, if its target is definite,
without conditions and available. -/
theorem wp_resolve_applied {effect : Effect} {target : Target} (hd : s.duel.Sound)
    (hdeclared : s.duel.Declared) (hmentions : ∀ m ∈ effect.mentions, m.declared s.duel.catalog)
    (hacting : acting ∈ s.duel.fixture.players) (hconditions : target.conditions = [])
    (htarget : target.Definite selection)
    (havailable : available s.duel acting effect target selection = true) :
    wp .all (resolve fire acting source effect target selection)
      (fun applied _ => applied = true) s := by
  rw [resolve, wp_bind, wp_duel, if_pos havailable]
  cases effect with
  | player e =>
    cases target with
    | card kind conditions => cases havailable
    | player kind conditions =>
      obtain rfl : conditions = [] := hconditions
      obtain ⟨pool, hpool, hne⟩ := exists_playerPool hacting htarget
      have hstat : (Mention.playerStat e.stat).declared s.duel.catalog :=
        hmentions _ List.mem_cons_self
      dsimp only
      rw [hpool]
      exact wp_chosen_applied .player (fun player d => d.Lacks (.player player) e.stat) hne
        (fun before player s => wp_applyAndNotify_idle (wp_adjustStat_idle ..) _ _ before)
        fun player hplayer _ => hdeclared.player (mem_players_of_playerPool hpool hplayer) hstat
  | card e =>
    cases target with
    | player kind conditions => cases havailable
    | card kind conditions =>
      obtain rfl : conditions = [] := hconditions
      obtain ⟨pool, hpool, hne⟩ := (cardAvailable_iff hd.laid hacting kind).mp havailable
      have hstat : (Mention.statOf e.cardType e.stat).declared s.duel.catalog :=
        hmentions _ (List.mem_cons_of_mem _ (List.mem_cons_of_mem _ List.mem_cons_self))
      dsimp only
      rw [hpool]
      refine wp_chosen_applied .card (fun card d => d.Lacks (.card card) e.stat) hne
        (fun before card s => wp_applyAndNotify_idle (wp_adjustStat_idle ..) _ _ before)
        fun card hcard _ => ?_
      obtain ⟨_, _, _, _, htype⟩ := of_mem_cardPool htarget hpool card hcard
      exact hdeclared.card htype hstat
  | move e =>
    cases target with
    | player kind conditions => cases havailable
    | card kind conditions =>
      obtain rfl : conditions = [] := hconditions
      obtain ⟨pool, hpool, hne⟩ := (cardAvailable_iff hd.laid hacting kind).mp havailable
      dsimp only
      rw [hpool]
      refine wp_chosen_applied .card
        (fun card d => ∀ owner, d.location? card ≠ some (owner, selection.zone.getD e.zone)) hne
        (fun before card s => wp_moveIfThere_idle _ _ before card) fun card hcard _ helsewhere => ?_
      obtain ⟨p, z, hz, hlies, -⟩ := of_mem_cardPool htarget hpool card hcard
      exact helsewhere p ((hd.laid.location?_eq_some_iff hd.fixture).mpr ⟨z, hz, hlies⟩)

end Play

/-- In a catalog that passes validation, what an effect of a printed
ability mentions is declared. -/
theorem Catalog.declared_of_prints {c : Catalog} {spec : CardSpec} {a : Ability}
    (h : c.validate = .ok ()) (hspec : spec ∈ c.cards.cards) (ha : a ∈ spec.abilities) :
    ∀ m ∈ a.effect.mentions, m.declared c := by
  intro m hm
  have hability : m ∈ a.mentions := List.mem_append_right _ hm
  have hcard : m ∈ spec.mentions :=
    List.mem_append_right _ (List.mem_flatMap.mpr ⟨a, ha, hability⟩)
  exact (Catalog.validate_eq_ok_iff.mp h).2 m
    (List.mem_append_right _ (List.mem_flatMap.mpr ⟨spec, hspec, hcard⟩))

namespace Duel

variable {d : Duel} {limit : Nat} {acting : PlayerId} {card : InstanceId} {index : Nat}
variable {selection : Selection} {seat : Seat} {spec : CardSpec} {a : ActivatedAbility}

/-- Activating an ability that there is comes to resolving it. -/
theorem perform_activate (hseat : d.seat acting = .ok seat) (hspec : d.specOf card = .ok spec)
    (ha : spec.activated[index]? = some a) :
    d.perform limit (.activate acting card index selection) =
      match resolve (dispatch limit (limit + 1)) acting card a.effect a.target selection
        ⟨d, [], 0⟩ with
      | .done applied s => .done (.resolved applied) s.duel
      | .refused e s => .refused e s.duel
      | .fault cause => .fault cause := by
  have hactivate : activate (dispatch limit (limit + 1)) acting card index selection ⟨d, [], 0⟩ =
      resolve (dispatch limit (limit + 1)) acting card a.effect a.target selection ⟨d, [], 0⟩ := by
    simp only [activate, bind_eq, find, hseat, hspec, ha]
  rw [perform, record, Game.record, Action.run, ← bind_pure_comp, bind_eq, hactivate]
  cases resolve (dispatch limit (limit + 1)) acting card a.effect a.target selection
    ⟨d, [], 0⟩ <;> rfl

/-- What is not available does not take effect. -/
theorem perform_unavailable (hseat : d.seat acting = .ok seat) (hspec : d.specOf card = .ok spec)
    (ha : spec.activated[index]? = some a)
    (havailable : available d acting a.effect a.target selection = false) :
    d.perform limit (.activate acting card index selection) = .done (.resolved false) d := by
  rw [perform_activate hseat hspec ha, resolve]
  simp only [bind_eq, duel, havailable]
  rfl

end Duel

namespace Visited

variable {catalog : Catalog} {d : Duel} (h : Visited catalog d) {limit : Nat} {acting : PlayerId}
variable {card : InstanceId} {index : Nat} {selection : Selection} {seat : Seat}
variable {spec : CardSpec} {a : ActivatedAbility}
include h

/-- An available ability of a definite target without conditions takes
effect, if it is done. -/
theorem activated_of_done (hacting : d.seat acting = .ok seat) (hspec : d.specOf card = .ok spec)
    (ha : spec.activated[index]? = some a) (hconditions : a.target.conditions = [])
    (htarget : a.target.Definite selection)
    (havailable : available d acting a.effect a.target selection = true) {reply : Reply} {d' : Duel}
    (hdone : d.perform limit (.activate acting card index selection) = .done reply d') :
    reply = .resolved true := by
  have hmentions : ∀ m ∈ a.effect.mentions, m.declared d.catalog :=
    Catalog.declared_of_prints (h.catalog_eq ▸ h.validated) (Duel.printed_of_specOf hspec).2
      (CardSpec.mem_abilities_of_activated ha)
  have happlied : wp .all (resolve (dispatch limit (limit + 1)) acting card a.effect a.target
      selection) (fun applied _ => applied = true) ⟨d, [], 0⟩ :=
    wp_resolve_applied h.sound h.declared hmentions (Duel.seat_isOk_iff.mp ⟨seat, hacting⟩)
      hconditions htarget havailable
  rw [Duel.perform_activate hacting hspec ha] at hdone
  unfold wp at happlied
  split at hdone
  · rename_i applied s hresolve
    rw [hresolve] at happlied
    cases hdone
    exact congrArg Reply.resolved happlied
  · cases hdone
  · cases hdone

/-- An ability that there is can be refused at the depth limit only. -/
theorem depthLimit_of_refused (hacting : d.seat acting = .ok seat)
    (hspec : d.specOf card = .ok spec) (ha : spec.activated[index]? = some a) {e : DuelError}
    {d' : Duel}
    (hrefused : d.perform limit (.activate acting card index selection) = .refused e d') :
    ∃ kind id, e = .depthLimit limit kind id := by
  have U : Upkeep d.fixture (.atLimit limit) (fun (_ : Unit) _ => True) limit fun _ _ _ i => i :=
    upkeep_atLimit h.sound.fixture
  obtain ⟨hknown, hprinted⟩ := Duel.printed_of_specOf hspec
  have hs : Standing d.fixture (fun _ => True) ⟨d, [], 0⟩ := ⟨rfl, h.sound.laid, trivial⟩
  have hresolve : wp _ (resolve (dispatch limit (limit + 1)) acting card a.effect a.target selection)
      (fun _ => Standing d.fixture fun _ => True) ⟨d, [], 0⟩ :=
    U.wp_resolve (i := ()) (U.keeps_dispatch (limit + 1)) hs hknown fun e he =>
      ⟨spec, hprinted, _, CardSpec.mem_abilities_of_activated ha, he⟩
  rw [Duel.perform_activate hacting hspec ha] at hrefused
  unfold wp at hresolve
  split at hrefused
  · cases hrefused
  · rename_i e' s hrun
    rw [hrun] at hresolve
    cases hrefused
    exact hresolve
  · cases hrefused

/-- Where there is room for the cards to be drawn, only a catalog with a
stat whose bounds are out of order has faults. -/
theorem not_ordered_of_fault {a : Action} {cause : Fault}
    (hfault : d.perform limit a = .fault cause) (hroom : a.HasRoom) : ¬ catalog.Ordered := by
  intro hordered
  have hrecord : d.record limit a = .fault cause := by
    unfold Duel.perform at hfault
    cases hrecord : d.record limit a with
    | done reply s => rw [hrecord] at hfault; cases hfault
    | refused e s => rw [hrecord] at hfault; cases hfault
    | fault cause' => rw [hrecord] at hfault; cases hfault; rfl
  exact h.sound.record_ne_fault (h.sturdy hordered) h.declared (h.catalog_eq ▸ hordered) hroom cause
    hrecord

end Visited

/-- **Available abilities take effect.** Take an activated ability whose
target has no conditions and is definite. Called upon in a duel that is
visited, by a player of the duel, it does not take effect if and only if
it is not available, and then the duel stays as it is. If it is available,
it takes effect, unless a chain is refused at the depth limit, or a fault
is met, which takes a catalog with a stat whose bounds are out of order. -/
theorem available_takes_effect {catalog : Catalog} {d : Duel} (h : Visited catalog d)
    (limit : Nat) {acting : PlayerId} {seat : Seat} (hacting : d.seat acting = .ok seat)
    {card : InstanceId} {spec : CardSpec} (hspec : d.specOf card = .ok spec) {index : Nat}
    {a : ActivatedAbility} (ha : spec.activated[index]? = some a) {selection : Selection}
    (hconditions : a.target.conditions = []) (htarget : a.target.Definite selection) :
    (∀ d', d.perform limit (.activate acting card index selection) = .done (.resolved false) d' ↔
      available d acting a.effect a.target selection = false ∧ d' = d) ∧
    (available d acting a.effect a.target selection = true →
      (∃ d', d.perform limit (.activate acting card index selection) = .done (.resolved true) d') ∨
      (∃ kind id d', d.perform limit (.activate acting card index selection) =
        .refused (.depthLimit limit kind id) d') ∨
      ∃ cause, d.perform limit (.activate acting card index selection) = .fault cause ∧
        ¬ catalog.Ordered) := by
  constructor
  · intro d'
    constructor
    · intro hdone
      cases havailable : available d acting a.effect a.target selection with
      | false =>
        rw [Duel.perform_unavailable hacting hspec ha havailable] at hdone
        cases hdone
        exact ⟨rfl, rfl⟩
      | true =>
        cases h.activated_of_done hacting hspec ha hconditions htarget havailable hdone
    · rintro ⟨havailable, rfl⟩
      exact Duel.perform_unavailable hacting hspec ha havailable
  · intro havailable
    cases hperform : d.perform limit (.activate acting card index selection) with
    | done reply d' =>
      have hreply := h.activated_of_done hacting hspec ha hconditions htarget havailable hperform
      exact .inl ⟨d', by rw [hreply]⟩
    | refused e d' =>
      obtain ⟨kind, id, he⟩ := h.depthLimit_of_refused hacting hspec ha hperform
      exact .inr (.inl ⟨kind, id, d', by rw [he]⟩)
    | fault cause => exact .inr (.inr ⟨cause, rfl, h.not_ordered_of_fault hperform trivial⟩)

namespace Starter

/-- A creature that adds one mana when told to. -/
def tinker : CardSpec where
  id := ⟨3⟩
  name := "Tinker"
  cardType := creature.id
  abilities :=
    [.activated
      { effect := .player { stat := "Mana", adjustment := .increase, amount := .constant 1 }
        target := .player .acting [] }]

/-- A creature that has a creature of either deck drawn when told to. -/
def recruiter : CardSpec where
  id := ⟨3⟩
  name := "Recruiter"
  cardType := creature.id
  abilities :=
    [.activated { effect := .move ⟨deck, creature.id, hand⟩, target := .card (.random .both) [] }]

/-- The starter catalog with a tinker, but mana is asked to be one at
least and nought at most. -/
def crossedMana : Catalog :=
  { catalog { extraCards := [tinker] } with
    playerStats :=
      [{ name := "Life", base := 20, low := 0, high := 99 },
       { name := "Mana", base := 0, low := 1, high := 0 }] }

end Starter

/-- There are creatures in the decks, so the ability is available. Where
the selection names the graveyards, which are empty, it does not take
effect. -/
theorem recruiter_takes_effect :
    ∃ d seat spec a, Visited (Starter.catalog { extraCards := [Starter.recruiter] }) d ∧
      d.seat ⟨1⟩ = .ok seat ∧ d.specOf ⟨1⟩ = .ok spec ∧ spec.activated[0]? = some a ∧
      available d ⟨1⟩ a.effect a.target {} = true ∧
      ((∃ d', d.perform 64 (.activate ⟨1⟩ ⟨1⟩ 0 {}) = .done (.resolved true) d') ∨
        (∃ kind id d', d.perform 64 (.activate ⟨1⟩ ⟨1⟩ 0 {}) =
          .refused (.depthLimit 64 kind id) d') ∨
        ∃ cause, d.perform 64 (.activate ⟨1⟩ ⟨1⟩ 0 {}) = .fault cause ∧
          ¬ (Starter.catalog { extraCards := [Starter.recruiter] }).Ordered) ∧
      d.perform 64 (.activate ⟨1⟩ ⟨1⟩ 0 { zone := some Starter.graveyard }) =
        .done (.resolved false) d := by
  obtain ⟨d, hstart, seat, -, spec, -, a, -, hseat, hspec, ha, hconditions, htarget, havailable,
      hnone⟩ :=
    @Duel.exists_of_start (Starter.catalog { extraCards := [Starter.recruiter] }) 7
      ⟨⟨1⟩, [⟨3⟩]⟩ ⟨⟨2⟩, [⟨1⟩]⟩
      (fun d => ∃ seat ∈ (d.seat ⟨1⟩).toOption, ∃ spec ∈ (d.specOf ⟨1⟩).toOption,
        ∃ a ∈ spec.activated[0]?, d.seat ⟨1⟩ = .ok seat ∧ d.specOf ⟨1⟩ = .ok spec ∧
          spec.activated[0]? = some a ∧ a.target.conditions = [] ∧
          a.target = .card (.random .both) [] ∧ available d ⟨1⟩ a.effect a.target {} = true ∧
          available d ⟨1⟩ a.effect a.target { zone := some Starter.graveyard } = false)
      (by decide +kernel)
  have hvisited : Visited (Starter.catalog { extraCards := [Starter.recruiter] }) d := .start hstart
  have hdefinite (selection : Selection) : a.target.Definite selection := by
    rw [htarget]
    trivial
  exact ⟨d, seat, spec, a, hvisited, hseat, hspec, ha, havailable,
    (available_takes_effect hvisited 64 hseat hspec ha hconditions (hdefinite {})).2 havailable,
    ((available_takes_effect hvisited 64 hseat hspec ha hconditions
      (hdefinite { zone := some Starter.graveyard })).1 d).mpr ⟨hnone, rfl⟩⟩

/-- Validation does not look at the bounds of stats. Where those of mana
are out of order, an ability that adds mana is available, and calling upon
it meets a fault. -/
theorem tinker_meets_fault :
    ∃ d seat spec a, Visited Starter.crossedMana d ∧ d.seat ⟨1⟩ = .ok seat ∧
      d.specOf ⟨1⟩ = .ok spec ∧ spec.activated[0]? = some a ∧ a.target = .player .acting [] ∧
      a.target.Definite {} ∧ available d ⟨1⟩ a.effect a.target {} = true ∧
      d.perform 64 (.activate ⟨1⟩ ⟨1⟩ 0 {}) = .fault .boundsOutOfOrder := by
  obtain ⟨d, hstart, seat, -, spec, -, a, -, hseat, hspec, ha, htarget, havailable, hfault⟩ :=
    @Duel.exists_of_start Starter.crossedMana 7 ⟨⟨1⟩, [⟨3⟩]⟩ ⟨⟨2⟩, []⟩
      (fun d => ∃ seat ∈ (d.seat ⟨1⟩).toOption, ∃ spec ∈ (d.specOf ⟨1⟩).toOption,
        ∃ a ∈ spec.activated[0]?, d.seat ⟨1⟩ = .ok seat ∧ d.specOf ⟨1⟩ = .ok spec ∧
          spec.activated[0]? = some a ∧ a.target = .player .acting [] ∧
          available d ⟨1⟩ a.effect a.target {} = true ∧
          d.perform 64 (.activate ⟨1⟩ ⟨1⟩ 0 {}) = .fault .boundsOutOfOrder)
      (by decide +kernel)
  refine ⟨d, seat, spec, a, .start hstart, hseat, hspec, ha, htarget, ?_, havailable, hfault⟩
  rw [htarget]
  trivial

end CardDuel
