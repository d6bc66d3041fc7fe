/-
CardDuel.Proofs.Applying — what one write does, and what it leaves.

Effects on players, effects on cards and blows are one computation with
five parameters, a `Writing`. It looks for the bearer, then for the stat,
then rolls the amount and writes. So it is refused for want of a bearer
and does nothing for want of a stat, before anything is drawn; and when
it writes, one stat of one bearer has another base value or one more
modifier, and the generator is where the roll left it.

  §1 Writings  — the parameters, and the stat that a write leaves.
  §2 Runs      — the three endings of the computation.
  §3 Frames    — what is the same after a write.
  §4 Duels     — all duels that actions and queries lead to.
-/
import CardDuel.Catalog.Starter
import CardDuel.Proofs.Exchange

namespace CardDuel

open Engine Play

/-! ## §1 Writings -/

/-- A write that can be asked for by itself. -/
structure Writing where
  bearer : Bearer
  stat : String
  adjustment : Adjustment
  amount : Amount
  turns : UInt32
  deriving DecidableEq, Repr

/-- The write that a query asks for, if it asks for one. A blow takes off
a constant amount for good. -/
def Query.writing? : Query → Option Writing
  | applyToPlayer player e => some ⟨.player player, e.stat, e.adjustment, e.amount, e.turns⟩
  | applyToCard card e => some ⟨.card card, e.stat, e.adjustment, e.amount, e.turns⟩
  | damage bearer stat amount => some ⟨bearer, stat, .decrease, .constant amount, 0⟩
  | _ => none

/-- A roll of the amount draws from the generator. -/
def Amount.Draws : Amount → Prop
  | .constant _ => False
  | .random low high => low < high

theorem Amount.roll_of_draws {a : Amount} (h : a.Draws) (g : Random.Generator) :
    (a.roll g).2.calls = g.calls + 1 := by
  cases a with
  | constant value => exact h.elim
  | random low high => exact (Random.Generator.range_mem (g := g) h).2.2

theorem Amount.roll_of_not_draws {a : Amount} (h : ¬ a.Draws) (g : Random.Generator) :
    (a.roll g).2 = g := by
  cases a with
  | constant value => rfl
  | random low high =>
    have hle : high ≤ low := Int.not_lt.mp h
    exact congrArg Prod.snd (Random.Generator.range_of_le hle)

/-- A modifier for some turns is attached for just these. -/
theorem Stat.addModifier_of_ne_zero {s : Stat} {value : Points} {turns : UInt32} (h : turns ≠ 0) :
    s.addModifier value turns =
      s.replace { s with modifiers := s.modifiers ++ [⟨value, turns⟩] } := by
  have hmax : max turns 1 = turns := by
    show (if turns ≤ 1 then 1 else turns) = turns
    split
    · rename_i hle
      exact UInt32.le_antisymm (UInt32.le_iff_toNat_le.mpr (UInt32.pos_iff_ne_zero.mpr h)) hle
    · rfl
  rw [addModifier, hmax]

namespace Writing

/-- The stat after the write of an amount. Setting a stat, or adding to it
for no turns, writes the base value; else a modifier is attached for the
turns. -/
def onStat (w : Writing) (amount : Points) (s : Stat) : Stat :=
  match w.adjustment with
  | .set => { s with base := amount }
  | .increase =>
    if w.turns = 0 then { s with base := s.base.add amount }
    else { s with modifiers := s.modifiers ++ [⟨amount, w.turns⟩] }
  | .decrease =>
    if w.turns = 0 then { s with base := s.base.add amount.neg }
    else { s with modifiers := s.modifiers ++ [⟨amount.neg, w.turns⟩] }

variable {w : Writing} {s : Stat} {amount : Points}

theorem alike_onStat : s.Alike (w.onStat amount s) := by
  unfold onStat
  split
  · exact ⟨rfl, rfl, rfl⟩
  · split <;> exact ⟨rfl, rfl, rfl⟩
  · split <;> exact ⟨rfl, rfl, rfl⟩

theorem apply_eq_replace : w.adjustment.apply amount w.turns s = s.replace (w.onStat amount s) := by
  unfold onStat Adjustment.apply
  cases w.adjustment with
  | set => rfl
  | increase =>
    dsimp only
    split
    · rfl
    · rename_i hturns
      exact Stat.addModifier_of_ne_zero hturns
  | decrease =>
    dsimp only
    split
    · rfl
    · rename_i hturns
      exact Stat.addModifier_of_ne_zero hturns

end Writing

/-! ## §2 Runs -/

namespace Play

variable {s : Scene} {b : Bearer} {stat : String} {a : Adjustment} {amount : Amount}
variable {turns : UInt32} {block : StatBlock}

theorem adjustStat_of_error {e : LookupError} (h : s.duel.stats b = .error e) :
    adjustStat b stat a amount turns s = .refused (.lookup e) s := by
  rw [adjustStat, bind_eq, find, h]

theorem adjustStat_of_none (hb : s.duel.stats b = .ok block) (h : block.get? stat = none) :
    adjustStat b stat a amount turns s = .done none s := by
  rw [adjustStat, bind_of_done (find_of_ok hb), h]
  rfl

theorem writeStat_of_some {st st' : Stat} {change : StatChange}
    {write : Stat → Except Fault (StatChange × Stat)} (hb : s.duel.stats b = .ok block)
    (h : block.get? stat = some st) (hwrite : write st = .ok (change, st')) :
    writeStat b stat write s =
      .done (some change) ⟨s.duel.putStats b (block.put stat st'),
        .wrote b stat change :: s.journal, s.depth⟩ := by
  rw [writeStat, bind_of_done (find_of_ok hb), h]
  show (sound (write st) >>= _) s = _
  rw [hwrite]
  rfl

/-- The amount is rolled once the stat is found, and then written. -/
theorem adjustStat_of_some {st : Stat} (hb : s.duel.stats b = .ok block)
    (h : block.get? stat = some st) :
    adjustStat b stat a amount turns s =
      writeStat b stat (a.apply (amount.roll s.duel.generator).1 turns)
        { s with duel := { s.duel with generator := (amount.roll s.duel.generator).2 } } := by
  rw [adjustStat, bind_of_done (find_of_ok hb), h]
  rfl

/-- A blow takes a constant amount off for good. -/
theorem damage_eq_adjustStat (b : Bearer) (stat : String) (value : Points) :
    Play.damage b stat value = adjustStat b stat .decrease (.constant value) 0 := by
  funext s
  cases hb : s.duel.stats b with
  | error e =>
    rw [adjustStat_of_error hb, Play.damage, writeStat, bind_eq, find, hb]
  | ok block =>
    cases hst : block.get? stat with
    | none =>
      rw [adjustStat_of_none hb hst, Play.damage, writeStat, bind_of_done (find_of_ok hb), hst]
      rfl
    | some st =>
      rw [adjustStat_of_some hb hst]
      rfl

end Play

theorem Query.run_of_writing {q : Query} {w : Writing} (h : q.writing? = some w) :
    q.run = Answer.change <$> adjustStat w.bearer w.stat w.adjustment w.amount w.turns := by
  cases q with
  | applyToPlayer player e => cases h; rfl
  | applyToCard card e => cases h; rfl
  | damage b stat amount =>
    cases h
    rw [Query.run, damage_eq_adjustStat]
  | playerTargets => cases h
  | cardTargets => cases h
  | age => cases h

/-! ## §3 Frames -/

/-- The write of a duel: one stat of one bearer has changed as the write
says, by the amount that was rolled, and nothing else. -/
structure Duel.Writes (d : Duel) (w : Writing) (block : StatBlock) (s : Stat) (change : StatChange)
    (d' : Duel) : Prop where
  old : d.statValue? w.bearer w.stat = .ok (some change.old)
  new : d'.statValue? w.bearer w.stat = .ok (some change.new)
  bounds : (s.low ≤ change.old ∧ change.old ≤ s.high) ∧ s.low ≤ change.new ∧ change.new ≤ s.high
  /-- In the block of the bearer the stat of that name is written, in its
  place. -/
  place : ∃ i, block.stats[i]? = some s ∧ s.name = w.stat ∧
    d'.stats w.bearer = .ok ⟨block.stats.set i (w.onStat (w.amount.roll d.generator).1 s)⟩
  others : ∀ b, b ≠ w.bearer → d'.stats b = d.stats b
  /-- Only the generator and the block of the bearer are written. -/
  only : d' = { d with generator := (w.amount.roll d.generator).2 }.putStats w.bearer
    (block.put w.stat (w.onStat (w.amount.roll d.generator).1 s))
  zones : d'.zone = d.zone
  fixture : d'.fixture = d.fixture
  calls : w.amount.Draws → d'.generator.calls = d.generator.calls + 1
  undrawn : ¬ w.amount.Draws → d'.generator = d.generator

theorem Stat.between_of_effective {s : Stat} {value : Points} (h : s.low ≤ s.high)
    (hvalue : s.effective = .ok value) : s.low ≤ value ∧ value ≤ s.high := by
  obtain ⟨value', hvalue', hval⟩ := Stat.effective_of_ordered h
  cases hvalue.symm.trans hvalue'
  rw [Points.le_iff] at h
  rw [Points.le_iff, Points.le_iff]
  omega

theorem Duel.writes_putStats {d : Duel} {w : Writing} {block : StatBlock} {s : Stat}
    {change : StatChange} (hb : d.stats w.bearer = .ok block) (hs : block.get? w.stat = some s)
    (hbounds : s.low ≤ s.high)
    (hold : s.effective = .ok change.old)
    (hnew : (w.onStat (w.amount.roll d.generator).1 s).effective = .ok change.new) :
    d.Writes w block s change
      ({ d with generator := (w.amount.roll d.generator).2 }.putStats w.bearer
        (block.put w.stat (w.onStat (w.amount.roll d.generator).1 s))) := by
  have halike : s.Alike (w.onStat (w.amount.roll d.generator).1 s) := w.alike_onStat
  have hstats : ({ d with generator := (w.amount.roll d.generator).2 } : Duel).stats = d.stats := by
    funext b
    cases b <;> rfl
  have hput (b : Bearer) :
      ({ d with generator := (w.amount.roll d.generator).2 }.putStats w.bearer
        (block.put w.stat (w.onStat (w.amount.roll d.generator).1 s))).stats b =
          if b = w.bearer then .ok (block.put w.stat (w.onStat (w.amount.roll d.generator).1 s))
          else d.stats b := by
    have hb : ({ d with generator := (w.amount.roll d.generator).2 } : Duel).stats w.bearer =
        .ok block := hstats ▸ hb
    rw [Duel.stats_putStats hb, hstats]
  obtain ⟨i, -, hi, hname, hset⟩ := StatBlock.put_eq_set hs
  constructor
  case old => exact Duel.statValue?_of_effective hb hs hold
  case new =>
    refine Duel.statValue?_of_effective (by rw [hput, if_pos rfl]) ?_ hnew
    rw [StatBlock.get?_put hs halike.name, if_pos rfl]
  case bounds =>
    have hbetween := Stat.between_of_effective (halike.low ▸ halike.high ▸ hbounds) hnew
    rw [halike.low, halike.high] at hbetween
    exact ⟨Stat.between_of_effective hbounds hold, hbetween⟩
  case place => exact ⟨i, hi, hname, by rw [hput, if_pos rfl, hset]⟩
  case others => exact fun b hne => by rw [hput, if_neg hne]
  case only => rfl
  case zones =>
    funext p id
    rw [Duel.zone_putStats]
    rfl
  case fixture =>
    rw [Duel.fixture_putStats]
    rfl
  case calls =>
    intro hdraws
    rw [Duel.generator_putStats]
    exact Amount.roll_of_draws hdraws _
  case undrawn =>
    intro hdraws
    rw [Duel.generator_putStats]
    exact Amount.roll_of_not_draws hdraws _

/-! ## §4 Duels -/

/-- A query for a write ends as the computation of the write does. -/
theorem Duel.ask_of_writing {q : Query} {w : Writing} (hq : q.writing? = some w) (d : Duel) :
    d.ask q =
      match adjustStat w.bearer w.stat w.adjustment w.amount w.turns ⟨d, [], 0⟩ with
      | .done change s => .done (.change change) s.duel
      | .refused e s => .refused e s.duel
      | .fault cause => .fault cause := by
  rw [Duel.ask, runOn, Query.run_of_writing hq]
  show ((adjustStat _ _ _ _ _ >>= fun change => pure (Answer.change change)) _).mapState _ = _
  rw [bind_eq]
  cases adjustStat w.bearer w.stat w.adjustment w.amount w.turns ⟨d, [], 0⟩ <;> rfl

/-- **Writes touch one stat.** Whatever is asked for in a duel that is
visited, an effect on a player or card or a blow: without the bearer it
is refused, without the stat it yields nothing, and both leave the duel
as it is, its generator too. Else it yields a change from the effective
value before to the one after, both within the bounds, and only the stat
is written and only the amount is rolled. -/
theorem visited_writes {catalog : Catalog} (hc : catalog.Ordered) {d : Duel}
    (h : Visited catalog d) {q : Query} {w : Writing} (hq : q.writing? = some w) :
    match d.stats w.bearer with
    | .error e => ¬ d.fixture.Knows w.bearer ∧ d.ask q = .refused (.lookup e) d
    | .ok block => d.fixture.Knows w.bearer ∧
      match block.get? w.stat with
      | none => w.stat ∉ block.names ∧ d.ask q = .done (.change none) d
      | some s => ∃ change d', d.ask q = .done (.change (some change)) d' ∧
          d.Writes w block s change d' := by
  have hstanding : Standing d.fixture (fun _ => True) ⟨d, [], 0⟩ := ⟨rfl, h.sound.laid, trivial⟩
  rw [Duel.ask_of_writing hq]
  cases hb : d.stats w.bearer with
  | error e =>
    refine ⟨fun hknown => ?_, by rw [adjustStat_of_error hb]⟩
    obtain ⟨block, hblock⟩ := hstanding.stats hknown
    rw [hb] at hblock
    cases hblock
  | ok block =>
    refine ⟨hstanding.knows hb, ?_⟩
    cases hs : block.get? w.stat with
    | none =>
      refine ⟨fun hname => ?_, by rw [adjustStat_of_none hb hs]⟩
      obtain ⟨s, hs'⟩ := StatBlock.exists_get? hname
      rw [hs] at hs'
      cases hs'
    | some s =>
      -- Only a stat without room between its bounds cannot be written.
      have hbounds : s.low ≤ s.high := (h.sturdy hc).readable block s hb hs
      have halike : s.Alike (w.onStat (w.amount.roll d.generator).1 s) := w.alike_onStat
      obtain ⟨change, hchange⟩ :=
        Stat.replace_of_ordered hbounds (halike.low ▸ halike.high ▸ hbounds)
      obtain ⟨-, hold, hnew⟩ := Stat.replace_eq_ok hchange
      refine ⟨change, _, ?_, Duel.writes_putStats hb hs hbounds hold hnew⟩
      rw [adjustStat_of_some hb hs]
      have hb' : ({ d with generator := (w.amount.roll d.generator).2 } : Duel).stats w.bearer =
          .ok block := hb
      rw [writeStat_of_some hb' hs (w.apply_eq_replace.trans hchange)]

/-- The life of a player is raised by a random amount for two turns. -/
theorem writes_of_random_gift :
    (Starter.catalog {}).Ordered ∧ ∃ d block s, Visited (Starter.catalog {}) d ∧
      d.stats (.player ⟨1⟩) = .ok block ∧ block.get? "Life" = some s ∧
      ∃ change d',
        d.ask (.applyToPlayer ⟨1⟩ ⟨"Life", .increase, .random 1 4, 2⟩) =
          .done (.change (some change)) d' ∧
        d.Writes ⟨.player ⟨1⟩, "Life", .increase, .random 1 4, 2⟩ block s change d' := by
  have hordered : (Starter.catalog {}).Ordered := ⟨by decide, by decide⟩
  obtain ⟨d, hvisited, hlife⟩ :=
    @Visited.exists_of_performAll (Starter.catalog {}) 64 7 ⟨⟨1⟩, [⟨1⟩]⟩ ⟨⟨2⟩, []⟩ [.startTurn]
      (fun d => ((d.stats (.player ⟨1⟩)).toOption.bind (·.get? "Life")).isSome) (by decide +kernel)
  obtain ⟨s, hs⟩ := Option.isSome_iff_exists.mp hlife
  obtain ⟨block, hblock, hs⟩ := Option.bind_eq_some_iff.mp hs
  have hblock : d.stats (.player ⟨1⟩) = .ok block := by
    cases hstats : d.stats (.player ⟨1⟩) with
    | error e => rw [hstats] at hblock; cases hblock
    | ok block' => rw [hstats] at hblock; cases hblock; rfl
  have hwrites := visited_writes hordered hvisited
    (q := .applyToPlayer ⟨1⟩ ⟨"Life", .increase, .random 1 4, 2⟩) rfl
  rw [hblock] at hwrites
  dsimp only at hwrites
  rw [hs] at hwrites
  exact ⟨hordered, d, block, s, hvisited, hblock, hs, hwrites.2⟩

end CardDuel
