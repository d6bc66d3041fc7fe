/-
CardDuel.Proofs.Faultless — no computation of a duel meets a fault.

A stat is sturdy if its bounds are in order and no modifier is left
without a turn. Sturdy stats have effective values, can be written and
can be aged, and they stay sturdy. In a catalog whose bounds are in order
all stats start sturdy, since cards state base values only. So no action
and no query on a duel that they lead to ends in a fault. The one fault
that is left is the caller's doing: a draw of more cards than a list can
have, which `Action.HasRoom` excludes.

  §1 Stats  — what a sturdy stat can be asked for.
  §2 Blocks — the same for all stats of a bearer.
  §3 Duels  — actions and queries keep all stats sturdy, and have no
              faults.
  §4 Places — every index that is looked up lies in its list.
-/
import CardDuel.Catalog.Starter
import CardDuel.Proofs.Draws
import CardDuel.Proofs.Lifetime
import CardDuel.Proofs.Queries

namespace CardDuel

open Engine Play

/-! ## §1 Stats -/

namespace Modifier

theorem age_of_pos {m : Modifier} (h : 0 < m.turns) :
    m.age = .ok { m with turns := m.turns - 1 } := by
  rw [age, if_neg]
  intro hzero
  rw [hzero] at h
  exact absurd h (by decide)

theorem exists_aged {l : List Modifier} (h : ∀ m ∈ l, 0 < m.turns) :
    ∃ aged, l.mapM age = .ok aged := by
  induction l with
  | nil => exact ⟨[], List.mapM_nil⟩
  | cons m rest ih =>
    obtain ⟨aged, haged⟩ := ih fun m' hm' => h m' (List.mem_cons_of_mem _ hm')
    exact ⟨_, by rw [List.mapM_cons, age_of_pos (h m List.mem_cons_self), haged]; rfl⟩

end Modifier

/-- The bounds are in order, and no modifier is left without a turn. -/
structure Stat.Sturdy (s : Stat) : Prop where
  ordered : s.low ≤ s.high
  timely : ∀ m ∈ s.modifiers, 0 < m.turns

namespace Stat

variable {s s' : Stat}

/-- A stat with its bounds in order has an effective value: its total,
limited to the bounds. -/
theorem effective_of_ordered (h : s.low ≤ s.high) :
    ∃ value, s.effective = .ok value ∧ value.val = max s.low.val (min s.total.val s.high.val) := by
  cases hwithin : s.total.within? s.low s.high with
  | none => exact absurd h (Int.not_le.mpr (Points.within?_eq_none_iff.mp hwithin))
  | some value =>
    refine ⟨value, ?_, (Points.within?_eq_some_iff.mp hwithin).2⟩
    rw [effective, hwithin]

/-- One more modifier adds its value to the total, within the range. -/
theorem val_total_append (m : Modifier) :
    ({ s with modifiers := s.modifiers ++ [m] } : Stat).total.val =
      max Points.least.val (min (s.total.val + m.value.val) Points.greatest.val) := by
  simp only [total, List.foldl_append, List.foldl_cons, List.foldl_nil]
  exact Points.val_add _ _

theorem replace_of_ordered (h : s.low ≤ s.high) (h' : s'.low ≤ s'.high) :
    ∃ change, s.replace s' = .ok (change, s') := by
  obtain ⟨old, hold, -⟩ := effective_of_ordered h
  obtain ⟨new, hnew, -⟩ := effective_of_ordered h'
  exact ⟨⟨old, new⟩, by rw [replace, hold, hnew]; rfl⟩

namespace Sturdy

variable (h : s.Sturdy)
include h

theorem apply (a : Adjustment) (amount : Points) (turns : UInt32) :
    ∃ change s', a.apply amount turns s = .ok (change, s') ∧ s'.Sturdy := by
  obtain ⟨base, added, hadded, hreplace⟩ := a.apply_eq_replace amount turns s
  let s' : Stat := { s with base := base, modifiers := s.modifiers ++ added }
  obtain ⟨change, hchange⟩ : ∃ change, s.replace s' = .ok (change, s') :=
    replace_of_ordered h.ordered h.ordered
  refine ⟨change, s', hreplace.trans hchange, h.ordered, fun m hm => ?_⟩
  rcases List.mem_append.mp hm with hm | hm
  · exact h.timely m hm
  · exact hadded m hm

theorem of_tick {change : Option StatChange} (htick : s.tick = .ok (change, s')) : s'.Sturdy where
  ordered := by
    have halike := (alike_of_tick htick).1
    rw [halike.low, halike.high]
    exact h.ordered
  timely m hm := by
    rw [modifiers_of_tick htick] at hm
    exact Modifier.turns_pos_of_mem_later hm

theorem tick : ∃ change s', s.tick = .ok (change, s') := by
  obtain ⟨old, hold, -⟩ := effective_of_ordered h.ordered
  obtain ⟨aged, haged⟩ := Modifier.exists_aged h.timely
  obtain ⟨new, hnew, -⟩ :=
    effective_of_ordered (s := { s with modifiers := aged.filter (0 < ·.turns) }) h.ordered
  rw [Stat.tick]
  split
  · exact ⟨_, _, rfl⟩
  · rw [hold, haged]
    simp only [Bind.bind, Except.bind]
    split
    · exact ⟨_, _, rfl⟩
    · rw [hnew]
      exact ⟨_, _, rfl⟩

end Sturdy

end Stat

/-! ## §2 Blocks -/

/-- All stats of the block are sturdy. -/
def StatBlock.Sturdy (b : StatBlock) : Prop := ∀ s ∈ b.stats, s.Sturdy

namespace StatBlock

variable {b b' : StatBlock} {name : String} {s s' : Stat}

theorem mem_of_get? (h : b.get? name = some s) : s ∈ b.stats := by
  obtain ⟨i, -, hs, -⟩ := get?_eq_some h
  exact List.mem_of_getElem? hs

theorem Alike.ordered (h : b.Alike b') (hb : ∀ s ∈ b.stats, s.low ≤ s.high) :
    ∀ s ∈ b'.stats, s.low ≤ s.high := by
  obtain ⟨l⟩ := b
  obtain ⟨l'⟩ := b'
  unfold Alike at h
  dsimp only at h hb ⊢
  induction h with
  | nil => simp
  | cons hs _ ih =>
    intro s hmem
    rcases List.mem_cons.mp hmem with rfl | hmem
    · rw [hs.low, hs.high]
      exact hb _ List.mem_cons_self
    · exact ih (fun s hs => hb s (List.mem_cons_of_mem _ hs)) s hmem

namespace Sturdy

variable (h : b.Sturdy)
include h

theorem value? (name : String) : ∃ value, b.value? name = .ok value := by
  rw [StatBlock.value?]
  split
  · rename_i s hs
    obtain ⟨value, hvalue, -⟩ := Stat.effective_of_ordered (h s (mem_of_get? hs)).ordered
    exact ⟨some value, by rw [hvalue]; rfl⟩
  · exact ⟨none, rfl⟩

theorem put (hs : b.get? name = some s) (hs' : s'.Sturdy) : (b.put name s').Sturdy := by
  obtain ⟨i, -, -, -, hput⟩ := put_eq_set hs
  intro t ht
  rw [hput] at ht
  rcases List.mem_or_eq_of_mem_set ht with ht | rfl
  · exact h t ht
  · exact hs'

theorem tick : ∃ changes b', b.tick = .ok (changes, b') := by
  have hall : ∀ l : List Stat, (∀ s ∈ l, s.Sturdy) → ∃ r, tickAll l = .ok r := by
    intro l
    induction l with
    | nil => intro _; exact ⟨_, rfl⟩
    | cons s rest ih =>
      intro hl
      obtain ⟨change, s', hs⟩ := (hl s List.mem_cons_self).tick
      obtain ⟨⟨changes, rest'⟩, hrest⟩ := ih fun t ht => hl t (List.mem_cons_of_mem _ ht)
      rw [tickAll, hs, hrest]
      cases change <;> exact ⟨_, rfl⟩
  obtain ⟨⟨changes, stats⟩, hstats⟩ := hall b.stats h
  exact ⟨changes, ⟨stats⟩, by rw [StatBlock.tick, hstats]; rfl⟩

theorem of_tick {changes : List (String × StatChange)} (htick : b.tick = .ok (changes, b')) :
    b'.Sturdy := by
  have hall := forall₂_of_tick htick
  intro s' hs'
  obtain ⟨i, hlen', rfl⟩ := List.getElem_of_mem hs'
  have hlen : i < b.stats.length := hall.length_eq ▸ hlen'
  obtain ⟨change, hs, -⟩ := hall.get hlen hlen'
  exact (h b.stats[i] (List.getElem_mem hlen)).of_tick hs

end Sturdy

end StatBlock

/-! ## §3 Duels -/

/-- The bounds of all stats that the catalog declares are in order. -/
structure Catalog.Ordered (c : Catalog) : Prop where
  players : ∀ s ∈ c.playerStats, s.low ≤ s.high
  cards : ∀ t ∈ c.cardTypes, ∀ s ∈ t.stats, s.low ≤ s.high

theorem Fixture.ordered_of_declared? {φ : Fixture} {b : Bearer} {declared : StatBlock}
    (hc : φ.catalog.Ordered) (h : φ.declared? b = some declared) :
    ∀ s ∈ declared.stats, s.low ≤ s.high := by
  intro s hs
  cases b with
  | player p =>
    cases h
    obtain ⟨spec, hspec, rfl⟩ := List.mem_map.mp hs
    exact hc.players spec hspec
  | card id =>
    obtain ⟨t, ht, rfl⟩ := Option.map_eq_some_iff.mp h
    obtain ⟨tag, -, ht⟩ := Option.bind_eq_some_iff.mp ht
    obtain ⟨spec, hspec, rfl⟩ := List.mem_map.mp hs
    exact hc.cards t (List.mem_of_find?_eq_some ht) spec hspec

theorem postings_sturdy :
    Postings (fun (_ : Unit) B => B.stats.Each fun _ => StatBlock.Sturdy) fun _ _ _ i => i :=
  Sheet.postings_each fun {_ _ _ s s' change a amount turns} h hs hwrite => by
    obtain ⟨change', s'', hok, hs''⟩ := (h s (StatBlock.mem_of_get? hs)).apply a amount turns
    cases hwrite.symm.trans hok
    exact h.put hs hs''

theorem ages_sturdy :
    Ledger.Ages (fun (_ : Unit) B => B.stats.Each fun _ => StatBlock.Sturdy) fun _ _ _ i => i :=
  @Sheet.ages_each (fun _ => StatBlock.Sturdy) fun h htick => h.of_tick htick

/-- Sturdy stats have no faults. -/
theorem secure_sturdy {F : Fault → Prop} (rounds : F .outOfRounds) :
    Secure (fun (_ : Unit) B => B.stats.Each fun _ => StatBlock.Sturdy) F where
  read {_ _ b block name cause} h hblock hcause := by
    obtain ⟨value, hvalue⟩ := (h b block hblock).value? name
    cases hcause.symm.trans hvalue
  write {_ _ b block name s cause a amount turns} h hblock hs hcause := by
    have hsturdy := h b block hblock s (StatBlock.mem_of_get? hs)
    obtain ⟨change, s', hok, -⟩ := hsturdy.apply a amount turns
    cases hcause.symm.trans hok
  age {_ _ b block cause} h hblock hcause := by
    obtain ⟨changes, block', hok⟩ := (h b block hblock).tick
    cases hcause.symm.trans hok
  rounds := rounds

namespace Duel

variable {d d' : Duel} {limit : Nat} {a : Action} {q : Query}

/-- All stats of the duel are sturdy. -/
def Sturdy (d : Duel) : Prop := Sheet.Each (fun _ => StatBlock.Sturdy) d.stats

theorem Declared.sturdy (h : d.Declared) (hc : d.catalog.Ordered) (ht : Sheet.Timely d.stats) :
    d.Sturdy := by
  intro b block hb s hs
  obtain ⟨declared, hdeclared, halike⟩ := h b block hb
  exact ⟨halike.ordered (Fixture.ordered_of_declared? hc hdeclared) s hs, ht b block hb s hs⟩

theorem sturdy_of_start {catalog : Catalog} {seed : UInt64} {first second : Entrant}
    (h : start catalog seed first second = .ok d) (hc : catalog.Ordered) : d.Sturdy := by
  have hblank : Sheet.Timely (blank catalog seed first.id second.id).stats := by
    intro b block hb s hs m hm
    rw [modifiers_blank hb s hs] at hm
    cases hm
  exact (declared_of_start h).sturdy (catalog_of_start h ▸ hc) (hblank.of_extends (stats_start h).1)

namespace Sound

variable (hd : d.Sound) (h : d.Sturdy)
include hd h

/-- **Actions keep all stats sturdy**, and have no fault but that of a
recursion cut short, if there is room for the cards that are drawn. -/
theorem wp_run_sturdy (limit : Nat) (a : Action) (hdeclared : d.Declared)
    (hc : d.catalog.Ordered) :
    wp (.books (fun B => B.stats.Each fun _ => StatBlock.Sturdy)
        fun cause => a.HasRoom → cause = .outOfRounds)
      (a.run (dispatch limit (limit + 1))) (fun _ s => s.duel.Sturdy) ⟨d, [], 0⟩ := by
  refine postings_sturdy.wp_run (i := ()) (secure_sturdy fun _ => rfl) id hd
    (fun hroom hroom' => absurd hroom' hroom) (fun _ => @ages_sturdy) ?_ h
  intro owner card place id d' _ hcreate
  obtain ⟨spec, -, -, hφ⟩ := fixture_create hcreate
  have hcatalog : d'.catalog = d.catalog := congrArg Fixture.catalog hφ
  have htimely : Sheet.Timely d.stats := fun b block hb s hs => (h b block hb s hs).timely
  exact (hdeclared.create hd hcreate).sturdy (hcatalog ▸ hc)
    (htimely.of_extends (stats_create hcreate).1)

theorem wp_query_sturdy :
    wp (.books (fun B => B.stats.Each fun _ => StatBlock.Sturdy) (· = .outOfRounds)) q.run
      (fun _ s => s.duel.Sturdy) ⟨d, [], 0⟩ :=
  postings_sturdy.wp_query (i := ()) (secure_sturdy (F := (· = .outOfRounds)) rfl) id
    @ages_sturdy hd h q

/-- An action does not end in a fault, if there is room for the cards that
it is to draw. -/
theorem record_ne_fault (hdeclared : d.Declared) (hc : d.catalog.Ordered) (hroom : a.HasRoom)
    (cause : Fault) : d.record limit a ≠ .fault cause := by
  have hrun := hd.wp_run_sturdy h limit a hdeclared hc
  intro hfault
  have hrounds : d.record limit a ≠ .fault .outOfRounds :=
    ne_outOfRounds_of_wp (record_level { duel := d, limit } a (Nat.lt_succ_self _))
  have hcause : cause = .outOfRounds := by
    unfold wp at hrun
    unfold Duel.record Game.record at hfault
    rw [hfault] at hrun
    exact hrun hroom
  exact hrounds (hcause ▸ hfault)

/-- A query does not end in a fault. -/
theorem ask_ne_fault (cause : Fault) : d.ask q ≠ .fault cause := by
  have hrun := hd.wp_query_sturdy h (q := q)
  intro hfault
  unfold wp at hrun
  unfold ask runOn at hfault
  cases hq : q.run ⟨d, [], 0⟩ with
  | done answer s => rw [hq] at hfault; cases hfault
  | refused e s => rw [hq] at hfault; cases hfault
  | fault cause' =>
    rw [hq] at hrun
    exact query_ne_outOfRounds q _ (hrun ▸ hq)

end Sound

end Duel

namespace Visited

variable {catalog : Catalog} {d : Duel}

theorem sturdy (h : Visited catalog d) (hc : catalog.Ordered) : d.Sturdy := by
  induction h with
  | start h => exact Duel.sturdy_of_start h hc
  | action before hstep ih =>
    obtain ⟨s, rfl, ⟨_, hs⟩ | ⟨_, hs⟩⟩ := state_of_wp
      (before.sound.wp_run_sturdy ih _ _ before.declared (before.catalog_eq ▸ hc)) hstep
    · exact hs
    · exact hs
  | query before hstep ih =>
    obtain ⟨s, rfl, ⟨_, hs⟩ | ⟨_, hs⟩⟩ :=
      state_of_wp_query (before.sound.wp_query_sturdy ih) hstep
    · exact hs
    · exact hs

end Visited

/-- If the bearer has the stat, then its bounds are in order. -/
def Duel.Readable (d : Duel) (b : Bearer) (stat : String) : Prop :=
  ∀ block s, d.stats b = .ok block → block.get? stat = some s → s.low ≤ s.high

namespace Duel

variable {d : Duel} {b : Bearer} {stat : String}

theorem Sturdy.readable (h : d.Sturdy) : d.Readable b stat :=
  fun block s hb hs => (h b block hb s (StatBlock.mem_of_get? hs)).ordered

theorem statValue?_of_readable (h : d.Readable b stat) :
    ∃ value, d.statValue? b stat = .ok value := by
  unfold statValue? StatBlock.value?
  cases hb : d.stats b with
  | error e => exact ⟨none, rfl⟩
  | ok block =>
    dsimp only
    cases hs : block.get? stat with
    | none => exact ⟨none, rfl⟩
    | some s =>
      obtain ⟨value, hvalue, -⟩ := Stat.effective_of_ordered (h block s hb hs)
      exact ⟨some value, by simp [hvalue, Except.map]⟩

/-- Only bounds that are out of order keep a stat from being read. -/
theorem statValue?_of_not_readable (h : ¬ d.Readable b stat) :
    d.statValue? b stat = .error .boundsOutOfOrder := by
  simp only [Readable, not_forall] at h
  obtain ⟨block, s, hb, hs, hbounds⟩ := h
  have hnone : s.total.within? s.low s.high = none :=
    Points.within?_eq_none_iff.mpr (Int.not_le.mp hbounds)
  simp [statValue?, StatBlock.value?, hb, hs, Stat.effective, hnone, Except.map]

end Duel

/-! ## §4 Places -/

/-- A card is taken out of a pile at its place. -/
theorem Zone.remove_eq_eraseIdx {z : Zone} {card : InstanceId} {i : Nat}
    (h : z.position? card = some i) :
    i < z.cards.length ∧ z.remove card = { z with cards := z.cards.eraseIdx i } := by
  unfold position? at h
  constructor
  · exact (List.idxOf?_eq_some_iff.mp h).1
  · rw [remove, List.erase_eq_eraseIdx, h]

/-- What a duel has to show so that nothing in it meets a fault. -/
structure Duel.Faultless (d : Duel) : Prop where
  /-- Actions are done or refused, if there is room for the cards to be
  drawn. -/
  record : ∀ limit (a : Action), a.HasRoom → ∀ cause, d.record limit a ≠ .fault cause
  /-- Queries are done or refused. -/
  ask : ∀ q cause, d.ask q ≠ .fault cause
  /-- The player whose turn it is has a seat. -/
  current : ∃ s, d.seat d.current = .ok s
  /-- The stats of a bearer are those declared of it: their places, names
  and bounds do not change. So a name leads to the place to which it led
  at first, and the place is in the list. -/
  declared : ∀ b block, d.stats b = .ok block →
    ∃ declared, d.fixture.declared? b = some declared ∧ declared.Alike block ∧
      ∀ name, StatBlock.lastIndex? name block.stats = StatBlock.lastIndex? name declared.stats ∧
        ∀ i, StatBlock.lastIndex? name block.stats = some i → i < block.stats.length
  /-- The bounds of each stat are in order, its modifiers have turns left,
  and so it has an effective value. -/
  stats : ∀ b block, d.stats b = .ok block → ∀ s ∈ block.stats, s.low ≤ s.high ∧
    (∀ m ∈ s.modifiers, 0 < m.turns) ∧
      ∃ value, s.effective = .ok value ∧ value.val = max s.low.val (min s.total.val s.high.val)

theorem Duel.Declared.lastIndex? {d : Duel} (h : d.Declared) {b : Bearer} {block : StatBlock}
    (hb : d.stats b = .ok block) :
    ∃ declared, d.fixture.declared? b = some declared ∧ declared.Alike block ∧
      ∀ name, StatBlock.lastIndex? name block.stats = StatBlock.lastIndex? name declared.stats ∧
        ∀ i, StatBlock.lastIndex? name block.stats = some i → i < block.stats.length := by
  obtain ⟨declared, hdeclared, halike⟩ := h b block hb
  refine ⟨declared, hdeclared, halike, fun name => ⟨?_, fun i hi => ?_⟩⟩
  · exact StatBlock.lastIndex?_congr halike.names_eq
  · obtain ⟨s, hs, -⟩ := StatBlock.lastIndex?_eq_some hi
    exact (List.getElem?_eq_some_iff.mp hs).1

/-- **No fault is met.** Let the bounds of all stats in a catalog be in
order. Then on a duel to which actions and queries lead, no action and no
query meets a fault, however deep chains may get and whatever the
arguments are, as long as no more cards are to be drawn than a list can
have. And everywhere, sums of points stay in their range, a
place that is drawn or looked up lies in its list, and a value is drawn
only from a range that has one. -/
theorem visited_faultless {catalog : Catalog} (hc : catalog.Ordered) {d : Duel}
    (h : Visited catalog d) :
    d.Faultless ∧ d.catalog = catalog ∧
    (∀ (s : Stat) (m : Modifier),
      ({ s with modifiers := s.modifiers ++ [m] } : Stat).total.val =
        max Points.least.val (min (s.total.val + m.value.val) Points.greatest.val)) ∧
    (∀ (s : Stat) (delta : Points), s.low ≤ s.high → ∃ change s',
      s.addBase delta = .ok (change, s') ∧
        s'.base.val = max Points.least.val (min (s.base.val + delta.val) Points.greatest.val)) ∧
    (∀ amount : Points, amount.neg.val = min (-amount.val) Points.greatest.val) ∧
    (∀ (z : Zone) (card : InstanceId) (i : Nat), z.position? card = some i →
      i < z.cards.length ∧ z.remove card = { z with cards := z.cards.eraseIdx i }) ∧
    (∀ (g : Random.Generator) {α : Type} (members : List α), members ≠ [] →
      ∃ i a, (g.index? members.length).1 = some i ∧ members[i]? = some a ∧
        (g.pick? members).1 = some a) ∧
    (∀ (g : Random.Generator) (low high : Points),
      (high ≤ low → g.range low high = (low, g)) ∧
      (low < high → low ≤ (g.range low high).1 ∧ (g.range low high).1 < high)) := by
  have hsturdy := h.sturdy hc
  have hordered : d.catalog.Ordered := h.catalog_eq ▸ hc
  refine ⟨?_, h.catalog_eq, fun s m => Stat.val_total_append m, ?_, Points.val_neg,
    fun z card i hi => Zone.remove_eq_eraseIdx hi,
    fun g _ members hmembers => Random.Generator.pick?_of_ne_nil hmembers,
    fun g low high => ⟨Random.Generator.range_of_le, fun hlt => ?_⟩⟩
  · refine ⟨?_, ?_, ?_, fun b block hb => h.declared.lastIndex? hb, ?_⟩
    · exact fun limit a => h.sound.record_ne_fault hsturdy h.declared hordered
    · exact fun q => h.sound.ask_ne_fault hsturdy
    · exact Duel.seat_isOk_iff.mpr h.sound.fixture.current
    · intro b block hb s hs
      obtain ⟨hbounds, htimely⟩ := hsturdy b block hb s hs
      exact ⟨hbounds, htimely, Stat.effective_of_ordered hbounds⟩
  · intro s delta hbounds
    let s' : Stat := { s with base := s.base.add delta }
    obtain ⟨change, hchange⟩ : ∃ change, s.replace s' = .ok (change, s') :=
      Stat.replace_of_ordered hbounds hbounds
    exact ⟨change, s', hchange, Points.val_add ..⟩
  · obtain ⟨hlow, hhigh, -⟩ := Random.Generator.range_mem (g := g) hlt
    exact ⟨hlow, hhigh⟩

/-- A blow of the least amount heals, as far as sums and bounds allow,
and no action with room for its cards meets a fault on the duel that is
left; a draw of ten thousand cards has room. -/
theorem starter_after_least_blow :
    (Starter.catalog {}).Ordered ∧ ∃ d, Visited (Starter.catalog {}) d ∧
      d.statValue? (.player ⟨1⟩) "Life" = .ok (some 99) ∧
        (∀ limit (a : Action), a.HasRoom → ∀ cause, d.record limit a ≠ .fault cause) ∧
          ∀ p, (Action.draw p 10000).HasRoom := by
  have hordered : (Starter.catalog {}).Ordered := ⟨by decide, by decide⟩
  obtain ⟨d₀, hd₀, d, hd, hlife⟩ :
      ∃ d₀ ∈ (Duel.start (Starter.catalog {}) 7 ⟨⟨1⟩, [⟨1⟩]⟩ ⟨⟨2⟩, []⟩).toOption,
        ∃ d ∈ (d₀.ask (.damage (.player ⟨1⟩) "Life" Points.least)).state?,
          d.statValue? (.player ⟨1⟩) "Life" = .ok (some 99) := by
    decide +kernel
  have hstart : Duel.start (Starter.catalog {}) 7 ⟨⟨1⟩, [⟨1⟩]⟩ ⟨⟨2⟩, []⟩ = .ok d₀ := by
    cases hstart : Duel.start (Starter.catalog {}) 7 ⟨⟨1⟩, [⟨1⟩]⟩ ⟨⟨2⟩, []⟩ with
    | error e => rw [hstart] at hd₀; cases hd₀
    | ok d₁ => rw [hstart] at hd₀; cases hd₀; rfl
  have hvisited : Visited (Starter.catalog {}) d := .query (.start hstart) hd
  have hroom (p : PlayerId) : (Action.draw p 10000).HasRoom :=
    show 10000 ≤ drawCapacity by decide
  exact ⟨hordered, d, hvisited, hlife, (visited_faultless hordered hvisited).1.record, hroom⟩

end CardDuel
