/-
CardDuel.Proofs.Lifetime — how long modifiers last.

A modifier counts the turns of its holder: the player it is on, or the
owner of the card it is on. The end of a turn ages the modifiers of the
player whose turn it is, once, wherever the cards lie and wherever they
are moved while the ageing goes on; nothing else ages a modifier, removes
one or puts one before another. So what an action leaves of a list of
modifiers is where the new list begins, and the same is true of runs,
with one turn for each turn of the holder that ended.

  §1 Stats     — one stat and one block, some turns later.
  §2 Sheets    — the stats of all bearers, some turns later.
  §3 Turns     — an action, and the end of a turn.
  §4 Runs      — counts of turns.
-/
import CardDuel.Catalog.Starter
import CardDuel.Proofs.Books
import CardDuel.Proofs.Stats
import Mathlib.Data.List.Count
import Mathlib.Logic.Function.Iterate

namespace CardDuel

open Engine Play

/-! ## §1 Stats -/

namespace Modifier

/-- A list of modifiers one turn later. Those that have no turn left are
dropped. -/
def later (l : List Modifier) : List Modifier :=
  (l.map fun m => { m with turns := m.turns - 1 }).filter (0 < ·.turns)

variable {l l' : List Modifier}

theorem aged_eq : ∀ {l l' : List Modifier}, l.mapM Modifier.age = .ok l' →
    l' = l.map fun m => { m with turns := m.turns - 1 }
  | [], l', h => by
    rw [List.mapM_nil] at h
    cases h
    rfl
  | m :: rest, l', h => by
    rw [List.mapM_cons] at h
    obtain ⟨m', hm, h⟩ := Except.bind_eq_ok_iff.mp h
    obtain ⟨rest', hrest, h⟩ := Except.bind_eq_ok_iff.mp h
    cases h
    unfold Modifier.age at hm
    split at hm
    · cases hm
    · cases hm
      rw [List.map_cons, aged_eq hrest]

theorem later_mono (n : Nat) (h : l <+: l') : later^[n] l <+: later^[n] l' := by
  induction n generalizing l l' with
  | zero => exact h
  | succ n ih => exact ih ((h.map _).filter _)

theorem turns_pos_of_mem_later {m : Modifier} (h : m ∈ later l) : 0 < m.turns := by
  simpa using (List.mem_filter.mp h).2

end Modifier

/-- The second stat is the first one after `n` ends of a turn: what is
left of its modifiers comes first, and new ones follow. -/
structure Stat.Later (n : Nat) (s s' : Stat) : Prop extends s.Alike s' where
  lasts : Modifier.later^[n] s.modifiers <+: s'.modifiers

namespace Stat.Later

variable {n m : Nat} {s s' s'' : Stat}

theorem refl (s : Stat) : s.Later 0 s := ⟨⟨rfl, rfl, rfl⟩, List.prefix_rfl⟩

theorem trans (h : s.Later n s') (h' : s'.Later m s'') : s.Later (n + m) s'' where
  name := h'.name.trans h.name
  low := h'.low.trans h.low
  high := h'.high.trans h.high
  lasts := by
    rw [Nat.add_comm, Function.iterate_add_apply]
    exact (Modifier.later_mono m h.lasts).trans h'.lasts

theorem of_apply {a : Adjustment} {amount : Points} {turns : UInt32} {change : StatChange}
    (h : a.apply amount turns s = .ok (change, s')) : s.Later 0 s' := by
  refine ⟨Adjustment.alike_of_apply h, ?_⟩
  obtain ⟨base, added, -, hreplace⟩ := a.apply_eq_replace amount turns s
  rw [hreplace] at h
  obtain ⟨rfl, -, -⟩ := Stat.replace_eq_ok h
  exact List.prefix_append _ _

end Stat.Later

theorem Stat.modifiers_of_tick {s s' : Stat} {change : Option StatChange}
    (h : s.tick = .ok (change, s')) : s'.modifiers = Modifier.later s.modifiers := by
  unfold tick at h
  split at h
  · rename_i hnone
    cases h
    rw [List.isEmpty_iff.mp hnone]
    rfl
  · obtain ⟨old, -, h⟩ := Except.bind_eq_ok_iff.mp h
    obtain ⟨aged, haged, h⟩ := Except.bind_eq_ok_iff.mp h
    rw [Modifier.aged_eq haged] at h
    dsimp only at h
    split at h
    · cases h
      rfl
    · obtain ⟨new, -, h⟩ := Except.bind_eq_ok_iff.mp h
      cases h
      rfl

theorem Stat.Later.of_tick {s s' : Stat} {change : Option StatChange}
    (h : s.tick = .ok (change, s')) : s.Later 1 s' :=
  ⟨(Stat.alike_of_tick h).1, by rw [Stat.modifiers_of_tick h]; exact List.prefix_rfl⟩

/-- Every stat of the first block is there `n` ends of a turn later, in
its place. -/
def StatBlock.Later (n : Nat) (b b' : StatBlock) : Prop :=
  ∀ (i : Nat) (s : Stat), b.stats[i]? = some s → ∃ s', b'.stats[i]? = some s' ∧ s.Later n s'

/-- No modifier is left without a turn. -/
def StatBlock.Timely (b : StatBlock) : Prop := ∀ s ∈ b.stats, ∀ m ∈ s.modifiers, 0 < m.turns

namespace StatBlock

variable {n m : Nat} {b b' b'' : StatBlock} {name : String} {s s' : Stat}
  {changes : List (String × StatChange)}

theorem Later.refl (b : StatBlock) : b.Later 0 b := fun _ s hs => ⟨s, hs, .refl s⟩

theorem Later.trans (h : b.Later n b') (h' : b'.Later m b'') : b.Later (n + m) b'' := by
  intro i s hs
  obtain ⟨s', hs', hlater⟩ := h i s hs
  obtain ⟨s'', hs'', hlater'⟩ := h' i s' hs'
  exact ⟨s'', hs'', hlater.trans hlater'⟩

theorem Later.put (h : b.get? name = some s) (hs : s.Later 0 s') : b.Later 0 (b.put name s') := by
  obtain ⟨i, -, hget, -, hput⟩ := put_eq_set h
  intro j t ht
  rw [hput, List.getElem?_set]
  split
  · rename_i hij
    subst hij
    cases hget.symm.trans ht
    exact ⟨s', by simp [(List.getElem?_eq_some_iff.mp hget).1], hs⟩
  · exact ⟨t, ht, .refl t⟩

theorem Later.of_tick (h : b.tick = .ok (changes, b')) : b.Later 1 b' := by
  have hall := forall₂_of_tick h
  intro i s hs
  obtain ⟨hlen, rfl⟩ := List.getElem?_eq_some_iff.mp hs
  have hlen' : i < b'.stats.length := hall.length_eq ▸ hlen
  obtain ⟨change, hs', -⟩ := hall.get hlen hlen'
  exact ⟨b'.stats[i], List.getElem?_eq_getElem hlen', .of_tick hs'⟩

theorem Timely.put {a : Adjustment} {amount : Points} {turns : UInt32} {change : StatChange}
    (hb : b.Timely) (h : b.get? name = some s) (hs : a.apply amount turns s = .ok (change, s')) :
    (b.put name s').Timely := by
  obtain ⟨i, -, hget, -, hput⟩ := put_eq_set h
  obtain ⟨base, added, hadded, hreplace⟩ := a.apply_eq_replace amount turns s
  rw [hreplace] at hs
  obtain ⟨rfl, -, -⟩ := Stat.replace_eq_ok hs
  intro t ht m hm
  rw [hput] at ht
  rcases List.mem_or_eq_of_mem_set ht with ht | rfl
  · exact hb t ht m hm
  · rcases List.mem_append.mp hm with hm | hm
    · exact hb s (List.mem_of_getElem? hget) m hm
    · exact hadded m hm

theorem Timely.of_tick (h : b.tick = .ok (changes, b')) : b'.Timely := by
  have hall := forall₂_of_tick h
  intro s' hs' m hm
  obtain ⟨i, hlen', rfl⟩ := List.getElem_of_mem hs'
  have hlen : i < b.stats.length := hall.length_eq ▸ hlen'
  obtain ⟨change, hs, -⟩ := hall.get hlen hlen'
  have hmodifiers : b'.stats[i].modifiers = Modifier.later b.stats[i].modifiers :=
    Stat.modifiers_of_tick hs
  rw [hmodifiers] at hm
  exact Modifier.turns_pos_of_mem_later hm

end StatBlock

/-! ## §2 Sheets -/

namespace Sheet

variable {turns turns' : Bearer → Nat} {V V' V'' : Sheet} {b : Bearer} {block block' : StatBlock}

/-- Every bearer of the first sheet is in the second one, as many ends of
a turn later as `turns` says. -/
def Later (turns : Bearer → Nat) (V V' : Sheet) : Prop :=
  ∀ b block, V b = .ok block → ∃ block', V' b = .ok block' ∧ block.Later (turns b) block'

/-- No modifier is left without a turn. -/
def Timely (V : Sheet) : Prop := ∀ b block, V b = .ok block → block.Timely

theorem Later.refl (V : Sheet) : V.Later (fun _ => 0) V :=
  fun _ block hb => ⟨block, hb, .refl block⟩

theorem Later.trans (h : V.Later turns V') (h' : V'.Later turns' V'') :
    V.Later (fun b => turns b + turns' b) V'' := by
  intro b block hb
  obtain ⟨block', hb', hlater⟩ := h b block hb
  obtain ⟨block'', hb'', hlater'⟩ := h' b block' hb'
  exact ⟨block'', hb'', hlater.trans hlater'⟩

/-- Only the counts of bearers that there are matter. -/
theorem Later.congr (h : V.Later turns V')
    (hturns : ∀ b block, V b = .ok block → turns b = turns' b) : V.Later turns' V' :=
  fun b block hb => hturns b block hb ▸ h b block hb

theorem Later.of_extends (h : V.Extends V') : V.Later (fun _ => 0) V' :=
  fun b block hb => ⟨block, h.kept b block hb, .refl block⟩

theorem Later.put {n : Nat} (hb : V b = .ok block) (h : block.Later n block') :
    V.Later (fun b' => if b = b' then n else 0) (V.put b block') := by
  intro b' block₁ hb'
  by_cases hbb : b = b'
  · subst hbb
    cases hb.symm.trans hb'
    exact ⟨block', put_self .., by simpa using h⟩
  · exact ⟨block₁, by rw [put_of_ne _ _ fun heq => hbb heq.symm, hb'],
      by simpa [hbb] using .refl block₁⟩

theorem Timely.put (hV : V.Timely) (h : block.Timely) : (V.put b block).Timely := by
  intro b' block₁ hb'
  by_cases hbb : b' = b
  · subst hbb
    rw [put_self] at hb'
    cases hb'
    exact h
  · rw [put_of_ne _ _ hbb] at hb'
    exact hV b' block₁ hb'

theorem Timely.of_extends (hV : V.Timely) (h : V.Extends V') : V'.Timely := by
  intro b block hb
  rcases h.fresh b block hb with hb | hnew
  · exact hV b block hb
  · intro s hs m hm
    rw [hnew s hs] at hm
    cases hm

/-- With a count of turns for each state of the books, that the sheet is
so much later is kept by all steps but ageing. -/
theorem ledger_later {ι : Type} (turns : ι → Bearer → Nat) (V : Sheet) :
    Ledger (fun i B => V.Later (turns i) B.stats) fun _ _ _ i => i where
  extend h hV := by simpa using h.trans (.of_extends hV)
  draw h _ := h
  call _ _ _ h := h
  write h hblock hstat hwrite := by
    simpa using h.trans (.put hblock (.put hstat (.of_apply hwrite)))
  swap h := h
  tell h := h

theorem ledger_timely : Ledger (fun (_ : Unit) B => B.stats.Timely) fun _ _ _ i => i where
  extend h hV := h.of_extends hV
  draw h _ := h
  call _ _ _ h := h
  write h hblock hstat hwrite := h.put ((h _ _ hblock).put hstat hwrite)
  swap h := h
  tell h := h

end Sheet

/-- **No modifier is left without a turn** in a duel that is reached. -/
theorem Reached.timely {log : List Action} {d : Duel} (h : Reached log d) :
    Sheet.Timely d.stats := by
  refine Reached.books (P := fun V _ => V.Timely) Sheet.ledger_timely ?_ ?_ h
  · intro i B b block changes block' hB hblock htick
    exact hB.put (.of_tick htick)
  · intro catalog seed p q b block hb s hs m hm
    rw [Duel.modifiers_blank hb s hs] at hm
    cases hm

/-! ## §3 Turns -/

namespace Duel

variable {d d' : Duel} {p : PlayerId}

/-- The player whose turns the modifiers of a bearer count. -/
def holder? (d : Duel) : Bearer → Option PlayerId
  | .player p => some p
  | .card id => (d.card id).toOption.map Card.owner

/-- At the end of a turn of a player each bearer is aged once if the
player holds it, and not at all otherwise, wherever the cards lie. -/
theorem count_aged {st : Seat} {b : Bearer} {block : StatBlock} (hφ : d.fixture.Sound)
    (hfix : d'.fixture = d.fixture) (hl : d'.Laid) (hst : d'.seat p = .ok st)
    (hb : d.stats b = .ok block) :
    (Bearer.player p :: (st.zones.flatMap (·.cards)).map Bearer.card).count b =
      if d.holder? b = some p then 1 else 0 := by
  cases b with
  | player q =>
    have hcards : ((st.zones.flatMap (·.cards)).map Bearer.card).count (.player q) = 0 := by
      simp [List.count_eq_zero]
    rw [List.count_cons, hcards]
    by_cases hq : q = p
    · simp [holder?, hq]
    · have hne : p ≠ q := fun h => hq h.symm
      simp [holder?, hq, hne]
  | card id =>
    cases hc : d.card id with
    | error e => simp [stats, hc, Except.map] at hb
    | ok c =>
      obtain ⟨hm, rfl⟩ := seat_eq_ok hst
      have hperm : st.held.Perm (d.fixture.owned st.id) := hfix ▸ hl.dealt st hm
      have hcount : st.held.count id = (d.fixture.owned st.id).count id := hperm.count_eq id
      have hmem : id ∈ d.fixture.owned st.id ↔ c.owner = st.id := by
        have ht : d.fixture.tag? id = some c.tag := tag?_eq_some_iff.mpr ⟨c, hc, rfl⟩
        rw [hφ.mem_owned_iff]
        simp [ht, Card.tag]
      have hinj : Function.Injective Bearer.card := fun _ _ h => Bearer.card.inj h
      rw [List.count_cons_of_ne (by simp), List.count_map_of_injective _ _ hinj]
      show st.held.count id = _
      rw [hcount, (hφ.owned_nodup st.id).count]
      simp [holder?, hc, hmem, Except.toOption]

/-- **The end of a turn ages what the player holds once.** The index of
the invariant is the list of the bearers that have been aged, and the
sheet is one turn later for these, whatever the watchers do in between. -/
theorem wp_endTurn_later (hd : d.Sound) {limit rounds level : Nat} {journal : List Event} :
    wp (.books fun _ => True) (endTurn (dispatch limit rounds))
      (fun _ s => Sheet.Later (fun b => if d.holder? b = some d.current then 1 else 0)
        d.stats s.duel.stats) ⟨d, journal, level⟩ := by
  have L := Sheet.ledger_later (fun (past : List Bearer) b => past.count b) d.stats
  have U := L.upkeep (R := fun _ => True) (fun _ => trivial) hd.fixture limit
  have hfire := U.keeps_dispatch rounds
  have hs : Standing d.fixture (fun s => Sheet.Later (fun b => [].count b) d.stats s.books.stats)
      ⟨d, journal, level⟩ := ⟨rfl, hd.laid, .refl d.stats⟩
  simp only [endTurn, expire, wp_bind, wp_duel, wp_pure]
  refine wp_mono (U.wp_walk hfire hs hd.fixture.current) fun _ s₁ hs₁ => ?_
  obtain ⟨st, hst⟩ := hs₁.seat hd.fixture.current
  rw [wp_find_ok hst]
  have hages := U.wp_expireAll (fun past b => b :: past) hfire
    (fun {past s b block} hs _ hblock => ?_) (fun b hb => U.knows_of_mem_aged hs₁ hst hb) hs₁
  · refine wp_mono hages fun _ s₂ hs₂ => ?_
    refine hs₂.holds.congr fun b block hb => ?_
    rw [List.foldl_flip_cons_eq_append, List.append_nil, List.map_id', List.count_reverse]
    exact count_aged hd.fixture hs₁.fixture hs₁.laid hst hb
  · split
    · rename_i changes block' htick
      rw [owedAll_const]
      show Sheet.Later _ d.stats (s.duel.putStats b block').stats
      rw [Duel.stats_putStats_eq hblock]
      have hlater := hs.holds.trans (.put hblock (.of_tick htick))
      refine hlater.congr fun b' _ _ => ?_
      simp only [List.count_cons, beq_iff_eq]
    · trivial

namespace Sound

variable (hd : d.Sound)
include hd

/-- **Nothing but the end of a turn ages a modifier**, and nothing removes
one, whether the action is done or refused. -/
theorem later_of_perform {limit : Nat} {a : Action} (ha : a ≠ .endTurn)
    (h : (d.perform limit a).state? = some d') : Sheet.Later (fun _ => 0) d.stats d'.stats := by
  have L := Sheet.ledger_later (fun (_ : Unit) _ => 0) d.stats
  have hrun : wp (.books fun B => Sheet.Later (fun _ => 0) d.stats B.stats)
      (a.run (dispatch limit (limit + 1)))
      (fun _ s => Sheet.Later (fun _ => 0) d.stats s.duel.stats) ⟨d, [], 0⟩ :=
    L.wp_run (i := ()) id hd (fun hend => absurd hend ha) (.refl d.stats)
  obtain ⟨s, rfl, ⟨_, hs⟩ | ⟨_, hs⟩⟩ := state_of_wp hrun h
  · exact hs
  · exact hs

theorem later_of_endTurn {limit : Nat} {reply : Reply}
    (h : d.perform limit .endTurn = .done reply d') :
    Sheet.Later (fun b => if d.holder? b = some d.current then 1 else 0) d.stats d'.stats := by
  have hrun : wp (.books fun _ => True) (Action.endTurn.run (dispatch limit (limit + 1)))
      (fun _ s => Sheet.Later (fun b => if d.holder? b = some d.current then 1 else 0)
        d.stats s.duel.stats) ⟨d, [], 0⟩ := wp_map.mpr (wp_endTurn_later hd)
  have hrun := perform_of_wp hrun
  rw [h] at hrun
  obtain ⟨s, rfl, hs⟩ := hrun
  exact hs

end Sound

/-! ## §4 Runs -/

/-- Actions lead from the first duel to the second while as many turns of
the player end. Actions may be refused on the way, but for ends of turns. -/
inductive Passes (p : PlayerId) : Nat → Duel → Duel → Prop where
  | refl (d : Duel) : Passes p 0 d d
  | other {n : Nat} {d d₁ d₂ : Duel} {limit : Nat} {a : Action} (before : Passes p n d d₁)
      (ha : a ≠ .endTurn) (h : (d₁.perform limit a).state? = some d₂) : Passes p n d d₂
  | turn {n : Nat} {d d₁ d₂ : Duel} {limit : Nat} {reply : Reply} (before : Passes p n d d₁)
      (h : d₁.perform limit .endTurn = .done reply d₂) :
      Passes p (n + if d₁.current = p then 1 else 0) d d₂

theorem holder?_eq_some_of_grows {b : Bearer} (h : d.fixture.cards <+: d'.fixture.cards)
    (hb : d.holder? b = some p) : d'.holder? b = some p := by
  cases b with
  | player q => exact hb
  | card id =>
    cases hc : d.card id with
    | error e => simp [holder?, hc, Except.toOption] at hb
    | ok c =>
      have ht : d.fixture.tag? id = some c.tag := tag?_eq_some_iff.mpr ⟨c, hc, rfl⟩
      have ht' : d'.fixture.tag? id = some c.tag := h.find?_eq_some ht
      obtain ⟨c', hc', htag⟩ := tag?_eq_some_iff.mp ht'
      have howner : c'.owner = c.owner := congrArg CardTag.owner htag
      simpa [holder?, hc, hc', Except.toOption, howner] using hb

theorem Passes.later {n : Nat} {b : Bearer} {block : StatBlock} (h : Passes p n d d') (hd : d.Sound)
    (hb : d.holder? b = some p) (hblock : d.stats b = .ok block) :
    d'.Sound ∧ d'.holder? b = some p ∧ ∃ block', d'.stats b = .ok block' ∧ block.Later n block' := by
  induction h with
  | refl d => exact ⟨hd, hb, block, hblock, .refl block⟩
  | other before ha h ih =>
    obtain ⟨hd₁, hb₁, block₁, hblock₁, hlater⟩ := ih hd hb hblock
    obtain ⟨hd₂, hgrows⟩ := hd₁.sound_of_state h
    obtain ⟨block₂, hblock₂, hlater'⟩ := hd₁.later_of_perform ha h b block₁ hblock₁
    exact ⟨hd₂, holder?_eq_some_of_grows hgrows hb₁, block₂, hblock₂, hlater.trans hlater'⟩
  | turn before h ih =>
    obtain ⟨hd₁, hb₁, block₁, hblock₁, hlater⟩ := ih hd hb hblock
    obtain ⟨hd₂, hgrows⟩ := hd₁.sound_of_state (by rw [h]; rfl)
    obtain ⟨block₂, hblock₂, hlater'⟩ := hd₁.later_of_endTurn h b block₁ hblock₁
    refine ⟨hd₂, holder?_eq_some_of_grows hgrows hb₁, block₂, hblock₂, ?_⟩
    have hlater' := hlater.trans hlater'
    simpa only [hb₁, Option.some.injEq, eq_comm] using hlater'

end Duel

/-- **Modifiers last for the turns of their holder.** In a duel that is
reached no modifier is without a turn left. An action that is not the end
of a turn, done or refused, leaves every list of modifiers as the
beginning of a list; the end of a turn leaves the lists one turn later
for the player whose turn it is and for the cards that player owns, and
as they are for all others. So over a run in which no end of a turn is
refused each list is as many turns later as turns of the holder ended. -/
theorem modifiers_last {log : List Action} {d : Duel} (h : Reached log d) :
    (∀ b block, d.stats b = .ok block → ∀ s ∈ block.stats, ∀ m ∈ s.modifiers, 0 < m.turns) ∧
    (∀ limit a d', a ≠ .endTurn → (d.perform limit a).state? = some d' →
      Sheet.Later (fun _ => 0) d.stats d'.stats) ∧
    (∀ limit reply d', d.perform limit .endTurn = .done reply d' →
      Sheet.Later (fun b => if d.holder? b = some d.current then 1 else 0) d.stats d'.stats) ∧
    (∀ p n d', Duel.Passes p n d d' → ∀ b block, d.holder? b = some p → d.stats b = .ok block →
      ∃ block', d'.stats b = .ok block' ∧ block.Later n block') := by
  refine ⟨fun b block hb => h.timely b block hb,
    fun limit a d' ha hd' => h.sound.later_of_perform ha hd',
    fun limit reply d' hd' => h.sound.later_of_endTurn hd', ?_⟩
  intro p n d' hpasses b block hholder hb
  exact (hpasses.later h.sound hholder hb).2.2

/-- A creature that gives its owner mana for two turns. -/
def spring : CardSpec where
  id := ⟨3⟩
  name := "Spring"
  cardType := Starter.creature.id
  abilities :=
    [.activated
      { effect := .player ⟨"Mana", .increase, .constant 2, 2⟩
        target := .player .acting [] }]

/-- The mana of a spring has a turn less after the turn of its owner. -/
theorem spring_after_turn :
    ∃ log d d' block s, Reached log d ∧ d.stats (.player ⟨1⟩) = .ok block ∧
      block.stats[1]? = some s ∧ s.modifiers = [⟨2, 2⟩] ∧
      d.perform 1 .endTurn = .done (.count 0) d' ∧
      ∃ block' s', d'.stats (.player ⟨1⟩) = .ok block' ∧ block'.stats[1]? = some s' ∧
        [⟨2, 1⟩] <+: s'.modifiers := by
  obtain ⟨d, h, hcurrent, block, -, hblock, s, hs, hmodifiers, d', -, hdone⟩ :=
    @Reached.exists_of_performAll 1 (Starter.catalog { extraCards := [spring] }) 7 ⟨⟨1⟩, [⟨3⟩]⟩
      ⟨⟨2⟩, []⟩ [.activate ⟨1⟩ ⟨1⟩ 0 {}]
      (fun d => d.current = ⟨1⟩ ∧ ∃ block ∈ (d.stats (.player ⟨1⟩)).toOption,
        d.stats (.player ⟨1⟩) = .ok block ∧ ∃ s ∈ block.stats[1]?, s.modifiers = [⟨2, 2⟩] ∧
        ∃ d' ∈ (d.perform 1 .endTurn).state?, d.perform 1 .endTurn = .done (.count 0) d')
      (by decide +kernel)
  refine ⟨_, d, d', block, s, h, hblock, hs, hmodifiers, hdone, ?_⟩
  obtain ⟨block', hblock', hlater⟩ := (modifiers_last h).2.2.1 _ _ _ hdone _ _ hblock
  obtain ⟨s', hs', hlater⟩ := hlater 1 s hs
  refine ⟨block', s', hblock', hs', ?_⟩
  have hholder : d.holder? (.player ⟨1⟩) = some d.current := congrArg some hcurrent.symm
  have hlasts := hlater.lasts
  simp only [if_pos hholder, hmodifiers] at hlasts
  exact hlasts

end CardDuel
