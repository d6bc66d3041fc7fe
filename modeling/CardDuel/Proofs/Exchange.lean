/-
CardDuel.Proofs.Exchange — cards that fight strike at the same time.

In a fight two cards of different players take their attacks off each
other's life. The blows are written one after the other, but the attacks
are read before, and the cards are not the same; so the duel that the
watchers are told of is the one in which both cards are struck at once,
and it does not matter which of them attacks. The bases of the two life
stats are all that changes. A fight with a card whose life or attack
cannot be read meets a fault.

  §1 Blows  — one blow is one update of a card.
  §2 Fights — two blows are one update of the duel.
-/
import CardDuel.Proofs.CardTargets

namespace CardDuel

open Engine Play

/-! ## §1 Blows -/

/-- The block once an amount has been taken off the base of the stat that
a name reaches. -/
def StatBlock.struck (b : StatBlock) (name : String) (amount : Points) : StatBlock :=
  match b.get? name with
  | some s => b.put name { s with base := s.base.add amount.neg }
  | none => b

/-- The card once it has been struck. -/
def Card.struck (c : Card) (name : String) (amount : Points) : Card :=
  { c with stats := c.stats.struck name amount }

namespace Duel

variable {d d' : Duel} {id id' : InstanceId} {c : Card} {stat : String} {amount : Points}

/-- How the effective value of a stat differs between two duels; `none` if
one of them has no such value. -/
def change? (d d' : Duel) (b : Bearer) (stat : String) : Option StatChange :=
  match d.statValue? b stat, d'.statValue? b stat with
  | .ok (some old), .ok (some new) => some ⟨old, new⟩
  | _, _ => none

theorem statValue?_of_effective {b : Bearer} {block : StatBlock} {s : Stat} {value : Points}
    (hb : d.stats b = .ok block) (hs : block.get? stat = some s) (hvalue : s.effective = .ok value) :
    d.statValue? b stat = .ok (some value) := by
  simp [statValue?, hb, StatBlock.value?, hs, hvalue, Except.map]

theorem statValue?_congr {b : Bearer} (h : d'.stats b = d.stats b) :
    d'.statValue? b stat = d.statValue? b stat := by
  rw [statValue?, statValue?, h]

theorem Readable.congr {b : Bearer} (hread : d.Readable b stat) (h : d'.stats b = d.stats b) :
    d'.Readable b stat := by
  rwa [Readable, h]

/-- The duel once a card has been struck. -/
def struck (d : Duel) (id : InstanceId) (stat : String) (amount : Points) : Duel :=
  d.modifyCard id (·.struck stat amount)

theorem ids_struck : (d.struck id stat amount).cards.map Card.id = d.cards.map Card.id := by
  simp only [struck, modifyCard, List.map_map]
  refine List.map_congr_left fun c _ => ?_
  simp only [Function.comp_apply]
  split <;> rfl

theorem card_struck_of_ne (hne : id' ≠ id) : (d.struck id stat amount).card id' = d.card id' := by
  rw [struck, card_modifyCard (f := (·.struck stat amount)) (fun _ => rfl), if_neg hne]

theorem stats_struck (hc : d.card id = .ok c) (b : Bearer) :
    (d.struck id stat amount).stats b =
      if b = .card id then .ok (c.stats.struck stat amount) else d.stats b := by
  cases b with
  | player p => rfl
  | card id' =>
    simp only [stats, struck, card_modifyCard (f := (·.struck stat amount)) fun _ => rfl,
      Bearer.card.injEq]
    split
    · rw [hc]
      rfl
    · rfl

/-- A card is struck at its own number only. -/
theorem putStats_eq_struck (hids : (d.cards.map Card.id).Nodup) (hc : d.card id = .ok c) :
    d.putStats (.card id) (c.stats.struck stat amount) = d.struck id stat amount := by
  obtain ⟨hmem, hid⟩ := card_eq_ok hc
  have hcards : d.cards.map (fun c' => if c'.id = id then
        { c' with stats := c.stats.struck stat amount } else c') =
      d.cards.map fun c' => if c'.id = id then c'.struck stat amount else c' := by
    refine List.map_congr_left fun c' hmem' => ?_
    split
    · rename_i hid'
      rw [List.inj_on_of_nodup_map hids hmem' hmem (hid'.trans hid.symm)]
      rfl
    · rfl
  simp only [putStats, struck, modifyCard, hcards]

/-- A card without the stat is not touched. -/
theorem struck_of_get?_eq_none (hids : (d.cards.map Card.id).Nodup) (hc : d.card id = .ok c)
    (hs : c.stats.get? stat = none) : d.struck id stat amount = d := by
  obtain ⟨hmem, hid⟩ := card_eq_ok hc
  have hcards : (d.cards.map fun c' => if c'.id = id then c'.struck stat amount else c') =
      d.cards := by
    conv_rhs => rw [← List.map_id d.cards]
    refine List.map_congr_left fun c' hmem' => ?_
    split
    · rename_i hid'
      rw [List.inj_on_of_nodup_map hids hmem' hmem (hid'.trans hid.symm), Card.struck,
        StatBlock.struck, hs]
      rfl
    · rfl
  simp only [struck, modifyCard, hcards]

end Duel

namespace Play

variable {s : Scene} {id : InstanceId} {c : Card} {stat : String} {amount : Points}

/-- **A blow is one update of a card.** It is entered in the journal if
the card has the stat. -/
theorem damage_eq (hids : (s.duel.cards.map Card.id).Nodup) (hc : s.duel.card id = .ok c)
    (hread : s.duel.Readable (.card id) stat) :
    damage (.card id) stat amount s =
      .done (s.duel.change? (s.duel.struck id stat amount) (.card id) stat)
        { s with
          duel := s.duel.struck id stat amount
          journal := ((s.duel.change? (s.duel.struck id stat amount) (.card id) stat).toList.map
            (.wrote (.card id) stat)) ++ s.journal } := by
  have hstats : s.duel.stats (.card id) = .ok c.stats := Duel.stats_card hc
  have hfind : find (·.stats (.card id)) s = .done c.stats s := find_of_ok hstats
  rw [damage, writeStat, bind_of_done hfind]
  cases hs : c.stats.get? stat with
  | none =>
    have hchange : s.duel.change? s.duel (.card id) stat = none := by
      simp [Duel.change?, Duel.statValue?, hstats, StatBlock.value?, hs]
    rw [Duel.struck_of_get?_eq_none hids hc hs, hchange]
    rfl
  | some stat₀ =>
    let stat₁ : Stat := { stat₀ with base := stat₀.base.add amount.neg }
    have hbounds : stat₀.low ≤ stat₀.high := hread c.stats stat₀ hstats hs
    obtain ⟨old, hold, -⟩ := Stat.effective_of_ordered hbounds
    obtain ⟨new, hnew, -⟩ := Stat.effective_of_ordered (s := stat₁) hbounds
    have hwrite : stat₀.addBase amount.neg = .ok (⟨old, new⟩, stat₁) := by
      rw [Stat.addBase, Stat.setBase, Stat.replace, hold, hnew]
      rfl
    have hstruck : c.stats.struck stat amount = c.stats.put stat stat₁ := by
      rw [StatBlock.struck, hs]
    have hput : s.duel.putStats (.card id) (c.stats.put stat stat₁) = s.duel.struck id stat amount := by
      rw [← hstruck]
      exact Duel.putStats_eq_struck hids hc
    have hbefore : s.duel.statValue? (.card id) stat = .ok (some old) :=
      Duel.statValue?_of_effective hstats hs hold
    have hafter : (s.duel.struck id stat amount).statValue? (.card id) stat = .ok (some new) := by
      have hblock : (s.duel.struck id stat amount).stats (.card id) =
          .ok (c.stats.put stat stat₁) := by
        rw [Duel.stats_struck hc, if_pos rfl, hstruck]
      have hname : stat₁.name = stat₀.name := rfl
      refine Duel.statValue?_of_effective hblock ?_ hnew
      rw [StatBlock.get?_put hs hname, if_pos rfl]
    have hchange : s.duel.change? (s.duel.struck id stat amount) (.card id) stat =
        some ⟨old, new⟩ := by
      rw [Duel.change?, hbefore, hafter]
    rw [hchange, ← hput]
    show (sound (stat₀.addBase amount.neg) >>= _) s = _
    rw [hwrite]
    rfl

/-- A blow at a stat that cannot be read has no result. -/
theorem damage_of_not_readable (hc : s.duel.card id = .ok c)
    (hread : ¬ s.duel.Readable (.card id) stat) :
    damage (.card id) stat amount s = .fault .boundsOutOfOrder := by
  have hstats : s.duel.stats (.card id) = .ok c.stats := Duel.stats_card hc
  simp only [Duel.Readable, not_forall] at hread
  obtain ⟨block, stat₀, hblock, hs, hbounds⟩ := hread
  cases hstats.symm.trans hblock
  have hnone : stat₀.total.within? stat₀.low stat₀.high = none :=
    Points.within?_eq_none_iff.mpr (Int.not_le.mp hbounds)
  have hold : stat₀.effective = .error .boundsOutOfOrder := by rw [Stat.effective, hnone]
  have hwrite : stat₀.addBase amount.neg = .error .boundsOutOfOrder := by
    rw [Stat.addBase, Stat.setBase, Stat.replace, hold]
    rfl
  have hfind : find (·.stats (.card id)) s = .done c.stats s := find_of_ok hstats
  rw [damage, writeStat, bind_of_done hfind, hs]
  show (sound (stat₀.addBase amount.neg) >>= _) s = _
  rw [hwrite]
  rfl

end Play

/-! ## §2 Fights -/

namespace Duel

variable {d : Duel} {a b : InstanceId} {p q : PlayerId}

/-- The effective attack of a card. A card without the stat has none. -/
def attack (d : Duel) (card : InstanceId) : Points :=
  match d.statValue? (.card card) d.catalog.rules.attackStat with
  | .ok (some value) => value
  | _ => 0

/-- The duel once two cards have struck each other, with the attacks that
they had before. -/
def exchanged (d : Duel) (a b : InstanceId) : Duel :=
  { d with
    cards := d.cards.map fun c =>
      if c.id = a then c.struck d.catalog.rules.lifeStat (d.attack b)
      else if c.id = b then c.struck d.catalog.rules.lifeStat (d.attack a)
      else c }

/-- The life and the attack of a card can be read. -/
structure Fights (d : Duel) (card : InstanceId) : Prop where
  life : d.Readable (.card card) d.catalog.rules.lifeStat
  attack : d.Readable (.card card) d.catalog.rules.attackStat

theorem exchanged_comm (hne : a ≠ b) : d.exchanged a b = d.exchanged b a := by
  have hcards : (d.cards.map fun c =>
        if c.id = a then c.struck d.catalog.rules.lifeStat (d.attack b)
        else if c.id = b then c.struck d.catalog.rules.lifeStat (d.attack a) else c) =
      d.cards.map fun c =>
        if c.id = b then c.struck d.catalog.rules.lifeStat (d.attack a)
        else if c.id = a then c.struck d.catalog.rules.lifeStat (d.attack b) else c := by
    refine List.map_congr_left fun c _ => ?_
    by_cases ha : c.id = a
    · simp [ha, hne]
    · simp [ha]
  simp only [exchanged, hcards]

/-- Two blows at different cards come to both at once. -/
theorem struck_struck (hne : a ≠ b) :
    (d.struck b d.catalog.rules.lifeStat (d.attack a)).struck a d.catalog.rules.lifeStat
      (d.attack b) = d.exchanged a b := by
  simp only [struck, modifyCard, exchanged, List.map_map, Duel.mk.injEq, true_and, and_true]
  refine List.map_congr_left fun c _ => ?_
  by_cases ha : c.id = a
  · simp [ha, hne]
  · by_cases hb : c.id = b
    · have hid : (c.struck d.catalog.rules.lifeStat (d.attack a)).id = b := hb
      simp [hb, hid, hne.symm]
    · simp [ha, hb]

theorem opponent_symm (hd : d.Sound) (h : d.opponent p = .ok q) : d.opponent q = .ok p := by
  have hne : d.first.id ≠ d.second.id := hd.fixture.distinct
  rcases opponent_eq_ok_iff.mp h with ⟨rfl, rfl⟩ | ⟨-, rfl, rfl⟩
  · exact opponent_eq_ok_iff.mpr (.inr ⟨hne, rfl, rfl⟩)
  · exact opponent_eq_ok_iff.mpr (.inl ⟨rfl, rfl⟩)

/-- What lies in a zone is a card of the duel. -/
theorem Sound.exists_card (hd : d.Sound) {place : ZoneId} (h : d.Lies p a place) :
    ∃ c, d.card a = .ok c := by
  obtain ⟨z, hz, hin⟩ := h
  obtain ⟨t, ht, -⟩ := hd.laid.tag?_of_mem hd.fixture hz hin
  obtain ⟨c, hc, -⟩ := tag?_eq_some_iff.mp ht
  exact ⟨c, hc⟩

end Duel

namespace Play

variable {s : Scene} {card : InstanceId} {c : Card} {p : PlayerId}

theorem attackOf_eq (hc : s.duel.card card = .ok c)
    (hread : s.duel.Readable (.card card) s.duel.catalog.rules.attackStat) :
    attackOf card s = .done (s.duel.attack card) s := by
  have hstats : s.duel.stats (.card card) = .ok c.stats := Duel.stats_card hc
  have hfind : find (·.card card) s = .done c s := find_of_ok hc
  obtain ⟨value, hvalue⟩ := Duel.statValue?_of_readable hread
  have hread : c.stats.value? s.duel.catalog.rules.attackStat = .ok value := by
    rw [Duel.statValue?, hstats] at hvalue
    exact hvalue
  rw [attackOf, bind_of_done hfind, Duel.attack, hvalue]
  show (sound (c.stats.value? s.duel.catalog.rules.attackStat) >>= _) s = _
  rw [hread]
  cases value <;> rfl

theorem attackOf_of_not_readable (hc : s.duel.card card = .ok c)
    (hread : ¬ s.duel.Readable (.card card) s.duel.catalog.rules.attackStat) :
    attackOf card s = .fault .boundsOutOfOrder := by
  have hstats : s.duel.stats (.card card) = .ok c.stats := Duel.stats_card hc
  have hfind : find (·.card card) s = .done c s := find_of_ok hc
  have hread : c.stats.value? s.duel.catalog.rules.attackStat = .error .boundsOutOfOrder := by
    have hvalue := Duel.statValue?_of_not_readable hread
    rw [Duel.statValue?, hstats] at hvalue
    exact hvalue
  rw [attackOf, bind_of_done hfind]
  show (sound (c.stats.value? s.duel.catalog.rules.attackStat) >>= _) s = _
  rw [hread]
  rfl

theorem requireOnBoard_eq (h : s.duel.Lies p card s.duel.catalog.rules.board) :
    requireOnBoard p card s = .done () s := by
  obtain ⟨z, hz, hin⟩ := h
  have hfind : find (·.zone p s.duel.catalog.rules.board) s = .done z s := find_of_ok hz
  have hcontains : z.contains card = true := by simpa [Zone.contains] using hin
  rw [requireOnBoard, bind_duel, bind_of_done hfind, if_pos hcontains]
  rfl

theorem notifyBlow_of_unwatched (fire : Dispatch) {bearer : Bearer} {life : String}
    (h : s.duel.watchers.on bearer life = []) (blow : Option StatChange) :
    ∃ journal, notifyBlow fire bearer life blow s = .done () { s with journal := journal } := by
  cases blow with
  | none => exact ⟨s.journal, rfl⟩
  | some change =>
    refine ⟨.notified bearer life change :: s.journal, ?_⟩
    rw [notifyBlow, notify]
    show ((s.duel.watchers.on bearer life).forM (runWatcher fire life change) : Engine Unit) _ = _
    rw [h]
    rfl

variable {q : PlayerId} {a b : InstanceId}

/-- What a fight comes to before the first watcher is told. -/
theorem attackCard_eq (hq : s.duel.opponent p = .ok q)
    (ha : s.duel.Lies p a s.duel.catalog.rules.board)
    (hb : s.duel.Lies q b s.duel.catalog.rules.board) (fire : Dispatch) :
    attackCard fire p a b s = (do
      let attack ← attackOf a
      let answer ← attackOf b
      let blow ← damage (.card b) s.duel.catalog.rules.lifeStat attack
      let counterblow ← damage (.card a) s.duel.catalog.rules.lifeStat answer
      notifyBlow fire (.card b) s.duel.catalog.rules.lifeStat blow
      notifyBlow fire (.card a) s.duel.catalog.rules.lifeStat counterblow : Engine Unit) s := by
  have hfind : find (·.opponent p) s = .done q s := find_of_ok hq
  rw [attackCard, bind_duel, bind_of_done hfind, bind_of_done (requireOnBoard_eq ha),
    bind_of_done (requireOnBoard_eq hb)]

/-- The blows that two cards have struck, the latest first. -/
def blows (d after : Duel) (a b : InstanceId) : List Event :=
  let life := d.catalog.rules.lifeStat
  (d.change? after (.card a) life).toList.map (.wrote (.card a) life) ++
    (d.change? after (.card b) life).toList.map (.wrote (.card b) life)

/-- **A fight is one update of the duel**, and then the watchers are told. -/
theorem attackCard_of_fights (hd : s.duel.Sound) (hq : s.duel.opponent p = .ok q)
    (ha : s.duel.Lies p a s.duel.catalog.rules.board)
    (hb : s.duel.Lies q b s.duel.catalog.rules.board) (hne : a ≠ b) (hfa : s.duel.Fights a)
    (hfb : s.duel.Fights b) (fire : Dispatch) :
    attackCard fire p a b s = (do
      notifyBlow fire (.card b) s.duel.catalog.rules.lifeStat
        (s.duel.change? (s.duel.exchanged a b) (.card b) s.duel.catalog.rules.lifeStat)
      notifyBlow fire (.card a) s.duel.catalog.rules.lifeStat
        (s.duel.change? (s.duel.exchanged a b) (.card a) s.duel.catalog.rules.lifeStat) :
      Engine Unit)
      { s with
        duel := s.duel.exchanged a b
        journal := blows s.duel (s.duel.exchanged a b) a b ++ s.journal } := by
  obtain ⟨ca, hca⟩ := hd.exists_card ha
  obtain ⟨cb, hcb⟩ := hd.exists_card hb
  have hids : (s.duel.cards.map Card.id).Nodup := s.duel.ids_fixture ▸ hd.fixture.nodup
  let life := s.duel.catalog.rules.lifeStat
  let mid := s.duel.struck b life (s.duel.attack a)
  have hmid : mid.struck a life (s.duel.attack b) = s.duel.exchanged a b := Duel.struck_struck hne
  -- The second blow finds its card as it was, and leaves the first card.
  have hca' : mid.card a = .ok ca := (Duel.card_struck_of_ne hne).trans hca
  have hstats : mid.stats (.card a) = s.duel.stats (.card a) := by
    rw [Duel.stats_struck hcb, if_neg fun h => hne (by cases h; rfl)]
  have hafter : (s.duel.exchanged a b).stats (.card b) = mid.stats (.card b) := by
    rw [← hmid, Duel.stats_struck hca', if_neg fun h => hne (by cases h; rfl)]
  have hblow : s.duel.change? mid (.card b) life =
      s.duel.change? (s.duel.exchanged a b) (.card b) life := by
    rw [Duel.change?, Duel.change?, Duel.statValue?_congr hafter]
  have hcounterblow : mid.change? (s.duel.exchanged a b) (.card a) life =
      s.duel.change? (s.duel.exchanged a b) (.card a) life := by
    rw [Duel.change?, Duel.change?, Duel.statValue?_congr hstats]
  have hfirst : damage (.card b) life (s.duel.attack a) s =
      .done (s.duel.change? (s.duel.exchanged a b) (.card b) life)
        { s with
          duel := mid
          journal := ((s.duel.change? (s.duel.exchanged a b) (.card b) life).toList.map
            (.wrote (.card b) life)) ++ s.journal } := by
    rw [damage_eq hids hcb hfb.life]
    show Outcome.done (s.duel.change? mid (.card b) life) _ = _
    rw [hblow]
  have hsecond (journal : List Event) :
      damage (.card a) life (s.duel.attack b) { s with duel := mid, journal := journal } =
      .done (s.duel.change? (s.duel.exchanged a b) (.card a) life)
        { s with
          duel := s.duel.exchanged a b
          journal := ((s.duel.change? (s.duel.exchanged a b) (.card a) life).toList.map
            (.wrote (.card a) life)) ++ journal } := by
    have hsame : mid.cards.map Card.id = s.duel.cards.map Card.id := Duel.ids_struck
    have hids' : (mid.cards.map Card.id).Nodup := hsame ▸ hids
    have hread : mid.Readable (.card a) life := hfa.life.congr hstats
    rw [damage_eq (s := { s with duel := mid, journal := journal }) hids' hca' hread]
    dsimp only
    rw [hmid, hcounterblow]
  rw [attackCard_eq hq ha hb, bind_of_done (attackOf_eq hca hfa.attack),
    bind_of_done (attackOf_eq hcb hfb.attack), bind_of_done hfirst, bind_of_done (hsecond _), blows,
    List.append_assoc]

/-- A fight with a card that cannot fight meets a fault. -/
theorem attackCard_of_not_fights (hd : s.duel.Sound) (hq : s.duel.opponent p = .ok q)
    (ha : s.duel.Lies p a s.duel.catalog.rules.board)
    (hb : s.duel.Lies q b s.duel.catalog.rules.board) (hne : a ≠ b)
    (hf : ¬ (s.duel.Fights a ∧ s.duel.Fights b)) (fire : Dispatch) :
    attackCard fire p a b s = .fault .boundsOutOfOrder := by
  obtain ⟨ca, hca⟩ := hd.exists_card ha
  obtain ⟨cb, hcb⟩ := hd.exists_card hb
  have hids : (s.duel.cards.map Card.id).Nodup := s.duel.ids_fixture ▸ hd.fixture.nodup
  rw [attackCard_eq hq ha hb]
  by_cases hattack : s.duel.Readable (.card a) s.duel.catalog.rules.attackStat
  swap
  · exact bind_of_fault (attackOf_of_not_readable hca hattack)
  rw [bind_of_done (attackOf_eq hca hattack)]
  by_cases hanswer : s.duel.Readable (.card b) s.duel.catalog.rules.attackStat
  swap
  · exact bind_of_fault (attackOf_of_not_readable hcb hanswer)
  rw [bind_of_done (attackOf_eq hcb hanswer)]
  by_cases hlife : s.duel.Readable (.card b) s.duel.catalog.rules.lifeStat
  swap
  · exact bind_of_fault (damage_of_not_readable hcb hlife)
  rw [bind_of_done (damage_eq hids hcb hlife)]
  -- All but the life of the first card can be read, so that cannot.
  have hown : ¬ s.duel.Readable (.card a) s.duel.catalog.rules.lifeStat :=
    fun hown => hf ⟨⟨hown, hattack⟩, ⟨hlife, hanswer⟩⟩
  let mid := s.duel.struck b s.duel.catalog.rules.lifeStat (s.duel.attack a)
  have hca' : mid.card a = .ok ca := (Duel.card_struck_of_ne hne).trans hca
  have hstats : s.duel.stats (.card a) = mid.stats (.card a) := by
    rw [Duel.stats_struck hcb, if_neg fun h => hne (by cases h; rfl)]
  have hown' : ¬ mid.Readable (.card a) s.duel.catalog.rules.lifeStat :=
    fun h => hown (h.congr hstats)
  exact bind_of_fault (damage_of_not_readable hca' hown')

end Play

namespace Duel

variable {d : Duel} {p q : PlayerId} {a b : InstanceId}

/-- Where nobody watches, a fight is that update and no more. -/
theorem perform_attackCard_of_unwatched (hd : d.Sound) (hq : d.opponent p = .ok q)
    (ha : d.Lies p a d.catalog.rules.board) (hb : d.Lies q b d.catalog.rules.board) (hne : a ≠ b)
    (hfa : d.Fights a) (hfb : d.Fights b)
    (hwa : d.watchers.on (.card a) d.catalog.rules.lifeStat = [])
    (hwb : d.watchers.on (.card b) d.catalog.rules.lifeStat = []) (limit : Nat) :
    d.perform limit (.attackCard p a b) = .done .nothing (d.exchanged a b) := by
  let life := d.catalog.rules.lifeStat
  let fire := dispatch limit (limit + 1)
  let after : Scene := ⟨d.exchanged a b, blows d (d.exchanged a b) a b ++ [], 0⟩
  obtain ⟨journal, hfirst⟩ := notifyBlow_of_unwatched (s := after) fire hwb
    (d.change? after.duel (.card b) life)
  obtain ⟨journal', hsecond⟩ := notifyBlow_of_unwatched (s := { after with journal := journal })
    fire hwa (d.change? after.duel (.card a) life)
  have hattack : attackCard fire p a b ⟨d, [], 0⟩ = .done () { after with journal := journal' } := by
    rw [attackCard_of_fights hd hq ha hb hne hfa hfb, bind_of_done hfirst]
    exact hsecond
  rw [perform, record, Game.record, Action.run, ← bind_pure_comp, bind_of_done hattack]
  rfl

theorem perform_attackCard_of_not_fights (hd : d.Sound) (hq : d.opponent p = .ok q)
    (ha : d.Lies p a d.catalog.rules.board) (hb : d.Lies q b d.catalog.rules.board) (hne : a ≠ b)
    (hf : ¬ (d.Fights a ∧ d.Fights b)) (limit : Nat) :
    d.perform limit (.attackCard p a b) = .fault .boundsOutOfOrder := by
  rw [perform, record, Game.record, Action.run, ← bind_pure_comp,
    bind_of_fault (attackCard_of_not_fights hd hq ha hb hne hf _)]
  rfl

end Duel

/-- **A fight is simultaneous, and the same from either side.** Two cards
of different boards whose life and attack can be read are struck at once,
each with the attack that the other had before, before any watcher is
told; the attacked card's watchers are told first. If nobody watches their
life, nothing else happens, whichever of the two attacks. If a life or an
attack cannot be read, the fight meets a fault. -/
theorem fight_simultaneous {catalog : Catalog} {d : Duel} (h : Visited catalog d) {p q : PlayerId}
    {a b : InstanceId} (hq : d.opponent p = .ok q) (ha : d.Lies p a d.catalog.rules.board)
    (hb : d.Lies q b d.catalog.rules.board) :
    let life := d.catalog.rules.lifeStat
    let after := d.exchanged a b
    a ≠ b ∧
    (d.Fights a → d.Fights b →
      (∀ fire journal depth,
        attackCard fire p a b ⟨d, journal, depth⟩ =
          (do notifyBlow fire (.card b) life (d.change? after (.card b) life)
              notifyBlow fire (.card a) life (d.change? after (.card a) life) : Engine Unit)
            ⟨after, blows d after a b ++ journal, depth⟩) ∧
      (d.watchers.on (.card a) life = [] → d.watchers.on (.card b) life = [] → ∀ limit,
        d.perform limit (.attackCard p a b) = .done .nothing after ∧
          d.perform limit (.attackCard q b a) = .done .nothing after)) ∧
    (¬ (d.Fights a ∧ d.Fights b) → ∀ limit,
      d.perform limit (.attackCard p a b) = .fault .boundsOutOfOrder ∧
        d.perform limit (.attackCard q b a) = .fault .boundsOutOfOrder) := by
  intro life after
  have hd := h.sound
  have hp := Duel.opponent_symm hd hq
  have hne : a ≠ b := by
    rintro rfl
    obtain ⟨z, hz, hin⟩ := ha
    obtain ⟨z', hz', hin'⟩ := hb
    exact Duel.opponent_ne hd hq (hd.laid.unique hd.fixture hz hin hz' hin').1
  refine ⟨hne, fun hfa hfb => ⟨fun fire journal depth => ?_, fun hwa hwb limit => ?_⟩,
    fun hf limit => ?_⟩
  · exact attackCard_of_fights (s := ⟨d, journal, depth⟩) hd hq ha hb hne hfa hfb fire
  · refine ⟨Duel.perform_attackCard_of_unwatched hd hq ha hb hne hfa hfb hwa hwb limit, ?_⟩
    rw [Duel.perform_attackCard_of_unwatched hd hp hb ha hne.symm hfb hfa hwb hwa limit,
      Duel.exchanged_comm hne.symm]
  · exact ⟨Duel.perform_attackCard_of_not_fights hd hq ha hb hne hf limit,
      Duel.perform_attackCard_of_not_fights hd hp hb ha hne.symm (fun h => hf h.symm) limit⟩

/-- Two creatures without watchers take each other's life, whichever of
them attacks. -/
theorem fight_of_grunts :
    ∃ d, Visited (Starter.catalog {}) d ∧ d.Fights ⟨1⟩ ∧ d.Fights ⟨2⟩ ∧
      (d.exchanged ⟨1⟩ ⟨2⟩).statValue? (.card ⟨1⟩) "Life" = .ok (some 0) ∧
      (d.exchanged ⟨1⟩ ⟨2⟩).statValue? (.card ⟨2⟩) "Life" = .ok (some 0) ∧
      d.perform 64 (.attackCard ⟨1⟩ ⟨1⟩ ⟨2⟩) = .done .nothing (d.exchanged ⟨1⟩ ⟨2⟩) ∧
      d.perform 64 (.attackCard ⟨2⟩ ⟨2⟩ ⟨1⟩) = .done .nothing (d.exchanged ⟨1⟩ ⟨2⟩) := by
  obtain ⟨d, h, hq, ha, hb, hwa, hwb, hlife⟩ :=
    @Visited.exists_of_performAll (Starter.catalog {}) 64 7 ⟨⟨1⟩, []⟩ ⟨⟨2⟩, []⟩
      [.create ⟨1⟩ ⟨1⟩ Starter.board, .create ⟨2⟩ ⟨1⟩ Starter.board]
      (fun d => d.opponent ⟨1⟩ = .ok ⟨2⟩ ∧ d.Lies ⟨1⟩ ⟨1⟩ d.catalog.rules.board ∧
        d.Lies ⟨2⟩ ⟨2⟩ d.catalog.rules.board ∧
        d.watchers.on (.card ⟨1⟩) d.catalog.rules.lifeStat = [] ∧
        d.watchers.on (.card ⟨2⟩) d.catalog.rules.lifeStat = [] ∧
        (d.exchanged ⟨1⟩ ⟨2⟩).statValue? (.card ⟨1⟩) "Life" = .ok (some 0) ∧
        (d.exchanged ⟨1⟩ ⟨2⟩).statValue? (.card ⟨2⟩) "Life" = .ok (some 0))
      (by decide +kernel)
  have hsturdy : d.Sturdy := h.sturdy ⟨by decide, by decide⟩
  have hfa : d.Fights ⟨1⟩ := ⟨hsturdy.readable, hsturdy.readable⟩
  have hfb : d.Fights ⟨2⟩ := ⟨hsturdy.readable, hsturdy.readable⟩
  exact ⟨d, h, hfa, hfb, hlife.1, hlife.2,
    ((fight_simultaneous h hq ha hb).2.1 hfa hfb).2 hwa hwb 64⟩

/-- Validation does not look at the bounds of stats. Where those of life
are out of order, two creatures on their boards cannot fight. -/
theorem fight_meets_fault :
    ∃ d, Visited Starter.crossedLife d ∧ d.opponent ⟨1⟩ = .ok ⟨2⟩ ∧
      d.Lies ⟨1⟩ ⟨1⟩ d.catalog.rules.board ∧ d.Lies ⟨2⟩ ⟨2⟩ d.catalog.rules.board ∧
      d.watchers.on (.card ⟨1⟩) d.catalog.rules.lifeStat = [] ∧
      d.watchers.on (.card ⟨2⟩) d.catalog.rules.lifeStat = [] ∧
      d.perform 64 (.attackCard ⟨1⟩ ⟨1⟩ ⟨2⟩) = .fault .boundsOutOfOrder := by
  exact @Visited.exists_of_performAll Starter.crossedLife 64 7 ⟨⟨1⟩, []⟩ ⟨⟨2⟩, []⟩
    [.create ⟨1⟩ ⟨1⟩ Starter.board, .create ⟨2⟩ ⟨1⟩ Starter.board]
    (fun d => d.opponent ⟨1⟩ = .ok ⟨2⟩ ∧ d.Lies ⟨1⟩ ⟨1⟩ d.catalog.rules.board ∧
      d.Lies ⟨2⟩ ⟨2⟩ d.catalog.rules.board ∧
      d.watchers.on (.card ⟨1⟩) d.catalog.rules.lifeStat = [] ∧
      d.watchers.on (.card ⟨2⟩) d.catalog.rules.lifeStat = [] ∧
      d.perform 64 (.attackCard ⟨1⟩ ⟨1⟩ ⟨2⟩) = .fault .boundsOutOfOrder)
    (by decide +kernel)

end CardDuel
