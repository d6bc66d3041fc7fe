/-
CardDuel.Proofs.Naming — what a name reaches.

Zones and stats are kept in lists and looked up by name. Validation takes
care that no two zones of a catalog share a name, so each zone of a player
is the one that its name reaches. Of stats it asks nothing of the kind.
Where the catalog declares a name twice, for players or for the cards of a
type, the name reaches the last stat of that name; the others are listed
and age, but no effect, condition or blow can read or write them.

  §1 Positions — the place in a list that a name reaches.
  §2 Zones     — zones by name.
  §3 Stats     — what is read and written through a name.
-/
import CardDuel.Proofs.Applying
import CardDuel.Proofs.Availability

namespace CardDuel

open Engine Play

/-! ## §1 Positions -/

namespace StatBlock

variable {block : StatBlock} {name : String} {i j : Nat}

/-- The stat that a name reaches does not come before one of that name. -/
theorem le_of_lastIndex? (h : lastIndex? name block.stats = some j)
    (hi : block.names[i]? = some name) : i ≤ j := by
  by_contra hlater
  obtain ⟨-, hlast⟩ := lastIndex?_eq_some_iff.mp h
  refine hlast (List.mem_of_getElem? (i := i - (j + 1)) ?_)
  rw [List.getElem?_drop, ← hi]
  congr 1
  omega

/-- All stats are reached by their names if and only if no two share one. -/
theorem forall_lastIndex?_iff :
    (∀ i s, block.stats[i]? = some s → lastIndex? s.name block.stats = some i) ↔
      block.names.Nodup := by
  constructor
  · intro h
    rw [List.nodup_iff_getElem?_ne_getElem?]
    intro i j hij hj heq
    rw [names, List.length_map] at hj
    have hsame : block.stats[i].name = block.stats[j].name := by
      rw [names, List.getElem?_map, List.getElem?_map, List.getElem?_eq_getElem hj,
        List.getElem?_eq_getElem (by omega)] at heq
      exact Option.some.inj heq
    have hi := h i _ (List.getElem?_eq_getElem (by omega))
    rw [hsame, h j _ (List.getElem?_eq_getElem hj)] at hi
    exact absurd (Option.some.inj hi) (Nat.ne_of_gt hij)
  · intro h i s hs
    have hname : block.names[i]? = some s.name := by simp [names, hs]
    exact lastIndex?_of_unique (List.count_eq_one_of_mem h (List.mem_of_getElem? hname)) hs rfl

end StatBlock

/-! ## §2 Zones -/

namespace Seat

variable {s : Seat} {z : Zone} {name : String}

theorem namedZone?_eq_some (h : s.namedZone? name = some z) : z ∈ s.zones ∧ z.spec.name = name := by
  rw [namedZone?, List.findRev?_eq_find?_reverse] at h
  exact ⟨List.mem_reverse.mp (List.mem_of_find?_eq_some h), by simpa using List.find?_some h⟩

theorem namedZone?_of_mem (h : (s.zones.map (·.spec.name)).Nodup) (hz : z ∈ s.zones) :
    s.namedZone? z.spec.name = some z := by
  have hsome : (s.namedZone? z.spec.name).isSome := by
    rw [namedZone?, List.findRev?_eq_find?_reverse, List.find?_isSome]
    exact ⟨z, List.mem_reverse.mpr hz, by simp⟩
  obtain ⟨z', hz'⟩ := Option.isSome_iff_exists.mp hsome
  obtain ⟨hm, hname⟩ := namedZone?_eq_some hz'
  rw [hz', List.inj_on_of_nodup_map h hm hz hname]

end Seat

/-- Zones of one player have different names, since those of the catalog
do. -/
theorem Visited.nodup_zoneNames {catalog : Catalog} {d : Duel} (h : Visited catalog d) {s : Seat}
    (hs : s ∈ d.seats) : (s.zones.map (·.spec.name)).Nodup := by
  obtain ⟨⟨hzones, -, -⟩, -⟩ := Catalog.validate_eq_ok_iff.mp h.validated
  have hnames : s.zones.map (·.spec.name) = catalog.zones.map ZoneSpec.name := by
    rw [← h.catalog_eq, ← h.sound.laid.zones s hs, List.map_map]
    rfl
  rw [hnames, List.Nodup, List.pairwise_map]
  exact hzones.imp And.right

/-! ## §3 Stats -/

/-- The stat at a place of a bearer's block is the one that its name
reaches: what is read through the name is read of it, and what is written
through the name is written to it, and told as a change of that name. -/
structure Duel.Reaches (d : Duel) (b : Bearer) (block : StatBlock) (i : Nat) (s : Stat) : Prop where
  place : block.stats[i]? = some s
  found : StatBlock.lastIndex? s.name block.stats = some i
  got : block.get? s.name = some s
  read : d.statValue? b s.name = s.effective.map some
  written : ∀ (write : Stat → Except Fault (StatChange × Stat)) change s',
    write s = .ok (change, s') → ∀ journal depth,
      writeStat b s.name write ⟨d, journal, depth⟩ =
        .done (some change)
          ⟨d.putStats b ⟨block.stats.set i s'⟩, .wrote b s.name change :: journal, depth⟩

/-- What names reach in the block of a bearer. -/
structure Duel.Named (d : Duel) (b : Bearer) (block : StatBlock) : Prop where
  /-- The name of a stat always reaches a stat of that name. -/
  some_reached : ∀ i s, block.stats[i]? = some s →
    ∃ j t, i ≤ j ∧ t.name = s.name ∧ d.Reaches b block j t
  /-- It reaches this stat if and only if no later one has the name. -/
  reached_iff : ∀ i s, block.stats[i]? = some s →
    (d.Reaches b block i s ↔ s.name ∉ block.names.drop (i + 1))
  /-- The names are those that the catalog declares of the bearer. All
  stats are reached if and only if it declares no name twice. -/
  all_reached_iff : ∃ declared, d.fixture.declared? b = some declared ∧
    block.names = declared.names ∧
    ((∀ i s, block.stats[i]? = some s → d.Reaches b block i s) ↔ declared.names.Nodup)

namespace Duel

variable {d : Duel} {b : Bearer} {block : StatBlock} {i : Nat} {s : Stat}

theorem reaches_of_lastIndex? (hb : d.stats b = .ok block) (hs : block.stats[i]? = some s)
    (hi : StatBlock.lastIndex? s.name block.stats = some i) : d.Reaches b block i s := by
  have hget : block.get? s.name = some s := by
    rw [StatBlock.get?, hi]
    exact hs
  constructor
  case place => exact hs
  case found => exact hi
  case got => exact hget
  case read =>
    rw [statValue?, hb]
    exact StatBlock.value?_of_get? hget
  case written =>
    intro write change s' hwrite journal depth
    rw [writeStat_of_some hb hget hwrite, StatBlock.put, hi]

theorem reaches_iff (hb : d.stats b = .ok block) (hs : block.stats[i]? = some s) :
    d.Reaches b block i s ↔ StatBlock.lastIndex? s.name block.stats = some i :=
  ⟨Reaches.found, reaches_of_lastIndex? hb hs⟩

theorem Declared.named (h : d.Declared) (hb : d.stats b = .ok block) : d.Named b block := by
  constructor
  case some_reached =>
    intro i s hs
    have hname : block.names[i]? = some s.name := by simp [StatBlock.names, hs]
    obtain ⟨t, ht⟩ := StatBlock.exists_get? (List.mem_of_getElem? hname)
    obtain ⟨j, hj, hplace, hsame⟩ := StatBlock.get?_eq_some ht
    refine ⟨j, t, StatBlock.le_of_lastIndex? hj hname, hsame, ?_⟩
    exact reaches_of_lastIndex? hb hplace (hsame ▸ hj)
  case reached_iff =>
    intro i s hs
    have hname : (block.stats.map Stat.name)[i]? = some s.name := by simp [hs]
    rw [reaches_iff hb hs, StatBlock.lastIndex?_eq_some_iff]
    exact and_iff_right hname
  case all_reached_iff =>
    obtain ⟨declared, hdeclared, halike⟩ := h b block hb
    refine ⟨declared, hdeclared, halike.names_eq, ?_⟩
    rw [← halike.names_eq, ← StatBlock.forall_lastIndex?_iff]
    exact forall₂_congr fun i s => forall_congr' (reaches_iff hb)

end Duel

/-- **What names reach.** In a duel that is visited, every zone of a player
is the one that its name reaches, and so is every stat of a player or card
whose name no later stat of the bearer has. So names reach all stats of a
bearer just when the catalog declares none of them twice. -/
theorem names_reach {catalog : Catalog} {d : Duel} (h : Visited catalog d) :
    (∀ s ∈ d.seats, ∀ z ∈ s.zones, s.namedZone? z.spec.name = some z) ∧
      ∀ b block, d.stats b = .ok block → d.Named b block := by
  constructor
  · intro s hs z hz
    exact Seat.namedZone?_of_mem (h.nodup_zoneNames hs) hz
  · intro b block hb
    exact h.declared.named hb

/-- In the starter catalog the stats of players have different names. -/
theorem starter_names_reach :
    ∃ d block, Visited (Starter.catalog {}) d ∧ d.stats (.player ⟨1⟩) = .ok block ∧
      (∀ s ∈ d.seats, ∀ z ∈ s.zones, s.namedZone? z.spec.name = some z) ∧
      ∀ i s, block.stats[i]? = some s → d.Reaches (.player ⟨1⟩) block i s := by
  obtain ⟨d, hstart, block, -, hblock⟩ :=
    @Duel.exists_of_start (Starter.catalog {}) 7 ⟨⟨1⟩, [⟨1⟩]⟩ ⟨⟨2⟩, []⟩
      (fun d => ∃ block ∈ (d.stats (.player ⟨1⟩)).toOption, d.stats (.player ⟨1⟩) = .ok block)
      (by decide +kernel)
  have hvisited : Visited (Starter.catalog {}) d := .start hstart
  obtain ⟨hzones, hnamed⟩ := names_reach hvisited
  obtain ⟨declared, hdeclared, -, hall⟩ := (hnamed _ block hblock).all_reached_iff
  refine ⟨d, block, hvisited, hblock, hzones, hall.mpr ?_⟩
  have hcatalog : d.fixture.catalog = Starter.catalog {} := hvisited.catalog_eq
  rw [Fixture.declared?, hcatalog] at hdeclared
  cases hdeclared
  decide

/-- The starter catalog, but a second life of five is declared of players. -/
def Starter.twoLives : Catalog :=
  { Starter.catalog {} with
    playerStats := (Starter.catalog {}).playerStats ++ [⟨"Life", 5, 0, 99⟩] }

/-- **A name can be declared twice.** The catalog passes validation, and the
life that players have first is never reached: it is twenty, but what is
read as life is five. -/
theorem second_life_hides_first :
    ∃ d block s, Visited Starter.twoLives d ∧ d.stats (.player ⟨1⟩) = .ok block ∧
      block.stats[0]? = some s ∧ s.name = "Life" ∧ s.effective = .ok 20 ∧
      block.get? "Life" ≠ some s ∧ d.statValue? (.player ⟨1⟩) "Life" = .ok (some 5) := by
  obtain ⟨d, hstart, block, -, hblock, s, -, hs, hfacts⟩ :=
    @Duel.exists_of_start Starter.twoLives 7 ⟨⟨1⟩, [⟨1⟩]⟩ ⟨⟨2⟩, []⟩
      (fun d => ∃ block ∈ (d.stats (.player ⟨1⟩)).toOption, d.stats (.player ⟨1⟩) = .ok block ∧
        ∃ s ∈ block.stats[0]?, block.stats[0]? = some s ∧ s.name = "Life" ∧
          s.effective = .ok 20 ∧ block.get? "Life" ≠ some s ∧
          d.statValue? (.player ⟨1⟩) "Life" = .ok (some 5))
      (by decide +kernel)
  exact ⟨d, block, s, .start hstart, hblock, hs, hfacts⟩

end CardDuel
