/-
CardDuel.Proofs.Declared — every bearer has the stats declared of it.

The catalog declares the stats of players and of the cards of each type.
During a duel they get other values and modifiers, but none is added or
lost, and none changes its place, its name or its bounds. So which stats
a bearer has can be read off the catalog at any time, in the midst of a
chain too.

  §1 Blocks — what writes and ageing leave of a block.
  §2 Sheets — statements on every block of a sheet.
  §3 Duels  — what the catalog declares of each bearer.
  §4 Runs   — from the start on, and through every chain.
-/
import CardDuel.Proofs.Books
import CardDuel.Proofs.Stats

namespace CardDuel

open Engine Play

/-! ## §1 Blocks -/

theorem Stat.Alike.refl (s : Stat) : s.Alike s := ⟨rfl, rfl, rfl⟩

theorem Stat.Alike.trans {s s' s'' : Stat} (h : s.Alike s') (h' : s'.Alike s'') : s.Alike s'' :=
  ⟨h'.name.trans h.name, h'.low.trans h.low, h'.high.trans h.high⟩

namespace StatBlock

variable {b b' b'' : StatBlock} {name : String} {s s' : Stat}

/-- Both blocks have the same stats, but for values and modifiers. -/
def Alike (b b' : StatBlock) : Prop := List.Forall₂ Stat.Alike b.stats b'.stats

theorem Alike.refl (b : StatBlock) : b.Alike b := List.forall₂_same.mpr fun s _ => .refl s

theorem Alike.trans (h : b.Alike b') (h' : b'.Alike b'') : b.Alike b'' := by
  obtain ⟨l⟩ := b
  obtain ⟨l'⟩ := b'
  obtain ⟨l''⟩ := b''
  unfold Alike at h h' ⊢
  dsimp only at h h' ⊢
  induction h generalizing l'' with
  | nil => exact h'
  | cons hs _ ih =>
    cases h' with
    | cons hs' hrest' => exact .cons (hs.trans hs') (ih _ hrest')

theorem Alike.names_eq (h : b.Alike b') : b'.names = b.names :=
  names_of_forall₂ (fun _ _ h => h.name) h

theorem alike_set {l : List Stat} {i : Nat} (h : l[i]? = some s) (hs : s.Alike s') :
    List.Forall₂ Stat.Alike l (l.set i s') := by
  induction l generalizing i with
  | nil => simp at h
  | cons s₀ rest ih =>
    cases i with
    | zero =>
      simp only [List.getElem?_cons_zero, Option.some.injEq] at h
      subst h
      exact .cons hs (List.forall₂_same.mpr fun s _ => .refl s)
    | succ i => exact .cons (.refl s₀) (ih (by simpa using h))

theorem Alike.put (h : b.get? name = some s) (hs : s.Alike s') : b.Alike (b.put name s') := by
  obtain ⟨i, -, hget, -, hput⟩ := put_eq_set h
  rw [hput]
  exact alike_set hget hs

theorem Alike.of_tick {changes : List (String × StatChange)} (h : b.tick = .ok (changes, b')) :
    b.Alike b' :=
  (forall₂_of_tick h).imp fun _ _ ⟨_, hs, _⟩ => (Stat.alike_of_tick hs).1

/-- The base values that a card states are all that sets its stats apart
from those of its type. -/
theorem alike_stats (spec : CardSpec) (t : CardType) :
    (ofSpecs t.stats).Alike (ofSpecs (spec.stats t)) := by
  simp only [Alike, ofSpecs, CardSpec.stats, List.forall₂_map_left_iff, List.map_map,
    List.forall₂_map_right_iff, List.forall₂_same]
  exact fun _ _ => ⟨rfl, rfl, rfl⟩

theorem exists_get? (h : name ∈ b.names) : ∃ s, b.get? name = some s := by
  cases hi : lastIndex? name b.stats with
  | none => exact absurd h (lastIndex?_eq_none_iff.mp hi)
  | some i =>
    obtain ⟨s, hs, -⟩ := lastIndex?_eq_some hi
    exact ⟨s, by rw [get?, hi]; exact hs⟩

end StatBlock

/-! ## §2 Sheets -/

namespace Sheet

/-- Every block of the sheet is as `p` says. -/
def Each (p : Bearer → StatBlock → Prop) (V : Sheet) : Prop := ∀ b block, V b = .ok block → p b block

variable {p : Bearer → StatBlock → Prop} {V : Sheet} {b : Bearer} {block : StatBlock}

theorem Each.put (hV : V.Each p) (h : p b block) : (V.put b block).Each p := by
  intro b' block' hb'
  by_cases hbb : b' = b
  · subst hbb
    rw [put_self] at hb'
    cases hb'
    exact h
  · rw [put_of_ne _ _ hbb] at hb'
    exact hV b' block' hb'

/-- What writes keep of a block, the steps of a chain keep of every block. -/
theorem postings_each (write : ∀ {b block name s s' change} {a : Adjustment} {amount : Points}
    {turns : UInt32}, p b block → block.get? name = some s →
      a.apply amount turns s = .ok (change, s') → p b (block.put name s')) :
    Postings (fun (_ : Unit) B => B.stats.Each p) fun _ _ _ i => i where
  draw h _ := h
  call _ _ _ h := h
  write h hblock hs hwrite := h.put (write (h _ _ hblock) hs hwrite)
  swap h := h
  tell h := h

theorem ages_each (tick : ∀ {b block changes block'}, p b block →
    block.tick = .ok (changes, block') → p b block') :
    Ledger.Ages (fun (_ : Unit) B => B.stats.Each p) fun _ _ _ i => i := by
  intro i B b block changes block' h hblock htick
  exact h.put (tick (h _ _ hblock) htick)

end Sheet

/-! ## §3 Duels -/

namespace Fixture

variable {φ φ' : Fixture} {b : Bearer} {block block' : StatBlock}

/-- The stats that are declared of a bearer, at their declared values. -/
def declared? (φ : Fixture) : Bearer → Option StatBlock
  | .player _ => some (.ofSpecs φ.catalog.playerStats)
  | .card id =>
    ((φ.tag? id).bind fun t => φ.catalog.cardType? t.cardType).map fun t => .ofSpecs t.stats

/-- The block has the stats that are declared of the bearer. -/
def Declares (φ : Fixture) (b : Bearer) (block : StatBlock) : Prop :=
  ∃ declared, φ.declared? b = some declared ∧ declared.Alike block

theorem Declares.alike (h : φ.Declares b block) (halike : block.Alike block') :
    φ.Declares b block' := by
  obtain ⟨declared, hdeclared, hblock⟩ := h
  exact ⟨declared, hdeclared, hblock.trans halike⟩

/-- What is declared of a bearer does not change when there are more cards. -/
theorem Grows.declared? {declared : StatBlock} (hgrows : φ.Grows φ')
    (h : φ.declared? b = some declared) : φ'.declared? b = some declared := by
  cases b with
  | player p => rwa [Fixture.declared?, hgrows.catalog]
  | card id =>
    obtain ⟨ct, hct, rfl⟩ := Option.map_eq_some_iff.mp h
    obtain ⟨t, ht, hct⟩ := Option.bind_eq_some_iff.mp hct
    have ht' : φ'.tag? id = some t := hgrows.cards.find?_eq_some ht
    simp [Fixture.declared?, ht', hgrows.catalog, hct]

theorem Grows.declares (hgrows : φ.Grows φ') (h : φ.Declares b block) : φ'.Declares b block := by
  obtain ⟨declared, hdeclared, hblock⟩ := h
  exact ⟨declared, hgrows.declared? hdeclared, hblock⟩

end Fixture

namespace Duel

variable {d d' : Duel} {owner : PlayerId} {place : ZoneId}

/-- Every bearer has the stats that are declared of it. -/
def Declared (d : Duel) : Prop := Sheet.Each d.fixture.Declares d.stats

theorem Declared.create {card : CardId} {id : InstanceId} (h : d.Declared) (hd : d.Sound)
    (hcreate : d.create owner card place = .ok (id, d')) : d'.Declared := by
  obtain ⟨-, hfresh⟩ := stats_created hcreate
  obtain ⟨spec, hspec, howner, hφ⟩ := fixture_create hcreate
  intro b block hb
  rcases hfresh b block hb with hb | ⟨spec', ct, hspec', hct, rfl, rfl⟩
  · rw [hφ]
    exact (Fixture.Grows.extend ..).declares (h b block hb)
  · cases hspec.symm.trans hspec'
    refine ⟨.ofSpecs ct.stats, ?_, StatBlock.alike_stats spec ct⟩
    have hsound := hd.create hcreate
    let tag : CardTag := ⟨d.nextInstance, card, spec.cardType, owner⟩
    have htag : d'.fixture.tag? d.nextInstance = some tag :=
      hsound.fixture.tag?_of_mem (t := tag)
        (by rw [hφ]; exact List.mem_append_right _ List.mem_cons_self)
    have hcatalog : d'.fixture.catalog = d.catalog := by rw [hφ]; rfl
    simp [Fixture.declared?, htag, tag, hcatalog, hct]

theorem Declared.createAll {cards : List CardId} (h : d.Declared) (hd : d.Sound)
    (hcreate : d.createAll owner place cards = .ok d') : d'.Declared := by
  induction cards generalizing d with
  | nil => cases hcreate; exact h
  | cons card rest ih =>
    obtain ⟨⟨id, d₁⟩, hfirst, hrest⟩ := Except.bind_eq_ok_iff.mp hcreate
    exact ih (h.create hd hfirst) (hd.create hfirst) hrest

theorem declared_blank (catalog : Catalog) (seed : UInt64) (first second : PlayerId) :
    (blank catalog seed first second).Declared := by
  intro b block hb
  cases b with
  | player p =>
    refine ⟨_, rfl, ?_⟩
    obtain ⟨s, hs, rfl⟩ :
        ∃ s, (blank catalog seed first second).seat p = .ok s ∧ s.stats = block := by
      cases hs : (blank catalog seed first second).seat p with
      | error e => simp [stats, hs, Except.map] at hb
      | ok s => exact ⟨s, rfl, by simpa [stats, hs, Except.map] using hb⟩
    have hmem := (seat_eq_ok hs).1
    simp only [seats, blank, List.mem_cons, List.not_mem_nil, or_false] at hmem
    rcases hmem with rfl | rfl <;> exact .refl _
  | card id => cases hb

theorem declared_of_start {catalog : Catalog} {seed : UInt64} {first second : Entrant}
    (h : start catalog seed first second = .ok d) : d.Declared := by
  obtain ⟨hvalid, hne, hdeal⟩ := start_eq_ok_iff.mp h
  obtain ⟨d₁, hfirst, hsecond⟩ := Except.bind_eq_ok_iff.mp hdeal
  have hblank : (blank catalog seed first.id second.id).Sound :=
    sound_blank (Catalog.closed_of_validate hvalid) hne
  have hdeclared : (blank catalog seed first.id second.id).Declared :=
    declared_blank catalog seed first.id second.id
  exact (hdeclared.createAll hblank hfirst).createAll (hblank.createAll hfirst) hsecond

end Duel

/-! ## §4 Runs -/

variable {φ : Fixture}

theorem postings_declared :
    Postings (fun (_ : Unit) B => B.stats.Each φ.Declares) fun _ _ _ i => i :=
  Sheet.postings_each fun h hs hwrite => h.alike (.put hs (Adjustment.alike_of_apply hwrite))

theorem ages_declared :
    Ledger.Ages (fun (_ : Unit) B => B.stats.Each φ.Declares) fun _ _ _ i => i :=
  @Sheet.ages_each φ.Declares fun h htick => h.alike (.of_tick htick)

/-- Calls on abilities keep the fixture, the layout and what is declared,
done or refused. -/
theorem Duel.Sound.declared_call {limit rounds : Nat} {player : PlayerId} {id : InstanceId}
    {kind : TriggerKind} {accepts : Trigger → Bool} {selection : Selection} {s s' : Scene}
    (hs : s.duel.Sound) (h : s.duel.Declared)
    (hs' : (dispatch limit rounds player id kind accepts selection s).state? = some s') :
    s'.duel.fixture = s.duel.fixture ∧ s'.duel.Laid ∧ s'.duel.Declared := by
  have U : Upkeep s.duel.fixture (.keeping s.duel.fixture) (fun (_ : Unit) _ => True) limit
      fun _ _ _ i => i :=
    upkeep_keeping hs.fixture
  have U' : Upkeep s.duel.fixture (.books fun B => B.stats.Each s.duel.fixture.Declares)
      (fun (_ : Unit) s' => Sheet.Each s.duel.fixture.Declares s'.duel.stats) limit
      fun _ _ _ i => i :=
    postings_declared.upkeep .any (fun h => h) hs.fixture limit
  have hfixture := wp_state (U.wp_call (i := ()) ⟨rfl, hs.laid, trivial⟩
    (Exits.early_keeping hs.laid)) hs'
  have hdeclared := wp_state (U'.wp_call (i := ()) ⟨rfl, hs.laid, h⟩
    ⟨fun _ => h, fun _ _ _ => h⟩) hs'
  have hfixture : s'.duel.fixture = s.duel.fixture ∧ s'.duel.Laid := by
    rcases hfixture with ⟨_, hs'⟩ | ⟨_, hs'⟩
    · exact ⟨hs'.fixture, hs'.laid⟩
    · exact hs'
  refine ⟨hfixture.1, hfixture.2, ?_⟩
  rw [Duel.Declared, hfixture.1]
  rcases hdeclared with ⟨_, hs'⟩ | ⟨_, hs'⟩
  · exact hs'.holds
  · exact hs'

namespace Duel.Sound

variable {d d' : Duel} {limit : Nat} {a : Action} (hd : d.Sound)
include hd

theorem declared_of_state (h : d.Declared) (hd' : (d.perform limit a).state? = some d') :
    d'.Declared := by
  by_cases ha : ∃ owner card place, a = .create owner card place
  · obtain ⟨owner, card, place, rfl⟩ := ha
    have early : Exits.Early ⟨fun _ s => s.duel.Declared, fun _ => True⟩ ⟨d, [], 0⟩ :=
      ⟨fun _ => h, fun _ _ _ => h⟩
    have hrun : wp ⟨fun _ s => s.duel.Declared, fun _ => True⟩
        (Action.run (dispatch limit (limit + 1)) (.create owner card place))
        (fun _ s => s.duel.Declared) ⟨d, [], 0⟩ :=
      wp_map.mpr (wp_create early fun id d₁ hcreate => h.create hd hcreate)
    obtain ⟨s, rfl, ⟨_, hs⟩ | ⟨_, hs⟩⟩ := state_of_wp hrun hd'
    · exact hs
    · exact hs
  · have hrun : wp (.books fun B => B.stats.Each d.fixture.Declares)
        (a.run (dispatch limit (limit + 1)))
        (fun _ s => Sheet.Each d.fixture.Declares s.duel.stats) ⟨d, [], 0⟩ :=
      postings_declared.wp_run (i := ()) .any id hd (fun _ => trivial) (fun _ => @ages_declared _)
        (fun owner card place _ _ heq => absurd ⟨owner, card, place, heq⟩ ha) h
    have hkept : Sheet.Each d.fixture.Declares d'.stats := by
      obtain ⟨s, rfl, ⟨_, hs⟩ | ⟨_, hs⟩⟩ := state_of_wp hrun hd'
      · exact hs
      · exact hs
    exact fun b block hb => (hd.grows_of_state hd').declares (hkept b block hb)

end Duel.Sound

/-- **Every bearer has the stats declared of it** in a duel that is reached. -/
theorem Reached.declared {log : List Action} {d : Duel} (h : Reached log d) : d.Declared := by
  induction h with
  | start h => exact Duel.declared_of_start h
  | done before h ih => exact before.sound.declared_of_state ih (by rw [h]; rfl)
  | refused before h ih => exact before.sound.declared_of_state ih (by rw [h]; rfl)

theorem Duel.Leads.declared {d d' : Duel} (h : d.Leads d') (hd : d.Sound) (hdeclared : d.Declared) :
    d'.Declared := by
  induction h with
  | refl => exact hdeclared
  | step before hstep ih => exact (before.grows hd).1.declared_of_state ih hstep

end CardDuel
