/-
CardDuel.Proofs.Queries — what queries keep.

A query does steps of a chain, but sets off none. So an invariant of
chains that asks for no watcher to be told is kept by every query, and so
are the fixture of a duel and its layout. `Visited` has the duels that
actions and queries lead to, in any order.
-/
import CardDuel.Play.Query
import CardDuel.Proofs.Declared
import CardDuel.Proofs.Depth

namespace CardDuel

open Engine Play

/-! ## Invariants -/

section
variable {ι : Type} {φ : Fixture} {X : Exits} {J : ι → Scene → Prop} {i : ι} {s : Scene}
variable {limit : Nat}

/-- A computation that begins with the stats of a bearer ends there, if
there is no such bearer. -/
theorem wp_ofBearer {α : Type} {I : Scene → Prop} {Q : α → Scene → Prop} {b : Bearer}
    {next : StatBlock → Engine α} (hs : Standing φ I s) (early : X.Early s)
    (h : φ.Knows b → wp X (find (·.stats b) >>= next) Q s) :
    wp X (find (·.stats b) >>= next) Q s := by
  cases hb : s.duel.stats b with
  | ok block => exact h (hs.knows hb)
  | error e =>
    rw [wp_bind, wp_find, hb]
    exact early.lookup e

/-- **Queries keep the invariant**, if it does not ask for the watchers of
a write to be told. -/
theorem Upkeep.wp_query (U : Upkeep φ X J limit fun _ _ _ i => i)
    (ages : Ages φ X J fun _ _ _ i => i) (hs : Standing φ (J i) s) (early : X.Early s) (q : Query) :
    wp X q.run (fun _ => Standing φ (J i)) s := by
  have hadjust (b : Bearer) (name : String) (a : Adjustment) (amount : Amount) (turns : UInt32) :
      wp X (adjustStat b name a amount turns) (fun _ => Standing φ (J i)) s :=
    wp_ofBearer hs early fun hb => wp_mono (U.wp_adjustStat hs hb) fun change s₁ hs₁ => by
      rwa [owed_const] at hs₁
  cases q with
  | playerTargets acting target selection =>
    refine wp_map.mpr ?_
    cases target with
    | card kind conditions => exact hs
    | player kind conditions =>
      rw [Play.playerTargets, wp_bind, wp_find]
      split
      · exact wp_mono (U.wp_targets hs) fun _ _ hs₁ => hs₁.2
      · exact early.lookup _
  | cardTargets acting source target place t selection =>
    refine wp_map.mpr ?_
    cases target with
    | player kind conditions => exact hs
    | card kind conditions =>
      rw [Play.cardTargets, wp_bind, wp_find]
      split
      · exact wp_mono (U.wp_targets hs) fun _ _ hs₁ => hs₁.2
      · exact early.lookup _
  | applyToPlayer player e => exact wp_map.mpr (hadjust ..)
  | applyToCard card e => exact wp_map.mpr (hadjust ..)
  | damage b name amount =>
    refine wp_map.mpr (wp_ofBearer hs early fun hb => ?_)
    refine wp_mono (U.wp_damage hs hb) fun change s₁ hs₁ => ?_
    rwa [owed_const] at hs₁
  | age b =>
    refine wp_map.mpr (wp_ofBearer hs early fun hb => ?_)
    refine wp_mono (wp_ageStats hs hb fun block hblock => ages hs hb hblock)
      fun changes s₁ hs₁ => ?_
    rwa [owedAll_const] at hs₁

end

/-! ## Duels -/

theorem InStep.query {fire fire' : Dispatch} (q : Query) : InStep fire fire' q.run q.run := by
  cases q with
  | playerTargets acting target selection =>
    cases target with
    | player kind conditions => exact map _ (bind (find _) fun pool => targets ..)
    | card kind conditions => exact map _ (pure [])
  | cardTargets acting source target place t selection =>
    cases target with
    | player kind conditions => exact map _ (pure [])
    | card kind conditions => exact map _ (bind (find _) fun pool => targets ..)
  | applyToPlayer player e => exact map _ (adjustStat ..)
  | applyToCard card e => exact map _ (adjustStat ..)
  | damage b name amount => exact map _ (damage ..)
  | age b => exact map _ (ageStats b)

/-- A query takes no rounds. -/
theorem query_ne_outOfRounds (q : Query) (s : Scene) : q.run s ≠ .fault .outOfRounds := by
  let fire : Dispatch := fun _ _ _ _ _ => Pure.pure 0
  let X : Exits := ⟨fun _ _ => True, fun cause => cause ≠ .outOfRounds⟩
  have hinStep : InStep fire fire q.run q.run := .query q
  have hrun : wp X q.run (fun _ _ => True) s :=
    hinStep.keeps (fun _ _ _ => trivial) (fun _ _ _ _ => trivial) (fun _ _ _ => trivial)
      (fun _ hcause => hcause) (fun _ _ _ _ _ _ _ => trivial) s trivial
  intro hfault
  unfold wp at hrun
  rw [hfault] at hrun
  exact hrun rfl

/-- Queries keep an invariant of the books that does not ask for watchers
to be told. -/
theorem Postings.wp_query {ι : Type} {P : ι → Books → Prop} {R : Books → Prop} {F : Fault → Prop}
    (L : Postings P fun _ _ _ i => i) (S : Secure P F) (hR : ∀ {i B}, P i B → R B)
    (ages : Ledger.Ages P fun _ _ _ i => i) {d : Duel} (hd : d.Sound) {i : ι} (h : P i d.books)
    (q : Query) :
    wp (.books R F) q.run (fun _ s => P i s.books) ⟨d, [], 0⟩ :=
  have U := L.upkeep S hR hd.fixture 0
  wp_mono (U.wp_query (ages.upkeep S) ⟨rfl, hd.laid, h⟩ ⟨fun _ => hR h, fun _ _ _ => hR h⟩ q)
    fun _ _ hs => hs.holds

/-- What holds of a query holds of the duel that it leaves. -/
theorem state_of_wp_query {X : Exits} {q : Query} {Q : Answer → Scene → Prop} {d d' : Duel}
    (h : wp X q.run Q ⟨d, [], 0⟩) (hd' : (d.ask q).state? = some d') :
    ∃ s, s.duel = d' ∧ ((∃ answer, Q answer s) ∨ ∃ e, X.refused e s) := by
  rw [Duel.ask, Outcome.state?_mapState, Option.map_eq_some_iff] at hd'
  obtain ⟨s, hs, rfl⟩ := hd'
  exact ⟨s, rfl, wp_state h hs⟩

namespace Duel.Sound

variable {d d' : Duel} {q : Query} (hd : d.Sound)
include hd

/-- Queries keep the fixture of a duel and its layout. -/
theorem sound_of_ask (hd' : (d.ask q).state? = some d') : d'.Sound ∧ d'.fixture = d.fixture := by
  have U : Upkeep d.fixture (.keeping d.fixture) (fun (_ : Unit) _ => True) 0 fun _ _ _ i => i :=
    upkeep_keeping hd.fixture
  have early : (Exits.keeping d.fixture).Early ⟨d, [], 0⟩ := Exits.early_keeping hd.laid
  have hrun := U.wp_query (i := ()) (@ages_of_sound _ _ fun _ => trivial) ⟨rfl, hd.laid, trivial⟩ early q
  have hkept : d'.fixture = d.fixture ∧ d'.Laid := by
    obtain ⟨s, rfl, ⟨_, hs⟩ | ⟨_, hs⟩⟩ := state_of_wp_query hrun hd'
    · exact ⟨hs.fixture, hs.laid⟩
    · exact hs
  exact ⟨⟨hkept.1 ▸ hd.fixture, hkept.2⟩, hkept.1⟩

/-- What writes and ageing keep of a block, queries keep of every block. -/
theorem each_of_ask {p : Bearer → StatBlock → Prop}
    (L : Postings (fun (_ : Unit) B => B.stats.Each p) fun _ _ _ i => i)
    (ages : Ledger.Ages (fun (_ : Unit) B => B.stats.Each p) fun _ _ _ i => i)
    (h : Sheet.Each p d.stats) (hd' : (d.ask q).state? = some d') : Sheet.Each p d'.stats := by
  have hrun := L.wp_query .any (R := fun B => B.stats.Each p) id @ages hd (i := ()) h q
  obtain ⟨s, rfl, ⟨_, hs⟩ | ⟨_, hs⟩⟩ := state_of_wp_query hrun hd'
  · exact hs
  · exact hs

theorem declared_of_ask (h : d.Declared) (hd' : (d.ask q).state? = some d') : d'.Declared := by
  rw [Duel.Declared, (hd.sound_of_ask hd').2]
  exact hd.each_of_ask postings_declared (@ages_declared _) h hd'

end Duel.Sound

/-! ## Runs -/

/-- Actions and queries lead from a start with the catalog to the duel.
Some of them may be refused on the way. -/
inductive Visited (catalog : Catalog) : Duel → Prop where
  | start {seed : UInt64} {first second : Entrant} {d : Duel}
      (h : Duel.start catalog seed first second = .ok d) : Visited catalog d
  | action {d d' : Duel} {limit : Nat} {a : Action} (before : Visited catalog d)
      (h : (d.perform limit a).state? = some d') : Visited catalog d'
  | query {d d' : Duel} {q : Query} (before : Visited catalog d)
      (h : (d.ask q).state? = some d') : Visited catalog d'

namespace Visited

variable {catalog : Catalog} {d : Duel}

theorem sound (h : Visited catalog d) : d.Sound := by
  induction h with
  | start h => exact Duel.sound_of_start h
  | action _ h ih => exact (ih.sound_of_state h).1
  | query _ h ih => exact (ih.sound_of_ask h).1

theorem catalog_eq (h : Visited catalog d) : d.catalog = catalog := by
  induction h with
  | start h => exact Duel.catalog_of_start h
  | action before h ih => exact (before.sound.grows_of_state h).catalog.trans ih
  | query before h ih => exact (congrArg Fixture.catalog (before.sound.sound_of_ask h).2).trans ih

theorem declared (h : Visited catalog d) : d.Declared := by
  induction h with
  | start h => exact Duel.declared_of_start h
  | action before h ih => exact before.sound.declared_of_state ih h
  | query before h ih => exact before.sound.declared_of_ask ih h

theorem performAll {limit : Nat} {actions : List Action} {d' : Duel} (h : Visited catalog d)
    (hd : d.performAll limit actions = some d') : Visited catalog d' := by
  induction actions generalizing d with
  | nil => cases hd; exact h
  | cons a rest ih =>
    unfold Duel.performAll at hd
    split at hd
    · rename_i reply d₁ hdone
      exact ih (.action h (by rw [hdone]; rfl)) hd
    · cases hd

/-- A duel that is visited can be found by going there. -/
theorem exists_of_performAll {limit : Nat} {seed : UInt64} {first second : Entrant}
    {actions : List Action} {p : Duel → Prop}
    (h : ∃ d ∈ (Duel.start catalog seed first second).toOption.bind (Duel.performAll limit actions),
      p d) : ∃ d, Visited catalog d ∧ p d := by
  obtain ⟨d, hd, hp⟩ := h
  obtain ⟨d₀, hstart, hd⟩ := Option.bind_eq_some_iff.mp hd
  obtain ⟨d₁, hstart₁, rfl⟩ := Duel.exists_of_start (p := (d₀ = ·)) ⟨d₀, hstart, rfl⟩
  exact ⟨d, (Visited.start hstart₁).performAll hd, hp⟩

end Visited

end CardDuel
