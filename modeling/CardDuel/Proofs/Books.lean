/-
CardDuel.Proofs.Books — invariants of what a duel keeps account of.

The books of a scene are its journal, the stats of all bearers and the
generator. An invariant of the books does not ask where the cards lie nor
what is registered, so the steps that matter to it are few: a write to a
stat, a draw from the generator, an entry in the journal, and a bearer
that is new. `Postings` lists those of a chain and `Ledger` all of them.
From them follows that every action keeps the invariant, and so does
every run; and what faults the stats of the books have, an action has.

  §1 Sheets  — the stats of all bearers, and the updates of a duel.
  §2 Ledgers — invariants of the books, and that chains keep them.
  §3 Actions — all of them keep the invariant.
  §4 Runs    — what holds at the start holds of every duel that is reached.
-/
import CardDuel.Proofs.Reached

namespace CardDuel

open Engine Play

/-! ## §1 Sheets -/

/-- The stats of all bearers. -/
abbrev Sheet : Type := Bearer → Except LookupError StatBlock

namespace Sheet

/-- The sheet with another block for one bearer. -/
def put (V : Sheet) (b : Bearer) (block : StatBlock) : Sheet :=
  fun b' => if b' = b then .ok block else V b'

@[simp] theorem put_self (V : Sheet) (b : Bearer) (block : StatBlock) :
    V.put b block b = .ok block :=
  if_pos rfl

theorem put_of_ne {b b' : Bearer} (V : Sheet) (block : StatBlock) (h : b' ≠ b) :
    V.put b block b' = V b' :=
  if_neg h

theorem put_eq_self {V : Sheet} {b : Bearer} {block : StatBlock} (h : V b = .ok block) :
    V.put b block = V := by
  funext b'
  by_cases hbb : b' = b
  · rw [hbb, put_self, h]
  · exact put_of_ne _ _ hbb

@[simp] theorem put_put (V : Sheet) (b : Bearer) (block block' : StatBlock) :
    (V.put b block).put b block' = V.put b block' := by
  funext b'
  by_cases hbb : b' = b
  · rw [hbb, put_self, put_self]
  · rw [put_of_ne _ _ hbb, put_of_ne _ _ hbb, put_of_ne _ _ hbb]

/-- The second sheet is the first one with more bearers. Those that are
new have no modifiers on their stats. -/
structure Extends (V V' : Sheet) : Prop where
  kept : ∀ b block, V b = .ok block → V' b = .ok block
  fresh : ∀ b block, V' b = .ok block → V b = .ok block ∨ ∀ s ∈ block.stats, s.modifiers = []

variable {V V' V'' : Sheet}

theorem Extends.refl (V : Sheet) : V.Extends V := ⟨fun _ _ h => h, fun _ _ h => .inl h⟩

theorem Extends.trans (h : V.Extends V') (h' : V'.Extends V'') : V.Extends V'' where
  kept b block hb := h'.kept b block (h.kept b block hb)
  fresh b block hb := (h'.fresh b block hb).elim (h.fresh b block) .inr

end Sheet

namespace Duel

variable {d d' : Duel} {p : PlayerId}

/-- Two duels with the same seats and cards have the same stats. -/
theorem stats_congr (hseats : d'.seats = d.seats) (hcards : d'.cards = d.cards) :
    d'.stats = d.stats := by
  simp only [seats, List.cons.injEq, and_true] at hseats
  funext b
  cases b with
  | player id => simp only [stats, seat, hseats]
  | card id => simp only [stats, card, hcards]

theorem stats_putStats_eq {b : Bearer} {block block' : StatBlock} (h : d.stats b = .ok block) :
    (d.putStats b block').stats = Sheet.put d.stats b block' := by
  funext b'
  exact stats_putStats h

theorem stats_transfer_eq (card : InstanceId) (origin destination : ZoneId) :
    (d.transfer p card origin destination).stats = d.stats := by
  funext b
  exact stats_transfer card origin destination b

theorem stats_drawn (card : InstanceId) : (d.drawn p card).stats = d.stats := by
  funext b
  simp [drawn]

@[simp] theorem generator_drawn (card : InstanceId) : (d.drawn p card).generator = d.generator := by
  simp [drawn, modifyZone]

theorem Registers.stats_eq {new : Registration → Prop} (h : d.Registers d' new) :
    d'.stats = d.stats ∧ d'.generator = d.generator := by
  obtain ⟨table, rfl, -⟩ := h
  exact ⟨stats_congr rfl rfl, rfl⟩

theorem modifiers_blank {catalog : Catalog} {seed : UInt64} {first second : PlayerId} {b : Bearer}
    {block : StatBlock} (h : (blank catalog seed first second).stats b = .ok block) :
    ∀ s ∈ block.stats, s.modifiers = [] := by
  have hspecs (specs : List StatSpec) :
      ∀ s ∈ (StatBlock.ofSpecs specs).stats, s.modifiers = [] := by
    simp [StatBlock.ofSpecs, Stat.ofSpec]
  cases b with
  | player p =>
    cases hs : (blank catalog seed first second).seat p with
    | error e => simp [stats, hs, Except.map] at h
    | ok s =>
      simp only [stats, hs, Except.map, Except.ok.injEq] at h
      subst h
      have hmem := (seat_eq_ok hs).1
      simp only [seats, blank, List.mem_cons, List.not_mem_nil, or_false] at hmem
      rcases hmem with rfl | rfl
      · exact hspecs _
      · exact hspecs _
  | card id => cases h

/-- A card that is created is the only new bearer, and it has the stats of
its print. -/
theorem stats_created {owner : PlayerId} {card : CardId} {place : ZoneId} {id : InstanceId}
    (h : d.create owner card place = .ok (id, d')) :
    (∀ b block, d.stats b = .ok block → d'.stats b = .ok block) ∧
      ∀ b block, d'.stats b = .ok block → d.stats b = .ok block ∨
        ∃ spec t, d.catalog.card? card = some spec ∧
          d.catalog.cardType? spec.cardType = some t ∧ b = .card d.nextInstance ∧
            block = .ofSpecs (spec.stats t) := by
  obtain ⟨spec, t, z, hspec, ht, -, -, rfl⟩ := create_eq_ok h
  constructor
  · intro b block hb
    rw [stats_modifyZone]
    cases b with
    | player q => exact hb
    | card id' =>
      cases hc : d.card id' with
      | error e => simp [stats, hc, Except.map] at hb
      | ok c =>
        simp only [stats, hc, Except.map] at hb
        simp only [stats, card_enroll hc, Except.map, hb]
  · intro b block hb
    rw [stats_modifyZone] at hb
    cases b with
    | player q => exact .inl hb
    | card id' =>
      simp only [stats, Duel.card, enroll, List.find?_append] at hb ⊢
      cases hc : d.cards.find? (·.id = id') with
      | some c =>
        rw [hc] at hb
        exact .inl hb
      | none =>
        rw [hc] at hb
        refine .inr ⟨spec, t, hspec, ht, ?_⟩
        by_cases hnew : d.nextInstance = id'
        · simp only [Card.ofSpec, hnew, decide_true, List.find?_cons_of_pos, Option.none_or,
            Except.map, Except.ok.injEq] at hb
          exact ⟨congrArg Bearer.card hnew.symm, hb.symm⟩
        · simp [Card.ofSpec, hnew, Except.map] at hb

theorem stats_create {owner : PlayerId} {card : CardId} {place : ZoneId} {id : InstanceId}
    (h : d.create owner card place = .ok (id, d')) :
    Sheet.Extends d.stats d'.stats ∧ d'.generator = d.generator := by
  obtain ⟨hkept, hfresh⟩ := stats_created h
  refine ⟨⟨hkept, fun b block hb => (hfresh b block hb).imp_right ?_⟩, ?_⟩
  · intro h
    obtain ⟨spec, t, -, -, -, rfl⟩ := h
    simp [StatBlock.ofSpecs, Stat.ofSpec]
  · obtain ⟨spec, t, z, -, -, -, -, rfl⟩ := create_eq_ok h
    simp [modifyZone, enroll]

theorem stats_createAll {owner : PlayerId} {place : ZoneId} {cards : List CardId}
    (h : d.createAll owner place cards = .ok d') :
    Sheet.Extends d.stats d'.stats ∧ d'.generator = d.generator := by
  induction cards generalizing d with
  | nil => cases h; exact ⟨.refl _, rfl⟩
  | cons card rest ih =>
    obtain ⟨⟨id, d₁⟩, hcreate, h⟩ := Except.bind_eq_ok_iff.mp h
    obtain ⟨hstats, hgenerator⟩ := stats_create hcreate
    obtain ⟨hrest, hgenerator'⟩ := ih h
    exact ⟨hstats.trans hrest, hgenerator'.trans hgenerator⟩

/-- The decks that are laid out at the start bring new bearers and leave
the generator at its seed. -/
theorem stats_start {catalog : Catalog} {seed : UInt64} {first second : Entrant}
    (h : start catalog seed first second = .ok d) :
    Sheet.Extends (blank catalog seed first.id second.id).stats d.stats ∧
      d.generator = .ofSeed seed := by
  obtain ⟨-, -, hdeal⟩ := start_eq_ok_iff.mp h
  obtain ⟨d₁, hfirst, hsecond⟩ := Except.bind_eq_ok_iff.mp hdeal
  obtain ⟨hstats, hgenerator⟩ := stats_createAll hfirst
  obtain ⟨hstats', hgenerator'⟩ := stats_createAll hsecond
  exact ⟨hstats.trans hstats', hgenerator'.trans hgenerator⟩

end Duel

/-! ## §2 Ledgers -/

/-- What a scene keeps account of. -/
structure Books where
  journal : List Event
  stats : Sheet
  generator : Random.Generator

/-- The books of a duel on which an action begins. -/
def Duel.books (d : Duel) : Books := ⟨[], d.stats, d.generator⟩

def Scene.books (s : Scene) : Books := ⟨s.journal, s.duel.stats, s.duel.generator⟩

section
variable {ι : Type} (P : ι → Books → Prop) (owe : Bearer → String → StatChange → ι → ι)

/-- What the steps of a chain owe to an invariant of the books. A write
adds to what is owed, and telling the watchers pays it off. -/
structure Postings : Prop where
  draw : ∀ {i B g}, P i B → B.generator.Draws g → P i { B with generator := g }
  call : ∀ {i B} level card kind, P i B →
    P i { B with journal := .dispatched level card kind :: B.journal }
  write : ∀ {i B b name block stat change stat'} {adjustment : Adjustment} {amount : Points}
    {turns : UInt32}, P i B → B.stats b = .ok block → block.get? name = some stat →
      adjustment.apply amount turns stat = .ok (change, stat') →
        P (owe b name change i)
          ⟨.wrote b name change :: B.journal, B.stats.put b (block.put name stat'), B.generator⟩
  swap : ∀ {i B b name change b' name' change'},
    P (owe b name change (owe b' name' change' i)) B →
      P (owe b' name' change' (owe b name change i)) B
  tell : ∀ {i B b name change}, P (owe b name change i) B →
    P i { B with journal := .notified b name change :: B.journal }

/-- What the steps of a duel owe to an invariant of the books: those of a
chain, and new bearers. -/
structure Ledger : Prop extends Postings P owe where
  extend : ∀ {i B V}, P i B → B.stats.Extends V → P i { B with stats := V }

/-- What the ageing of stats owes to an invariant of the books. -/
def Ledger.Ages : Prop :=
  ∀ {i B b block changes block'}, P i B → B.stats b = .ok block →
    block.tick = .ok (changes, block') →
      P (owedAll owe b changes i)
        ⟨(changes.map fun c => .wrote b c.1 c.2).reverse ++ B.journal, B.stats.put b block',
          B.generator⟩

/-- By the invariant, the stats of the books have no other faults. -/
structure Secure (F : Fault → Prop) : Prop where
  read : ∀ {i B b block name cause}, P i B → B.stats b = .ok block →
    block.value? name = .error cause → F cause
  write : ∀ {i B b block name stat cause} {adjustment : Adjustment} {amount : Points}
    {turns : UInt32}, P i B → B.stats b = .ok block → block.get? name = some stat →
      adjustment.apply amount turns stat = .error cause → F cause
  age : ∀ {i B b block cause}, P i B → B.stats b = .ok block → block.tick = .error cause → F cause
  rounds : F .outOfRounds

end

/-- A refusal leaves the books as `R` says, and `F` has the faults that
may end the duel. -/
def Exits.books (R : Books → Prop) (F : Fault → Prop := fun _ => True) : Exits :=
  ⟨fun _ s => R s.books, F⟩

variable {ι : Type} {P : ι → Books → Prop} {owe : Bearer → String → StatChange → ι → ι}
variable {R : Books → Prop} {F : Fault → Prop} {φ : Fixture}

theorem Secure.any : Secure P fun _ => True :=
  ⟨fun _ _ _ => trivial, fun _ _ _ _ => trivial, fun _ _ _ => trivial, trivial⟩

theorem Secure.statValue {i : ι} {s : Scene} {b : Bearer} {name : String} {cause : Fault}
    (S : Secure P F) (h : P i s.books) (hcause : s.duel.statValue? b name = .error cause) :
    F cause := by
  unfold Duel.statValue? at hcause
  split at hcause
  · rename_i block hblock
    exact S.read h hblock hcause
  · cases hcause

/-- Where cards lie is not in the books. -/
theorem Secure.transfers (S : Secure P F) (hφ : φ.Sound) :
    Transfers φ (.books R F) fun i s => P i s.books where
  sound := hφ
  transfer {i s p z card origin destination} hs _ _ _ := by
    have hbooks : Scene.books { s with duel := s.duel.transfer p card origin destination } =
        s.books := by
      simp only [Scene.books, Duel.stats_transfer_eq, Duel.generator_transfer]
    rw [hbooks]
    exact hs.holds
  read hs := S.statValue hs.holds

/-- Invariants of the books are invariants of chains. -/
theorem Postings.upkeep (L : Postings P owe) (S : Secure P F) (hR : ∀ {i B}, P i B → R B)
    (hφ : φ.Sound) (limit : Nat) : Upkeep φ (.books R F) (fun i s => P i s.books) limit owe :=
  have M : Moves φ (.books R F) (fun i (s : Scene) => P i s.books) := (S.transfers hφ).moves
  { M with
    draw := fun {i s g} hs hg => by
      have hstats : Duel.stats { s.duel with generator := g } = s.duel.stats :=
        Duel.stats_congr rfl rfl
      have hdrawn := L.draw hs.holds hg
      simpa only [Scene.books, hstats] using hdrawn
    write := fun {i s b name block stat} adjustment amount turns hs _ hblock hstat => by
      split
      · rename_i change stat' hwrite
        have hwritten := L.write hs.holds hblock hstat hwrite
        simpa only [Scene.books, Duel.stats_putStats_eq hblock, Duel.generator_putStats]
          using hwritten
      · rename_i cause hcause
        exact S.write hs.holds hblock hstat hcause
    swap := L.swap
    notify := fun hfire _ hs => M.wp_notify hfire hs (L.tell hs.holds)
    enter := fun card kind hs _ => L.call _ card kind hs.holds
    leave := fun hs => hs.holds
    leave_refused := fun h => h
    stop := fun _ _ hs => hR hs.holds
    rounds := S.rounds }

theorem Ledger.upkeep (L : Ledger P owe) (hR : ∀ {i B}, P i B → R B) (hφ : φ.Sound) (limit : Nat) :
    Upkeep φ (.books R) (fun i s => P i s.books) limit owe :=
  L.toPostings.upkeep .any hR hφ limit

theorem Ledger.Ages.upkeep (ages : Ledger.Ages P owe) (S : Secure P F) :
    CardDuel.Ages φ (.books R F) (fun i s => P i s.books) owe := by
  intro i s b block hs _ hblock
  split
  · rename_i changes block' htick
    have haged := ages hs.holds hblock htick
    simpa only [Scene.books, Duel.stats_putStats_eq hblock, Duel.generator_putStats] using haged
  · rename_i cause hcause
    exact S.age hs.holds hblock hcause

/-! ## §3 Actions -/

/-- **Every action keeps an invariant of the books**, and has no other
faults than the stats of the books, but for a draw that has no room. That
ageing keeps it is asked only where the action ages stats, and that a new
card does only where the action creates one. -/
theorem Postings.wp_run (L : Postings P owe) (S : Secure P F) (hR : ∀ {i B}, P i B → R B)
    {d : Duel} (hd : d.Sound) {limit rounds level : Nat} {journal : List Event} {i : ι} {a : Action}
    (room : ¬ a.HasRoom → F .capacityOverflow) (ages : a = .endTurn → Ledger.Ages P owe)
    (created : ∀ owner card place id d', a = .create owner card place →
      d.create owner card place = .ok (id, d') → P i ⟨journal, d'.stats, d'.generator⟩)
    (h : P i ⟨journal, d.stats, d.generator⟩) :
    wp (.books R F) (a.run (dispatch limit rounds)) (fun _ s => P i s.books)
      ⟨d, journal, level⟩ := by
  have U : Upkeep d.fixture (.books R F) (fun i s => P i s.books) limit owe :=
    L.upkeep S hR hd.fixture limit
  have hs : Standing d.fixture (fun s => P i s.books) ⟨d, journal, level⟩ := ⟨rfl, hd.laid, h⟩
  have early : (Exits.books R F).Early ⟨d, journal, level⟩ := ⟨fun _ => hR h, fun _ _ _ => hR h⟩
  have hkept (d' : Duel) (hstats : d'.stats = d.stats) (hgenerator : d'.generator = d.generator) :
      P i (Scene.books ⟨d', journal, level⟩) := by
    simpa only [Scene.books, hstats, hgenerator] using h
  have hreg (d' : Duel) (new : Registration → Prop) (hreg : d.Registers d' new) :
      P i (Scene.books ⟨d', journal, level⟩) :=
    hkept d' hreg.stats_eq.1 hreg.stats_eq.2
  cases a with
  | setCurrent player =>
    exact wp_map.mpr (wp_setCurrent early fun _ => hkept _ (Duel.stats_congr rfl rfl) rfl)
  | create owner card place =>
    exact wp_map.mpr (wp_create early fun id d' hcreate => created _ _ _ id d' rfl hcreate)
  | watchPlayer player => exact wp_map.mpr (wp_watchPlayer early fun d' _ _ h' => hreg d' _ h')
  | watchCard card => exact wp_map.mpr (wp_watchCard early fun d' _ _ _ h' => hreg d' _ h')
  | watchDestroy card => exact wp_map.mpr (wp_watchDestroy early fun d' _ _ h' => hreg d' _ h')
  | move player card origin destination selection =>
    refine wp_map.mpr (wp_mono ((S.transfers hd.fixture).wp_moveAction (U.keeps_dispatch rounds)
      hs early ?_) fun _ s' hs' => hs'.holds)
    intro z _ _
    exact hkept _ (Duel.stats_transfer_eq card origin destination) (Duel.generator_transfer ..)
  | draw player count =>
    have hdraw := wp_drawCards (I := fun _ s => P i s.books) player count hd.fixture early
      (fun h => room (Nat.not_le.mpr h)) (fun n s z card hs' _ _ => by
        simpa only [Scene.books, Duel.stats_drawn, Duel.generator_drawn] using hs'.holds) hs
    exact wp_map.mpr (wp_mono hdraw fun _ s' ⟨_, hs'⟩ => hs'.holds)
  | startTurn | endTurn | attackPlayer | attackCard | activate | dispatch =>
    refine wp_mono (?_ : wp _ _ (fun _ => Standing d.fixture fun s => P i s.books) _)
      fun _ s' hs' => hs'.holds
    exact U.wp_run (fun ha => Ledger.Ages.upkeep (@ages ha) S) rfl hs early

theorem Ledger.wp_run (L : Ledger P owe) (hR : ∀ {i B}, P i B → R B) {d : Duel} (hd : d.Sound)
    {limit rounds level : Nat} {journal : List Event} {i : ι} {a : Action}
    (ages : a = .endTurn → Ledger.Ages P owe) (h : P i ⟨journal, d.stats, d.generator⟩) :
    wp (.books R) (a.run (dispatch limit rounds)) (fun _ s => P i s.books) ⟨d, journal, level⟩ := by
  refine L.toPostings.wp_run .any hR hd (fun _ => trivial) ages
    (fun owner card place id d' _ hcreate => ?_) h
  obtain ⟨hstats, hgenerator⟩ := Duel.stats_create hcreate
  rw [hgenerator]
  exact L.extend h hstats

/-! ## §4 Runs -/

/-- **What the steps keep holds of every duel that is reached**, if it
holds of the duels without cards. -/
theorem Reached.books {P : Sheet → Random.Generator → Prop} {log : List Action} {d : Duel}
    (L : Ledger (fun (_ : Unit) B => P B.stats B.generator) fun _ _ _ i => i)
    (ages : Ledger.Ages (fun (_ : Unit) B => P B.stats B.generator) fun _ _ _ i => i)
    (hblank : ∀ catalog seed p q, P (Duel.blank catalog seed p q).stats (.ofSeed seed))
    (h : Reached log d) : P d.stats d.generator := by
  have hperform {log : List Action} {d : Duel} (before : Reached log d) (hd : P d.stats d.generator)
      (limit : Nat) (a : Action) {d' : Duel} (hd' : (d.perform limit a).state? = some d') :
      P d'.stats d'.generator := by
    have hrun : wp (.books fun B => P B.stats B.generator) (a.run (dispatch limit (limit + 1)))
        (fun _ s => P s.duel.stats s.duel.generator) ⟨d, [], 0⟩ :=
      L.wp_run (i := ()) id before.sound (fun _ => @ages) hd
    obtain ⟨s, rfl, ⟨_, hs⟩ | ⟨_, hs⟩⟩ := state_of_wp hrun hd'
    · exact hs
    · exact hs
  induction h with
  | start h =>
    obtain ⟨hstats, hgenerator⟩ := Duel.stats_start h
    rw [hgenerator]
    exact L.extend (i := ()) (B := ⟨[], _, _⟩) (hblank _ _ _ _) hstats
  | done before h ih => exact hperform before ih _ _ (by rw [h]; rfl)
  | refused before h ih => exact hperform before ih _ _ (by rw [h]; rfl)

end CardDuel
