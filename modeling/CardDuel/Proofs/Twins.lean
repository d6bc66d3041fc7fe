/-
CardDuel.Proofs.Twins — what the future of a duel depends on.

A snapshot does not have the watchers that are registered, and these
decide what a later write sets off. They are all that is missing: two
duels on the same catalog that have the same snapshot, and the same
watchers on every stat, have the same future. It does not matter in what
order watchers of different stats were registered.

  §1 Tables    — tables with the same watchers on every stat.
  §2 Twins     — no action tells twins apart.
  §3 Snapshots — duels with one snapshot are twins, if their watchers are
                 the same.
-/
import CardDuel.Proofs.Limit
import CardDuel.Proofs.Simulation
import CardDuel.Proofs.Snapshots

namespace CardDuel

open Engine Play

/-! ## §1 Tables -/

namespace WatchTable

variable {t t' : WatchTable} {b : Bearer} {stat : String} {w : Watcher}

/-- A registration adds the watcher to those of its stat, if it is not
one of them. -/
theorem on_register (b' : Bearer) (stat' : String) :
    (t.register b stat w).on b' stat' =
      if b = b' ∧ stat = stat' ∧ w ∉ t.on b stat then t.on b' stat' ++ [w] else t.on b' stat' := by
  unfold register
  by_cases hmem : ⟨b, stat, w⟩ ∈ t.entries
  · simp [mem_on, hmem]
  · by_cases hon : b = b' ∧ stat = stat'
    · obtain ⟨rfl, rfl⟩ := hon
      rw [if_neg hmem, if_pos ⟨rfl, rfl, mt mem_on.mp hmem⟩]
      simp [on]
    · rw [if_neg hmem, if_neg fun h => hon ⟨h.1, h.2.1⟩]
      simp [on, hon]

/-- Every stat has the same watchers in both tables. -/
def Same (t t' : WatchTable) : Prop := ∀ b stat, t'.on b stat = t.on b stat

/-- Registrations on two bearers may come in either order. -/
theorem Same.swap {r r' : Registration} {l l' : List Registration} (h : r.bearer ≠ r'.bearer) :
    Same ⟨l ++ r :: r' :: l'⟩ ⟨l ++ r' :: r :: l'⟩ := by
  intro b stat
  by_cases hr : r.bearer = b
  · have hr' : r'.bearer ≠ b := fun heq => h (hr.trans heq.symm)
    simp [on, List.filter_cons, hr']
  · simp [on, List.filter_cons, hr]

theorem Same.register (h : t.Same t') : (t.register b stat w).Same (t'.register b stat w) := by
  intro b' stat'
  rw [on_register, on_register, h, h]

theorem Same.registers {α : Type} {bearer : Bearer} {name : α → String} {watcher : α → Watcher}
    {l : List α} (h : t.Same t') :
    (l.foldl (fun t a => t.register bearer (name a) (watcher a)) t).Same
      (l.foldl (fun t a => t.register bearer (name a) (watcher a)) t') := by
  induction l generalizing t t' with
  | nil => exact h
  | cons a rest ih => exact ih h.register

end WatchTable

/-! ## §2 Twins -/

namespace Duel

variable {a b d d' : Duel}

/-- The second duel is the first one with another table of the same
watchers. -/
structure Twin (a b : Duel) : Prop where
  rest : b = a.reset a.catalog b.watchers
  watchers : a.watchers.Same b.watchers

theorem Twin.of_same {w : WatchTable} (h : a.watchers.Same w) : a.Twin (a.reset a.catalog w) :=
  ⟨rfl, h⟩

theorem Twin.catalog (h : a.Twin b) : b.catalog = a.catalog := by rw [h.rest]; rfl

theorem Twin.snapshotBytes (h : a.Twin b) : b.snapshotBytes = a.snapshotBytes := by
  rw [h.rest]; rfl

theorem likeness_twin : Likeness (fun _ => True) Twin where
  plain _ := trivial
  differ h := ⟨_, _, h.rest⟩
  update {a b f} h hf := by
    obtain ⟨w, rfl⟩ : ∃ w, b = a.reset a.catalog w := ⟨_, h.rest⟩
    obtain ⟨hcatalog, hwatchers⟩ := hf.kept a
    rw [hf.reset, ← hcatalog]
    refine .of_same ?_
    rw [hwatchers]
    exact h.watchers
  rules h := by rw [h.catalog]
  prints h := by rw [h.catalog]; exact .refl _
  after t h := by rw [h.catalog]
  triggered id _ h := by rw [h.rest]; rfl
  activated id h := by rw [h.rest]; rfl

end Duel

open Duel (Twin likeness_twin)

theorem sim_checkDestroy {fire : Dispatch} (hfire : Calls (fun _ => True) Twin fire) (player : PlayerId)
    (card : InstanceId) (index : Nat) :
    Sim Twin Eq (checkDestroy fire player card index) (checkDestroy fire player card index) := by
  refine (likeness_twin.find fun _ _ _ => rfl).bind fun c => Sim.duel.bindRel fun d d' hD => ?_
  rw [hD.catalog]
  split
  · exact .pure rfl
  · refine (Sim.sound _).bind fun value => ?_
    cases value with
    | none => exact .pure rfl
    | some value =>
      dsimp only
      split
      · refine (likeness_twin.find fun _ _ _ => rfl).bind fun board => ?_
        split
        · exact likeness_twin.move hfire ..
        · exact .pure rfl
      · exact .pure rfl

/-- **No chain tells twins apart.** -/
theorem mirror_twin : Mirror (fun _ => True) Twin where
  toLikeness := likeness_twin
  notify b stat change hfire := by
    refine (Sim.note _).bind fun _ => Sim.duel.bindRel fun d d' hD => ?_
    rw [hD.watchers]
    refine .forM (fun w => ?_) _
    cases w with
    | propagate player subject => exact likeness_twin.propagate hfire (fun _ => trivial) ..
    | destroy player card index => exact sim_checkDestroy hfire ..

namespace Duel

variable {a b d : Duel} {limit : Nat}

/-- Twins stay twins when watchers are registered. -/
theorem Twin.registers (h : a.Twin b) (f : WatchTable → WatchTable)
    (hf : ∀ t t', t.Same t' → (f t).Same (f t')) :
    Twin { a with watchers := f a.watchers } { b with watchers := f b.watchers } where
  rest := by rw [h.rest]; rfl
  watchers := hf _ _ h.watchers

theorem sim_registers (f : WatchTable → WatchTable) (hf : ∀ t t', t.Same t' → (f t).Same (f t')) :
    Sim Twin Eq (modifyDuel fun d => { d with watchers := f d.watchers })
      (modifyDuel fun d => { d with watchers := f d.watchers }) :=
  Sim.modifyDuel fun _ _ hD => hD.registers f hf

theorem covers_twin (action : Action) : Covers (fun _ => True) Twin action := by
  cases action with
  | watchPlayer player =>
    exact (likeness_twin.find fun _ _ _ => rfl).bind fun s =>
      sim_registers (registerAll · _ _ _) fun _ _ h => h.registers
  | watchCard card =>
    exact (likeness_twin.find fun _ _ _ => rfl).bind fun c =>
      sim_registers (registerAll · _ _ _) fun _ _ h => h.registers
  | watchDestroy card =>
    refine (likeness_twin.find fun _ _ _ => rfl).bind fun c => ?_
    refine (Sim.find fun d d' hD => by rw [hD.catalog]).bind fun t => ?_
    exact sim_registers (fun table => t.destroyConditions.zipIdx.foldl _ table)
      fun _ _ h => h.registers
  | _ => trivial

/-- **No action tells twins apart**, nor do lists of actions: step by step
the replies or errors are the same, and so are the snapshots. -/
theorem Twin.outcomes (h : a.Twin b) (limit : Nat) (actions : List Action) :
    (b.outcomes limit actions).map (·.mapState Duel.snapshotBytes) =
      (a.outcomes limit actions).map (·.mapState Duel.snapshotBytes) :=
  outcomes_congr limit _ _ mirror_twin (fun _ _ h => h.snapshotBytes) (fun a _ => covers_twin a) h

/-! ## §3 Snapshots -/

/-- All that a snapshot is of, with the cards as they are kept. -/
def image (d : Duel) : Snapshot := ⟨d.current, d.nextInstance, d.generator, d.seats, d.cards⟩

/-- The cards are kept in the order of their numbers. -/
theorem Sound.snapshot_eq_image (hd : d.Sound) : d.snapshot = d.image := by
  have hsorted : (d.cards.map Card.id).Pairwise fun x y => x.number ≤ y.number := by
    rw [hd.ids_eq.2, List.pairwise_map]
    exact List.pairwise_le_range' 1
  rw [List.pairwise_map] at hsorted
  have hcards : (d.cards.mergeSort fun a b => a.id.number ≤ b.id.number) = d.cards :=
    List.mergeSort_of_pairwise (by simpa using hsorted)
  rw [snapshot, hcards, image]

theorem Sound.snapshotBytes_eq (hd : d.Sound) : d.snapshotBytes = Binary.bytes d.image :=
  congrArg Binary.bytes hd.snapshot_eq_image

/-- Duels on one catalog that have one snapshot are twins, if they have
the same watchers. -/
theorem Sound.twin (ha : a.Sound) (hb : b.Sound) (hcatalog : b.catalog = a.catalog)
    (h : a.snapshot = b.snapshot) (hwatchers : a.watchers.Same b.watchers) : a.Twin b := by
  rw [ha.snapshot_eq_image, hb.snapshot_eq_image] at h
  simp only [image, seats, Snapshot.mk.injEq, List.cons.injEq, and_true] at h
  obtain ⟨hcurrent, hnext, hgenerator, ⟨hfirst, hsecond⟩, hcards⟩ := h
  refine ⟨?_, hwatchers⟩
  rw [reset, ← hcatalog, hcurrent, hnext, hgenerator, hcards, hfirst, hsecond]

end Duel

/-- **Equal snapshots and equal watchers mean equal futures.** Take two
duels that are reached on the same catalog and have the same snapshot
bytes, and on each stat the same watchers. Whatever actions follow, under
whatever limit, they end alike on both duels, step by step: with the same
replies, the same errors and again the same snapshot bytes. -/
theorem same_future {log log' : List Action} {a b : Duel} (ha : Reached log a)
    (hb : Reached log' b) (hcatalog : b.catalog = a.catalog) (hfits : a.Fits) (hfits' : b.Fits)
    (hbytes : a.snapshotBytes = b.snapshotBytes) (hwatchers : a.watchers.Same b.watchers)
    (limit : Nat) (actions : List Action) :
    (b.outcomes limit actions).map (·.mapState Duel.snapshotBytes) =
      (a.outcomes limit actions).map (·.mapState Duel.snapshotBytes) := by
  have hsnapshot := ha.snapshot_eq hb hfits hfits' hbytes
  exact (ha.sound.twin hb.sound hcatalog hsnapshot hwatchers).outcomes limit actions

/-- The value with which a computation is done. -/
def Outcome.reply? {σ α : Type} : Outcome σ α → Option α
  | done value _ => some value
  | _ => none

@[simp] theorem Outcome.reply?_mapState {σ τ α : Type} (f : σ → τ) (o : Outcome σ α) :
    (o.mapState f).reply? = o.reply? := by
  cases o <;> rfl

/-- The numbers of the duel fit, and the bytes of its snapshot are these. -/
def Duel.Shows (d : Duel) (image : List UInt8) : Prop :=
  d.nextInstance.number < 2 ^ 32 ∧ d.generator.calls < 2 ^ 64 ∧ image.length < 2 ^ 64 ∧
    Binary.bytes d.image = image

instance (d : Duel) (image : List UInt8) : Decidable (d.Shows image) :=
  inferInstanceAs (Decidable (_ ∧ _ ∧ _ ∧ _))

theorem Duel.Shows.fits {d : Duel} {image : List UInt8} (h : d.Shows image) (hd : d.Sound) :
    d.Fits ∧ d.snapshotBytes = image := by
  obtain ⟨hnext, hcalls, hlength, himage⟩ := h
  have hbytes : d.snapshotBytes = image := hd.snapshotBytes_eq.trans himage
  exact ⟨⟨hnext, hcalls, hbytes ▸ hlength⟩, hbytes⟩

/-- Two runs from one start can be found by carrying them out. -/
theorem Reached.exists_both_of_performAll {limit : Nat} {catalog : Catalog} {seed : UInt64}
    {first second : Entrant} {actions actions' : List Action} {p : Duel → Duel → Prop}
    (h : ∃ a ∈ (Duel.start catalog seed first second).toOption.bind (Duel.performAll limit actions),
      ∃ b ∈ (Duel.start catalog seed first second).toOption.bind (Duel.performAll limit actions'),
        p a b) :
    ∃ a b, Reached actions.reverse a ∧ Reached actions'.reverse b ∧ p a b := by
  obtain ⟨a, ha, b, hb, hp⟩ := exists_of_performAll h
  obtain ⟨b', hb', rfl⟩ := exists_of_performAll (p := (b = ·)) ⟨b, hb, rfl⟩
  exact ⟨a, b, ha, hb', hp⟩

/-- Each player has a plain creature on the board. -/
def encounter : List Action :=
  [.move ⟨1⟩ ⟨1⟩ Starter.deck Starter.board {}, .move ⟨2⟩ ⟨2⟩ Starter.deck Starter.board {}]

/-- The watchers of the two creatures may be registered in either order. -/
theorem same_future_in_either_order :
    ∃ log log' a b, Reached log a ∧ Reached log' b ∧ a.watchers ≠ b.watchers ∧
      ∀ limit actions, (b.outcomes limit actions).map (·.mapState Duel.snapshotBytes) =
        (a.outcomes limit actions).map (·.mapState Duel.snapshotBytes) := by
  let r : Registration := ⟨.card ⟨1⟩, "Life", .destroy ⟨1⟩ ⟨1⟩ 0⟩
  let r' : Registration := ⟨.card ⟨2⟩, "Life", .destroy ⟨2⟩ ⟨2⟩ 0⟩
  obtain ⟨a, b, ha, hb, hcatalog, hshows, hshows', hwatchers, hwatchers'⟩ :=
    @Reached.exists_both_of_performAll 64 (Starter.catalog {}) 7 ⟨⟨1⟩, [⟨1⟩]⟩ ⟨⟨2⟩, [⟨1⟩]⟩
      (encounter ++ [.watchDestroy ⟨1⟩, .watchDestroy ⟨2⟩])
      (encounter ++ [.watchDestroy ⟨2⟩, .watchDestroy ⟨1⟩])
      (fun a b => b.catalog = a.catalog ∧ a.Shows (Binary.bytes a.image) ∧
        b.Shows (Binary.bytes a.image) ∧ a.watchers = ⟨[r, r']⟩ ∧ b.watchers = ⟨[r', r]⟩)
      (by decide +kernel)
  obtain ⟨hfits, hbytes⟩ := hshows.fits ha.sound
  obtain ⟨hfits', hbytes'⟩ := hshows'.fits hb.sound
  refine ⟨_, _, a, b, ha, hb, ?_, fun limit actions => ?_⟩
  · rw [hwatchers, hwatchers']
    decide
  · refine same_future ha hb hcatalog hfits hfits' (hbytes.trans hbytes'.symm) ?_ limit actions
    rw [hwatchers, hwatchers']
    exact WatchTable.Same.swap (l := []) (by decide)

/-- **Equal snapshots are not enough.** A fight leaves both creatures
without life. If no watcher looks, they stay on the board, and one of
them can attack; on a duel with the same snapshot, on which its destroy
condition is watched, it cannot. -/
theorem futures_differ :
    ∃ log log' a b, Reached log a ∧ Reached log' b ∧ b.catalog = a.catalog ∧ a.Fits ∧ b.Fits ∧
      a.snapshotBytes = b.snapshotBytes ∧
        (b.outcomes 64 [.attackCard ⟨1⟩ ⟨1⟩ ⟨2⟩, .attackPlayer ⟨1⟩ ⟨1⟩]).map
            (·.mapState Duel.snapshotBytes) ≠
          (a.outcomes 64 [.attackCard ⟨1⟩ ⟨1⟩ ⟨2⟩, .attackPlayer ⟨1⟩ ⟨1⟩]).map
            (·.mapState Duel.snapshotBytes) := by
  let actions : List Action := [.attackCard ⟨1⟩ ⟨1⟩ ⟨2⟩, .attackPlayer ⟨1⟩ ⟨1⟩]
  obtain ⟨a, b, ha, hb, hcatalog, hshows, hshows', hreplies, hreplies'⟩ :=
    @Reached.exists_both_of_performAll 64 (Starter.catalog {}) 7 ⟨⟨1⟩, [⟨1⟩]⟩ ⟨⟨2⟩, [⟨1⟩]⟩
      encounter (encounter ++ [.watchDestroy ⟨1⟩])
      (fun a b => b.catalog = a.catalog ∧ a.Shows (Binary.bytes a.image) ∧
        b.Shows (Binary.bytes a.image) ∧
        (a.outcomes 64 actions).map Outcome.reply? = [some .nothing, some .nothing] ∧
        (b.outcomes 64 actions).map Outcome.reply? = [some .nothing, none])
      (by decide +kernel)
  obtain ⟨hfits, hbytes⟩ := hshows.fits ha.sound
  obtain ⟨hfits', hbytes'⟩ := hshows'.fits hb.sound
  refine ⟨_, _, a, b, ha, hb, hcatalog, hfits, hfits', hbytes.trans hbytes'.symm, fun heq => ?_⟩
  have hsame := congrArg (List.map Outcome.reply?) heq
  simp only [List.map_map, Function.comp_def, Outcome.reply?_mapState] at hsame
  rw [hreplies, hreplies'] at hsame
  cases hsame

end CardDuel
