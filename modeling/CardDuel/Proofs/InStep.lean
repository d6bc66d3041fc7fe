/-
CardDuel.Proofs.InStep — the same computation with two ways to call up
abilities.

The computations of `Play.Chain` take the one that calls up abilities as
an argument. `InStep fire fire' m m'` says that `m` and `m'` go in step:
they do the same, but `m` calls `fire` where `m'` calls `fire'`. It is a
derivation with one constructor for each way to build a computation, so
what holds of the steps holds of every chain by induction on it; with
`fire` on both sides it is the shape of a single computation.

  §1 Derivations — `InStep`, and its rules for the two loops.
  §2 Faults      — no stat has the fault of a recursion cut short.
  §3 Chains      — every computation of a chain goes in step with itself
                   under another call.
  §4 Actions     — and so does every action.
  §5 Induction   — what calls keep, chains keep (`InStep.keeps`); where
                   one call follows another, so do chains
                   (`InStep.follows`).
-/
import CardDuel.Play.Action
import CardDuel.Proofs.Calculus

namespace CardDuel

open Engine

/-! ## §1 Derivations -/

/-- The computations do the same, step by step, but where the first calls
`fire` the second calls `fire'`. -/
inductive InStep (fire fire' : Play.Dispatch) : {α : Type} → Engine α → Engine α → Prop where
  | pure {α : Type} (a : α) : InStep fire fire' (pure a) (pure a)
  | bind {α β : Type} {m m' : Engine α} {f f' : α → Engine β} (first : InStep fire fire' m m')
      (next : ∀ a, InStep fire fire' (f a) (f' a)) : InStep fire fire' (m >>= f) (m' >>= f')
  | duel : InStep fire fire' duel duel
  | modifyDuel (f : Duel → Duel) : InStep fire fire' (modifyDuel f) (modifyDuel f)
  | note (e : Event) (h : ∀ level card kind, e ≠ .dispatched level card kind) :
      InStep fire fire' (note e) (note e)
  | refuse {α : Type} (e : DuelError) : InStep fire fire' (refuse e : Engine α) (refuse e)
  | find {α : Type} (look : Duel → Except LookupError α) :
      InStep fire fire' (find look) (find look)
  | sound {α : Type} (x : Except Fault α) (h : x ≠ .error .outOfRounds) :
      InStep fire fire' (sound x) (sound x)
  | draw {α : Type} (roll : Random.Generator → α × Random.Generator) :
      InStep fire fire' (draw roll) (draw roll)
  | call (player : PlayerId) (card : InstanceId) (kind : TriggerKind)
      (accepts : Trigger → Bool) (selection : Selection) :
      InStep fire fire' (fire player card kind accepts selection)
        (fire' player card kind accepts selection)

namespace InStep

variable {fire fire' : Play.Dispatch} {α β : Type}

/-- Another view of the value takes no step. -/
theorem map {m m' : Engine α} (f : α → β) (h : InStep fire fire' m m') :
    InStep fire fire' (f <$> m) (f <$> m') := by
  rw [← bind_pure_comp, ← bind_pure_comp]
  exact bind h fun a => pure (f a)

/-- A loop with a value goes in step if its rounds do. -/
theorem foldlM {f f' : β → α → Engine β} (h : ∀ b a, InStep fire fire' (f b a) (f' b a)) :
    ∀ (l : List α) (b : β), InStep fire fire' (l.foldlM f b) (l.foldlM f' b)
  | [], b => pure b
  | a :: rest, b => by
    rw [List.foldlM_cons, List.foldlM_cons]
    exact bind (h b a) fun b' => foldlM h rest b'

/-- A loop without a value goes in step if its rounds do. -/
theorem forM {f f' : α → Engine Unit} (h : ∀ a, InStep fire fire' (f a) (f' a)) :
    ∀ l : List α, InStep fire fire' (l.forM f) (l.forM f')
  | [] => pure ()
  | a :: rest => bind (h a) fun _ => forM h rest

end InStep

/-! ## §2 Faults -/

/-- The computation does not run out of rounds. -/
def Finishes {α : Type} (x : Except Fault α) : Prop := x ≠ .error .outOfRounds

namespace Finishes

variable {α β : Type}

/-! The rules of sequencing come first, then one lemma for each
computation on stats. These have faults of their own, for bounds that are
out of order and for modifiers without turns, and pass no other on. -/

/-- A value is no fault. -/
theorem ok (a : α) : Finishes (.ok a) := by simp [Finishes]

/-- A sequence does not run out of rounds if its parts do not. -/
theorem bind {x : Except Fault α} {f : α → Except Fault β} (hx : Finishes x)
    (hf : ∀ a, Finishes (f a)) : Finishes (x >>= f) := by
  cases x with
  | ok a => exact hf a
  | error cause => simpa [Finishes, Except.bind, Bind.bind] using hx

/-- Nor does a list of computations, one after the other. -/
theorem mapM {f : α → Except Fault β} (hf : ∀ a, Finishes (f a)) :
    ∀ l : List α, Finishes (l.mapM f)
  | [] => by rw [List.mapM_nil]; exact ok []
  | a :: rest => by
    rw [List.mapM_cons]
    exact bind (hf a) fun b => bind (mapM hf rest) fun _ => ok _

/-- Reading a stat takes no rounds. -/
theorem effective (s : Stat) : Finishes s.effective := by
  unfold Stat.effective
  split <;> simp [Finishes]

/-- A write reads the stat before and after. -/
theorem replace (before after : Stat) : Finishes (before.replace after) :=
  bind (effective before) fun _ => bind (effective after) fun _ => ok _

/-- Every adjustment of a stat is a write. -/
theorem apply (a : Adjustment) (amount : Points) (turns : UInt32) (s : Stat) :
    Finishes (a.apply amount turns s) := by
  unfold Adjustment.apply
  cases a with
  | set => exact replace _ _
  | increase => dsimp only; split <;> exact replace _ _
  | decrease => dsimp only; split <;> exact replace _ _

/-- Ageing reads the stat and ages its modifiers one by one. -/
theorem tick (s : Stat) : Finishes s.tick := by
  unfold Stat.tick
  split
  · exact ok _
  · refine bind (effective s) fun _ => bind (mapM (fun m => ?_) _) fun _ => ?_
    · unfold Modifier.age
      split <;> simp [Finishes]
    · dsimp only
      split
      · exact ok _
      · exact bind (effective _) fun _ => ok _

/-- The stats of a list are aged one by one. -/
theorem tickAll : ∀ stats : List Stat, Finishes (StatBlock.tickAll stats)
  | [] => ok _
  | s :: rest => by
    refine bind (tick s) fun t => bind (tickAll rest) fun _ => ?_
    obtain ⟨change, _⟩ := t
    cases change <;> exact ok _

/-- Ageing a block ages its list of stats. -/
theorem tickBlock (b : StatBlock) : Finishes b.tick := bind (tickAll _) fun _ => ok _

/-- Reading a stat by its name takes no rounds, whether there is one or not. -/
theorem value? (b : StatBlock) (name : String) : Finishes (b.value? name) := by
  unfold StatBlock.value?
  split
  · rename_i s _
    cases h : s.effective with
    | ok _ => exact ok _
    | error cause => simpa [Finishes, Except.map, h] using effective s
  · exact ok _

/-- Conditions are checked by reading the stats that they name. -/
theorem satisfies (d : Duel) (bearer : Bearer) :
    ∀ conditions : List Condition, Finishes (Play.satisfies d bearer conditions)
  | [] => ok _
  | c :: rest => by
    refine bind ?_ fun v => ?_
    · unfold Duel.statValue?
      split
      · exact value? _ _
      · exact ok _
    · cases v with
      | none => exact ok _
      | some value =>
        dsimp only
        split
        · exact satisfies d bearer rest
        · exact ok _

/-- Candidates are checked one by one. -/
theorem keepSatisfying (d : Duel) (bearer : α → Bearer) (conditions : List Condition) :
    ∀ l : List α, Finishes (Play.keepSatisfying d bearer conditions l)
  | [] => ok _
  | a :: rest =>
    bind (satisfies d (bearer a) conditions) fun _ =>
      bind (keepSatisfying d bearer conditions rest) fun _ => ok _

/-- A list that cannot be made is another fault. -/
theorem makeRoom (count : Nat) : Finishes (Play.makeRoom count) := by
  unfold Play.makeRoom
  split <;> simp [Finishes]

end Finishes

/-! ## §3 Chains -/

namespace InStep

open Play

variable {fire fire' : Dispatch}

/-! One lemma for each computation of `Play.Chain`, in the order in which
they call each other; each follows the text of the computation. Those with
the same computation on both sides call up no abilities by themselves. -/

/-- Sending a card on to the zone after its triggers calls up nothing. -/
theorem relocate (player : PlayerId) (card : InstanceId) (t : CardTypeId) (destination : ZoneId) :
    InStep fire fire' (relocate player card t destination)
      (relocate player card t destination) := by
  refine bind duel fun d => ?_
  split
  · exact pure ()
  · split
    · exact pure ()
    · refine bind (find _) fun z => ?_
      split
      · exact bind (find _) fun _ => modifyDuel _
      · exact pure ()

/-- A move calls up what answers to leaving, then what answers to
entering. -/
theorem move (player : PlayerId) (card : InstanceId) (origin destination : ZoneId)
    (selection : Selection) :
    InStep fire fire' (move fire player card origin destination selection)
      (move fire' player card origin destination selection) := by
  refine bind (find _) fun c => bind (find _) fun z => ?_
  split
  · exact bind (find _) fun _ => bind (modifyDuel _) fun _ =>
      bind (call ..) fun _ => bind (call ..) fun _ => relocate ..
  · exact refuse _

/-- A walk calls up the abilities of card after card. -/
theorem walk (player : PlayerId) (kind : TriggerKind) (accepts : Trigger → Bool) :
    InStep fire fire' (walk fire player kind accepts) (walk fire' player kind accepts) := by
  refine bind (bind (find _) fun s => foldlM (fun t zone => ?_) _ _) fun _ => pure _
  refine bind (find _) fun z => foldlM (fun t card => ?_) _ _
  refine bind (find _) fun z' => ?_
  split
  · exact bind (call ..) fun _ => pure _
  · exact pure _

/-- A change is put to the cards in three walks. -/
theorem propagate (player : PlayerId) (subject : Subject) (stat : String) (change : StatChange) :
    InStep fire fire' (propagate fire player subject stat change)
      (propagate fire' player subject stat change) :=
  bind (walk ..) fun _ => bind (walk ..) fun _ => bind (walk ..) fun _ => pure _

/-- A card that meets a destroy condition is moved off the board. -/
theorem checkDestroy (player : PlayerId) (card : InstanceId) (index : Nat) :
    InStep fire fire' (checkDestroy fire player card index)
      (checkDestroy fire' player card index) := by
  refine bind (find _) fun c => bind duel fun d => ?_
  split
  · exact pure ()
  · refine bind (sound _ (Finishes.value? _ _)) fun v => ?_
    cases v with
    | none => exact pure ()
    | some value =>
      dsimp only
      split
      · refine bind (find _) fun board => ?_
        split
        · exact move ..
        · exact pure ()
      · exact pure ()

/-- The watchers of a stat are told one after the other. -/
theorem notify (bearer : Bearer) (stat : String) (change : StatChange) :
    InStep fire fire' (notify fire bearer stat change) (notify fire' bearer stat change) := by
  refine bind (note _ (by simp)) fun _ => bind duel fun d => forM (fun w => ?_) _
  cases w with
  | propagate player subject => exact propagate ..
  | destroy player card index => exact checkDestroy ..

/-- A write of a stat calls up nothing, if it does not run out of rounds. -/
theorem writeStat (bearer : Bearer) (stat : String)
    (write : Stat → Except Fault (StatChange × Stat)) (h : ∀ s, Finishes (write s)) :
    InStep fire fire' (writeStat bearer stat write) (writeStat bearer stat write) := by
  refine bind (find _) fun block => ?_
  split
  · exact pure none
  · exact bind (sound _ (h _)) fun _ => bind (modifyDuel _) fun _ =>
      bind (note _ (by simp)) fun _ => pure _

/-- Nor does an adjustment by an amount that is drawn. -/
theorem adjustStat (bearer : Bearer) (stat : String) (adjustment : Adjustment) (amount : Amount)
    (turns : UInt32) :
    InStep fire fire' (adjustStat bearer stat adjustment amount turns)
      (adjustStat bearer stat adjustment amount turns) := by
  refine bind (find _) fun block => ?_
  split
  · exact bind (draw _) fun _ => writeStat _ _ _ fun s => Finishes.apply _ _ _ _
  · exact pure none

/-- The watchers are told of what was written. -/
theorem applyAndNotify (bearer : Bearer) (stat : String)
    {write write' : Engine (Option StatChange)} (before : Bool)
    (h : InStep fire fire' write write') :
    InStep fire fire' (applyAndNotify fire bearer stat write before)
      (applyAndNotify fire' bearer stat write' before) := by
  refine bind h fun change => ?_
  cases change with
  | none => exact pure before
  | some change => exact bind (notify ..) fun _ => pure true

/-- A card that lies in the zone is moved, every other stays. -/
theorem moveIfThere (zone destination : ZoneId) (before : Bool) (card : InstanceId) :
    InStep fire fire' (moveIfThere fire zone destination before card)
      (moveIfThere fire' zone destination before card) := by
  refine bind duel fun d => ?_
  split
  · split
    · exact bind (move ..) fun _ => pure true
    · exact pure before
  · exact pure before

/-- Choosing targets calls up nothing. -/
theorem targets {α : Type} (bearer : α → Bearer) (conditions : List Condition) (pool : Pool α) :
    InStep fire fire' (pool.targets bearer conditions) (pool.targets bearer conditions) := by
  refine bind ?_ fun chosen => bind duel fun d => sound _ (Finishes.keepSatisfying _ _ _ _)
  cases pool with
  | every members => exact pure members
  | oneOf members => exact bind (draw _) fun _ => pure _

/-- An effect is applied to its targets one by one. -/
theorem resolve (acting : PlayerId) (source : InstanceId) (effect : Effect) (target : Target)
    (selection : Selection) :
    InStep fire fire' (resolve fire acting source effect target selection)
      (resolve fire' acting source effect target selection) := by
  refine bind duel fun d => ?_
  split
  · split
    · split
      · exact pure false
      · exact bind (targets ..) fun _ =>
          foldlM (fun applied _ => applyAndNotify _ _ applied (adjustStat ..)) _ _
    · split
      · exact pure false
      · exact bind (targets ..) fun _ =>
          foldlM (fun applied _ => applyAndNotify _ _ applied (adjustStat ..)) _ _
    · split
      · exact pure false
      · exact bind (targets ..) fun _ => foldlM (fun _ _ => moveIfThere ..) _ _
    · exact pure false
  · exact pure false

/-- The body of a call: the abilities take effect one by one. -/
theorem resolveAll (acting : PlayerId) (source : InstanceId) (selection : Selection)
    (abilities : List TriggeredAbility) :
    InStep fire fire' (resolveAll fire acting source selection abilities)
      (resolveAll fire' acting source selection abilities) := by
  refine foldlM (fun resolved a => bind (resolve ..) fun any => ?_) _ _
  split <;> exact pure _

/-! ## §4 Actions -/

/-! First the parts of combat, of the end of a turn and of draws, then the
actions themselves. -/

/-- Reading the attack of a card calls up nothing. -/
theorem attackOf (card : InstanceId) : InStep fire fire' (attackOf card) (attackOf card) :=
  bind (find _) fun _ => bind duel fun _ => bind (sound _ (Finishes.value? _ _)) fun _ => pure _

/-- Nor does the check that it lies on the board. -/
theorem requireOnBoard (player : PlayerId) (card : InstanceId) :
    InStep fire fire' (requireOnBoard player card) (requireOnBoard player card) := by
  refine bind duel fun d => bind (find _) fun board => ?_
  split
  · exact pure ()
  · exact refuse _

/-- A blow is a write of a stat. -/
theorem damage (bearer : Bearer) (stat : String) (amount : Points) :
    InStep fire fire' (damage bearer stat amount) (damage bearer stat amount) :=
  writeStat _ _ _ fun _ => Finishes.replace _ _

/-- The watchers are told of a blow, if it struck a stat. -/
theorem notifyBlow (bearer : Bearer) (life : String) (blow : Option StatChange) :
    InStep fire fire' (notifyBlow fire bearer life blow) (notifyBlow fire' bearer life blow) := by
  cases blow with
  | none => exact pure ()
  | some change => exact notify ..

/-- Ageing writes the stats of a bearer, and tells nobody yet. -/
theorem ageStats (bearer : Bearer) : InStep fire fire' (ageStats bearer) (ageStats bearer) :=
  bind (find _) fun _ => bind (sound _ (Finishes.tickBlock _)) fun _ =>
    bind (modifyDuel _) fun _ => bind (forM (fun _ => note _ (by simp)) _) fun _ => pure _

/-- At the end of a turn bearers are aged one by one, each before its
watchers are told. -/
theorem expire (player : PlayerId) :
    InStep fire fire' (expire fire player) (expire fire' player) :=
  bind (find _) fun _ => forM (fun bearer =>
    bind (ageStats bearer) fun _ => forM (fun _ => notify ..) _) _

/-- Draws call up nothing, by induction on their number. -/
theorem drawLoop (player : PlayerId) :
    ∀ count, InStep fire fire' (drawLoop player count) (drawLoop player count)
  | 0 => pure []
  | count + 1 => by
    refine bind duel fun d => bind (find _) fun deck => ?_
    split
    · exact pure []
    · exact bind (modifyDuel _) fun _ => bind (modifyDuel _) fun _ =>
        bind (drawLoop player count) fun _ => pure _

/-- An activated ability takes effect as a triggered one does. -/
theorem activate (player : PlayerId) (card : InstanceId) (index : Nat) (selection : Selection) :
    InStep fire fire' (activate fire player card index selection)
      (activate fire' player card index selection) := by
  refine bind (find _) fun _ => bind (find _) fun spec => ?_
  split
  · exact resolve ..
  · exact refuse _

/-- **Every action goes in step with itself** under another call. -/
theorem run (a : Action) : InStep fire fire' (a.run fire) (a.run fire') := by
  cases a with
  | startTurn => exact map _ (bind duel fun _ => walk ..)
  | endTurn =>
    exact map _ (bind duel fun _ => bind (walk ..) fun _ => bind (expire _) fun _ => pure _)
  | setCurrent player => exact map _ (bind (find _) fun _ => modifyDuel _)
  | move player card origin destination selection => exact map _ (move ..)
  | draw player count =>
    exact map _ (bind duel fun _ => bind (find _) fun _ => bind (find _) fun _ =>
      bind (sound _ (Finishes.makeRoom _)) fun _ => drawLoop ..)
  | create owner card zone =>
    exact map _ (bind (find _) fun _ => bind (modifyDuel _) fun _ => pure _)
  | attackPlayer attacker card =>
    exact map _ (bind duel fun _ => bind (find _) fun _ => bind (requireOnBoard ..) fun _ =>
      bind (attackOf _) fun _ => bind (damage ..) fun _ => notifyBlow ..)
  | attackCard attacker card target =>
    exact map _ (bind duel fun _ => bind (find _) fun _ => bind (requireOnBoard ..) fun _ =>
      bind (requireOnBoard ..) fun _ => bind (attackOf _) fun _ => bind (attackOf _) fun _ =>
      bind (damage ..) fun _ => bind (damage ..) fun _ => bind (notifyBlow ..) fun _ =>
      notifyBlow ..)
  | activate player card index selection => exact map _ (activate ..)
  | dispatch player card kind accepts selection => exact map _ (call ..)
  | watchPlayer player => exact map _ (bind (find _) fun _ => modifyDuel _)
  | watchCard card => exact map _ (bind (find _) fun _ => modifyDuel _)
  | watchDestroy card =>
    exact map _ (bind (find _) fun _ => bind (find _) fun _ => modifyDuel _)

/-! ## §5 Induction -/

variable {α : Type} {m m' : Engine α}

/-- An assertion that does not look at the duel, nor at what the journal
says of writes and watchers, is kept by a chain if it is kept by every
call. -/
theorem keeps {X : Exits} {I : Scene → Prop} (h : InStep fire fire' m m')
    (duel : ∀ s d, I s → I { s with duel := d })
    (note : ∀ s e, (∀ level card kind, e ≠ .dispatched level card kind) → I s →
      I { s with journal := e :: s.journal })
    (refused : ∀ e s, I s → X.refused e s) (fault : ∀ cause, cause ≠ .outOfRounds → X.fault cause)
    (call : ∀ player card kind accepts selection s, I s →
      wp X (fire player card kind accepts selection) (fun _ => I) s) :
    ∀ s, I s → wp X m (fun _ => I) s := by
  induction h with
  | pure a => exact fun s hs => hs
  | bind _ _ ihm ihf =>
    intro s hs
    rw [wp_bind]
    exact wp_mono (ihm s hs) fun a s' hs' => ihf a s' hs'
  | duel => exact fun s hs => hs
  | modifyDuel f => exact fun s hs => duel s _ hs
  | note e he => exact fun s hs => note s e he hs
  | refuse e => exact fun s hs => refused e s hs
  | find look =>
    intro s hs
    rw [wp_find]
    split
    · exact hs
    · exact refused _ s hs
  | sound x hx =>
    intro s hs
    rw [wp_sound]
    split
    · exact hs
    · exact fault _ fun hc => hx (hc ▸ rfl)
  | draw roll => exact fun s hs => duel s _ hs
  | call => exact fun s hs => call _ _ _ _ _ s hs

/-- If one call ends as another does unless it is cut short, then so does
a chain with the one call and the same chain with the other. -/
theorem follows {cut : Cut} (h : InStep fire fire' m m')
    (call : ∀ player card kind accepts selection s,
      cut.Ends (fire player card kind accepts selection s) ∨
        fire' player card kind accepts selection s = fire player card kind accepts selection s) :
    ∀ s, cut.Ends (m s) ∨ m' s = m s := by
  induction h with
  | bind _ _ ihm ihf =>
    intro s
    rw [bind_eq, bind_eq]
    rcases ihm s with hm | hm
    · exact .inl (hm.bind _)
    · rw [hm]
      split
      · exact ihf _ _
      · exact .inr rfl
      · exact .inr rfl
  | call => exact call _ _ _ _ _
  | _ => exact fun s => .inr rfl

end InStep

end CardDuel
