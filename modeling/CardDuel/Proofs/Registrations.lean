/-
CardDuel.Proofs.Registrations — the table of watchers.

Three actions register watchers, and no other touches the table. Each
makes a list of registrations that depends only on what never changes
about a duel: the declared stats of a bearer, the owner and the type of a
card. So the table only grows, at its end, and what is registered a
second time is there already, at whatever later time. What the table
refers to goes on being there for the same reason: a check of a destroy
condition finds the condition and the stat.

  §1 Tables        — entering registrations.
  §2 Actions       — the registrations that an action makes.
  §3 Registrations — each is of a stat that the bearer has.
  §4 Checks        — what a watcher looks up is there.
  §5 Runs          — the table of a duel that is reached.
-/
import CardDuel.Proofs.Cleanliness
import CardDuel.Proofs.Declared

namespace CardDuel

open Engine Play

/-! ## §1 Tables -/

namespace WatchTable

variable {t t' : WatchTable} {b : Bearer} {stat : String} {w : Watcher} {l : List Registration}

/-- The table after the registrations of a list, in order. -/
def enter (t : WatchTable) (l : List Registration) : WatchTable :=
  l.foldl (fun t r => t.register r.bearer r.stat r.watcher) t

theorem register_of_mem (h : ⟨b, stat, w⟩ ∈ t.entries) : t.register b stat w = t := by
  rw [register, if_pos h]

theorem prefix_register : t.entries <+: (t.register b stat w).entries := by
  unfold register
  split
  · exact List.prefix_rfl
  · exact List.prefix_append _ _

theorem nodup_register (h : t.entries.Nodup) : (t.register b stat w).entries.Nodup := by
  unfold register
  split
  · exact h
  · rename_i hnew
    rw [List.nodup_append]
    refine ⟨h, List.nodup_singleton _, fun r hr r' hr' heq => hnew ?_⟩
    rw [← List.mem_singleton.mp hr', ← heq]
    exact hr

theorem prefix_enter : t.entries <+: (t.enter l).entries := by
  induction l generalizing t with
  | nil => exact List.prefix_rfl
  | cons r rest ih => exact prefix_register.trans ih

theorem nodup_enter (h : t.entries.Nodup) : (t.enter l).entries.Nodup := by
  induction l generalizing t with
  | nil => exact h
  | cons r rest ih => exact ih (nodup_register h)

theorem mem_enter {r : Registration} : r ∈ (t.enter l).entries ↔ r ∈ t.entries ∨ r ∈ l := by
  induction l generalizing t with
  | nil => simp [enter]
  | cons r' rest ih =>
    have hstep := @ih (t.register r'.bearer r'.stat r'.watcher)
    rw [mem_register] at hstep
    exact hstep.trans (by rw [List.mem_cons, or_assoc])

/-- Registrations that the table has are not entered again. -/
theorem enter_of_forall_mem (h : ∀ r ∈ l, r ∈ t.entries) : t.enter l = t := by
  induction l with
  | nil => rfl
  | cons r rest ih =>
    rw [enter, List.foldl_cons, register_of_mem (h r List.mem_cons_self)]
    exact ih fun r' hr' => h r' (List.mem_cons_of_mem _ hr')

theorem prefix_on (h : t.entries <+: t'.entries) (b : Bearer) (stat : String) :
    t.on b stat <+: t'.on b stat :=
  (h.filter _).map _

theorem nodup_on (h : t.entries.Nodup) (b : Bearer) (stat : String) : (t.on b stat).Nodup := by
  refine List.Nodup.map_on (fun r hr r' hr' hw => ?_) (h.filter _)
  obtain ⟨b₁, s₁, w₁⟩ := r
  obtain ⟨b₂, s₂, w₂⟩ := r'
  simp only [List.mem_filter, decide_eq_true_eq] at hr hr' hw
  obtain ⟨-, rfl, rfl⟩ := hr
  obtain ⟨-, rfl, rfl⟩ := hr'
  rw [hw]

end WatchTable

/-! ## §2 Actions -/

/-- The action registers watchers. -/
def Action.registers : Action → Bool
  | watchPlayer _ | watchCard _ | watchDestroy _ => true
  | _ => false

namespace Fixture

variable {φ φ' : Fixture} {a : Action} {l : List Registration}

/-- The registrations that an action makes, if what it names exists. -/
def registrations? (φ : Fixture) : Action → Option (List Registration)
  | .watchPlayer p =>
    if p ∈ φ.players then
      (φ.declared? (.player p)).map fun block =>
        block.names.map fun stat => ⟨.player p, stat, .propagate p .player⟩
    else none
  | .watchCard id =>
    (φ.tag? id).bind fun t => (φ.declared? (.card id)).map fun block =>
      block.names.map fun stat => ⟨.card id, stat, .propagate t.owner .card⟩
  | .watchDestroy id =>
    (φ.tag? id).bind fun t => (φ.catalog.cardType? t.cardType).map fun ct =>
      ct.destroyConditions.zipIdx.map fun (k, index) =>
        ⟨.card id, k.stat, .destroy t.owner id index⟩
  | _ => none

/-- At any later time an action makes the same registrations. -/
theorem Grows.registrations? (hgrows : φ.Grows φ') (h : φ.registrations? a = some l) :
    φ'.registrations? a = some l := by
  cases a with
  | watchPlayer p =>
    simp only [Fixture.registrations?] at h ⊢
    rwa [hgrows.players, Fixture.declared?, hgrows.catalog]
  | watchCard id =>
    obtain ⟨t, ht, h⟩ := Option.bind_eq_some_iff.mp h
    obtain ⟨block, hblock, h⟩ := Option.map_eq_some_iff.mp h
    have ht' : φ'.tag? id = some t := hgrows.cards.find?_eq_some ht
    simp [Fixture.registrations?, ht', hgrows.declared? hblock, h]
  | watchDestroy id =>
    obtain ⟨t, ht, h⟩ := Option.bind_eq_some_iff.mp h
    obtain ⟨ct, hct, h⟩ := Option.map_eq_some_iff.mp h
    have ht' : φ'.tag? id = some t := hgrows.cards.find?_eq_some ht
    simp only [Fixture.registrations?, ht', hgrows.catalog, hct, h, Option.bind_some,
      Option.map_some]
  | _ => cases h

end Fixture

namespace Duel

variable {d d' : Duel} {limit : Nat} {a : Action} {l : List Registration}

theorem Declared.seat_names {p : PlayerId} {s : Seat} (h : d.Declared) (hs : d.seat p = .ok s) :
    s.stats.names = (StatBlock.ofSpecs d.catalog.playerStats).names := by
  obtain ⟨declared, hdeclared, halike⟩ := h (.player p) s.stats (by simp [stats, hs, Except.map])
  cases hdeclared
  exact halike.names_eq

theorem Declared.card_names {id : InstanceId} {c : Card} (h : d.Declared) (hc : d.card id = .ok c) :
    ∃ declared, d.fixture.declared? (.card id) = some declared ∧ c.stats.names = declared.names := by
  obtain ⟨declared, hdeclared, halike⟩ := h (.card id) c.stats (by simp [stats, hc, Except.map])
  exact ⟨declared, hdeclared, halike.names_eq⟩

/-- What an action without a reply does is what its computation does. -/
theorem perform_quiet {m : Engine Unit} (ha : ∀ fire, a.run fire = (fun _ => .nothing) <$> m) :
    d.perform limit a =
      match m ⟨d, [], 0⟩ with
      | .done _ s => .done .nothing s.duel
      | .refused e s => .refused e s.duel
      | .fault cause => .fault cause := by
  rw [perform, record, Game.record, ha, ← bind_pure_comp, bind_eq]
  cases m ⟨d, [], 0⟩ <;> rfl

/-- An action that registers watchers enters its registrations in the
table and does nothing else; if what it names does not exist, it is
refused and does nothing. -/
theorem perform_registers (h : d.Declared) (ha : a.registers) (limit : Nat) :
    match d.fixture.registrations? a with
    | some l => d.perform limit a = .done .nothing { d with watchers := d.watchers.enter l }
    | none => ∃ e, d.perform limit a = .refused e d := by
  cases a with
  | watchPlayer p =>
    rw [perform_quiet fun _ => rfl]
    cases hs : d.seat p with
    | error e =>
      have hp : p ∉ d.fixture.players := by
        rw [← seat_isOk_iff, hs]
        simp
      simp only [Fixture.registrations?, if_neg hp]
      exact ⟨.lookup e, by simp [Play.watchPlayer, bind_eq, find, hs]⟩
    | ok s =>
      have hp : p ∈ d.fixture.players := seat_isOk_iff.mp ⟨s, hs⟩
      have hnames : s.stats.names = (StatBlock.ofSpecs d.fixture.catalog.playerStats).names :=
        h.seat_names hs
      simp only [Fixture.registrations?, if_pos hp, Fixture.declared?, Option.map_some, ← hnames]
      simp [Play.watchPlayer, bind_eq, find, modifyDuel, hs, registerAll, WatchTable.enter,
        List.foldl_map]
  | watchCard id =>
    rw [perform_quiet fun _ => rfl]
    cases hc : d.card id with
    | error e =>
      simp only [Fixture.registrations?, tag?_eq_none hc, Option.bind_none]
      exact ⟨.lookup e, by simp [Play.watchCard, bind_eq, find, hc]⟩
    | ok c =>
      have ht : d.fixture.tag? id = some c.tag := tag?_eq_some_iff.mpr ⟨c, hc, rfl⟩
      obtain ⟨declared, hdeclared, hnames⟩ := h.card_names hc
      simp only [Fixture.registrations?, ht, hdeclared, Option.bind_some, Option.map_some, ← hnames]
      simp [Play.watchCard, bind_eq, find, modifyDuel, hc, registerAll, WatchTable.enter,
        List.foldl_map, Card.tag]
  | watchDestroy id =>
    rw [perform_quiet fun _ => rfl]
    cases hc : d.card id with
    | error e =>
      simp only [Fixture.registrations?, tag?_eq_none hc, Option.bind_none]
      exact ⟨.lookup e, by simp [Play.watchDestroy, bind_eq, find, hc]⟩
    | ok c =>
      have ht : d.fixture.tag? id = some c.tag := tag?_eq_some_iff.mpr ⟨c, hc, rfl⟩
      have hcatalog : d.fixture.catalog.cardType? c.tag.cardType = d.catalog.cardType? c.cardType :=
        rfl
      simp only [Fixture.registrations?, ht, Option.bind_some, hcatalog]
      cases hct : d.catalog.cardType? c.cardType with
      | none =>
        simp only [Option.map_none]
        exact ⟨.lookup (.cardTypeNotFound c.cardType),
          by simp [Play.watchDestroy, bind_eq, find, hc, hct]⟩
      | some ct =>
        simp only [Option.map_some]
        simp [Play.watchDestroy, bind_eq, find, modifyDuel, hc, hct, WatchTable.enter,
          List.foldl_map, Card.tag]
  | _ => cases ha

theorem registrations?_of_done {reply : Reply} (h : d.Declared) (ha : a.registers)
    (hdone : d.perform limit a = .done reply d') : ∃ l, d.fixture.registrations? a = some l := by
  have hperform := perform_registers h ha limit
  split at hperform
  · rename_i l hl
    exact ⟨l, hl⟩
  · obtain ⟨e, hrefused⟩ := hperform
    rw [hdone] at hrefused
    cases hrefused

/-- **Only registrations change the table**, and they enter what they make. -/
theorem watchers_of_state (hd : d.Sound) (h : d.Declared)
    (hd' : (d.perform limit a).state? = some d') :
    d'.watchers = d.watchers ∨ ∃ l, a.registers ∧ d.fixture.registrations? a = some l ∧
      d'.watchers = d.watchers.enter l := by
  by_cases ha : a.registers
  · have hperform := perform_registers h ha limit
    split at hperform
    · rename_i l hl
      rw [hperform] at hd'
      cases hd'
      exact .inr ⟨l, ha, hl, rfl⟩
    · obtain ⟨e, hrefused⟩ := hperform
      rw [hrefused] at hd'
      cases hd'
      exact .inl rfl
  · refine .inl ?_
    rcases hd.fixture_of_state hd' with ⟨-, hfollows⟩ | ⟨-, hfixture⟩
    · cases a with
      | setCurrent player => exact congrArg Fixture.watchers hfollows.2
      | create owner card place =>
        obtain ⟨spec, -, -, hφ⟩ := hfollows
        exact congrArg Fixture.watchers hφ
      | watchPlayer | watchCard | watchDestroy => exact absurd rfl ha
      | _ => exact congrArg Fixture.watchers hfollows
    · exact congrArg Fixture.watchers hfixture

theorem entries_grow (hd : d.Sound) (h : d.Declared) (hd' : (d.perform limit a).state? = some d') :
    d.watchers.entries <+: d'.watchers.entries := by
  rcases watchers_of_state hd h hd' with heq | ⟨l, -, -, heq⟩
  · exact heq ▸ List.prefix_rfl
  · exact heq ▸ WatchTable.prefix_enter

theorem Leads.entries_grow (hleads : d.Leads d') (hd : d.Sound) (h : d.Declared) :
    d.watchers.entries <+: d'.watchers.entries := by
  induction hleads with
  | refl => exact List.prefix_rfl
  | step before hstep ih =>
    exact ih.trans (Duel.entries_grow (before.grows hd).1 (before.declared hd h) hstep)

/-- **Registering again does nothing**, whatever has been done in between. -/
theorem perform_registered {d₁ d₂ : Duel} {limit' : Nat} {reply : Reply} (hd : d.Sound)
    (h : d.Declared) (ha : a.registers) (hdone : d.perform limit a = .done reply d₁)
    (hleads : d₁.Leads d₂) : d₂.perform limit' a = .done .nothing d₂ := by
  have hstate : (d.perform limit a).state? = some d₁ := by rw [hdone]; rfl
  have hd₁ := (hd.sound_of_state hstate).1
  have h₁ := hd.declared_of_state h hstate
  obtain ⟨l, hl⟩ := registrations?_of_done h ha hdone
  have hentered : ∀ r ∈ l, r ∈ d₁.watchers.entries := by
    have hperform := perform_registers h ha limit
    rw [hl] at hperform
    cases hdone.symm.trans hperform
    exact fun r hr => WatchTable.mem_enter.mpr (.inr hr)
  have hl₂ : d₂.fixture.registrations? a = some l :=
    ((hd.grows_of_state hstate).trans (hleads.grows hd₁).2).registrations? hl
  have hperform := perform_registers (hleads.declared hd₁ h₁) ha limit'
  rw [hl₂] at hperform
  have htable : d₂.watchers.enter l = d₂.watchers :=
    WatchTable.enter_of_forall_mem fun r hr => (hleads.entries_grow hd₁ h₁).subset (hentered r hr)
  rw [hperform, htable]

end Duel

/-! ## §3 Registrations -/

/-- Every registration is on a stat that is declared of its bearer. -/
def Fixture.Carried (φ : Fixture) : Prop :=
  ∀ r ∈ φ.watchers.entries, ∃ declared, φ.declared? r.bearer = some declared ∧
    r.stat ∈ declared.names

theorem Fixture.carried_registrations {φ : Fixture} {a : Action} {l : List Registration}
    (hvalid : φ.catalog.validate = .ok ()) (h : φ.registrations? a = some l) :
    ∀ r ∈ l, ∃ declared, φ.declared? r.bearer = some declared ∧ r.stat ∈ declared.names := by
  intro r hr
  cases a with
  | watchPlayer p =>
    obtain ⟨-, h⟩ := Option.ite_none_right_eq_some.mp h
    obtain ⟨declared, hdeclared, rfl⟩ := Option.map_eq_some_iff.mp h
    obtain ⟨stat, hstat, rfl⟩ := List.mem_map.mp hr
    exact ⟨declared, hdeclared, hstat⟩
  | watchCard id =>
    obtain ⟨t, -, h⟩ := Option.bind_eq_some_iff.mp h
    obtain ⟨declared, hdeclared, rfl⟩ := Option.map_eq_some_iff.mp h
    obtain ⟨stat, hstat, rfl⟩ := List.mem_map.mp hr
    exact ⟨declared, hdeclared, hstat⟩
  | watchDestroy id =>
    obtain ⟨t, ht, h⟩ := Option.bind_eq_some_iff.mp h
    obtain ⟨ct, hct, rfl⟩ := Option.map_eq_some_iff.mp h
    obtain ⟨⟨k, index⟩, hk, rfl⟩ := List.mem_map.mp hr
    refine ⟨.ofSpecs ct.stats, by simp [Fixture.declared?, ht, hct], ?_⟩
    -- Validation has seen that the condition is on a stat of the type.
    have hstat := Catalog.hasStat_of_validate hvalid (List.mem_of_find?_eq_some hct)
      (List.mem_of_getElem? (List.mk_mem_zipIdx_iff_getElem?.mp hk))
    simpa [CardType.hasStat, StatBlock.names, StatBlock.ofSpecs, Stat.ofSpec] using hstat
  | _ => cases h

/-- The table of a duel that is reached has no registration twice, and
each of them is on a stat that its bearer has. -/
theorem Reached.carried {log : List Action} {d : Duel} (h : Reached log d) :
    d.watchers.entries.Nodup ∧ d.fixture.Carried := by
  have hstep {log : List Action} {d d' : Duel} {limit : Nat} {a : Action} (before : Reached log d)
      (ih : d.watchers.entries.Nodup ∧ d.fixture.Carried)
      (hd' : (d.perform limit a).state? = some d') :
      d'.watchers.entries.Nodup ∧ d'.fixture.Carried := by
    obtain ⟨hnodup, hcarried⟩ := ih
    have hgrows := before.sound.grows_of_state hd'
    rcases Duel.watchers_of_state before.sound before.declared hd' with heq | ⟨l, -, hl, heq⟩
    · refine ⟨heq ▸ hnodup, fun r hr => ?_⟩
      have hr : r ∈ d'.watchers.entries := hr
      rw [heq] at hr
      obtain ⟨declared, hdeclared, hstat⟩ := hcarried r hr
      exact ⟨declared, hgrows.declared? hdeclared, hstat⟩
    · refine ⟨heq ▸ WatchTable.nodup_enter hnodup, fun r hr => ?_⟩
      have hr : r ∈ d'.watchers.entries := hr
      rw [heq, WatchTable.mem_enter] at hr
      obtain ⟨declared, hdeclared, hstat⟩ := hr.elim (hcarried r)
        (Fixture.carried_registrations before.validated hl r)
      exact ⟨declared, hgrows.declared? hdeclared, hstat⟩
  induction h with
  | start h =>
    have hempty := Duel.watchers_of_start h
    have hentries : ∀ d : Duel, d.watchers = .empty →
        d.watchers.entries.Nodup ∧ d.fixture.Carried := by
      intro d hd
      refine ⟨by simp [hd, WatchTable.empty], fun r hr => ?_⟩
      have hr : r ∈ d.watchers.entries := hr
      simp [hd, WatchTable.empty] at hr
    exact hentries _ hempty
  | done before h ih => exact hstep before ih (by rw [h]; rfl)
  | refused before h ih => exact hstep before ih (by rw [h]; rfl)

/-! ## §4 Checks -/

namespace Duel

variable {d : Duel} {b : Bearer} {stat : String} {w : Watcher}

/-- The watcher is one that belongs under the stat of the bearer: the
stat is one that the bearer has, and a destroy condition is one of the
card's type, on that stat. -/
def Fitting (d : Duel) (b : Bearer) (stat : String) (w : Watcher) : Prop :=
  match b with
  | .player p => ∃ s, d.seat p = .ok s ∧ stat ∈ s.stats.names ∧ w = .propagate p .player
  | .card id =>
    ∃ c, d.card id = .ok c ∧ stat ∈ c.stats.names ∧
      (w = .propagate c.owner .card ∨
        ∃ t index k, d.catalog.cardType? c.cardType = some t ∧
          t.destroyConditions[index]? = some k ∧ k.stat = stat ∧ w = .destroy c.owner id index)

theorem Sound.fitting (hd : d.Sound) (h : d.Declared) (hcarried : d.fixture.Carried)
    (hw : w ∈ d.watchers.on b stat) : d.Fitting b stat w := by
  have hr : ⟨b, stat, w⟩ ∈ d.fixture.watchers.entries := WatchTable.mem_on.mp hw
  have hapt := hd.fixture.watched _ hr
  obtain ⟨declared, hdeclared, hstat⟩ := hcarried _ hr
  cases b with
  | player p =>
    obtain ⟨hp, hw⟩ := hapt
    obtain ⟨s, hs⟩ := seat_isOk_iff.mpr hp
    cases hdeclared
    exact ⟨s, hs, by rw [h.seat_names hs]; exact hstat, hw⟩
  | card id =>
    obtain ⟨t, ht, hw⟩ := hapt
    obtain ⟨c, hc, rfl⟩ := tag?_eq_some_iff.mp ht
    obtain ⟨declared', hdeclared', hnames⟩ := h.card_names hc
    cases hdeclared.symm.trans hdeclared'
    refine ⟨c, hc, hnames ▸ hstat, hw.imp_right ?_⟩
    intro hw
    obtain ⟨index, k, hw, hk, hkstat⟩ := hw
    obtain ⟨ct, hct, hk⟩ := Option.bind_eq_some_iff.mp hk
    exact ⟨ct, index, k, hct, hk, hkstat, hw⟩

/-- What a check of a destroy condition does once it has found the
condition and the stat. -/
def judge (fire : Dispatch) (rules : Rules) (player : PlayerId) (id : InstanceId) (k : Condition)
    (stat : Stat) : Engine Unit := do
  let value ← sound stat.effective
  if k.holds value then
    let board ← find (·.zone player rules.board)
    if board.contains id then move fire player id rules.board rules.graveyard {}
    else return ()
  else return ()

/-- A check of a destroy condition that is registered finds the condition
and the stat. -/
theorem Fitting.checkDestroy_eq {s : Scene} {player : PlayerId} {id : InstanceId} {index : Nat}
    (h : s.duel.Fitting b stat (.destroy player id index)) (fire : Dispatch) :
    ∃ c t k st, s.duel.card id = .ok c ∧ s.duel.catalog.cardType? c.cardType = some t ∧
      t.destroyConditions[index]? = some k ∧ c.stats.get? k.stat = some st ∧
        checkDestroy fire player id index s = judge fire s.duel.catalog.rules player id k st s := by
  cases b with
  | player p =>
    obtain ⟨_, -, -, hw⟩ := h
    cases hw
  | card id' =>
    obtain ⟨c, hc, hstat, hw | ⟨t, index', k, ht, hk, rfl, hw⟩⟩ := h
    · cases hw
    · cases hw
      obtain ⟨st, hst⟩ := StatBlock.exists_get? hstat
      refine ⟨c, t, k, st, hc, ht, hk, hst, ?_⟩
      have hvalue := StatBlock.value?_of_get? hst
      simp only [checkDestroy, judge, bind_eq, find, hc, duel, ht, Option.bind_some, hk, hvalue]
      cases st.effective with
      | error cause => rfl
      | ok value => rfl

end Duel

/-! ## §5 Runs -/

/-- **The table of watchers is well kept.** In a duel that is reached no
watcher stands twice under a stat of a bearer, and every watcher belongs
where it stands. So it is in the midst of a chain, since calls leave
alone what this depends on: there a check of a destroy condition always
finds its condition and its stat. Only the three actions that register
watchers change the table, and they only add to its end; what has been
registered once can be registered again at any later point of a run, and
that does nothing at all. -/
theorem watchers_well_kept {log : List Action} {d : Duel} (h : Reached log d) :
    (∀ b stat, (d.watchers.on b stat).Nodup ∧ ∀ w ∈ d.watchers.on b stat, d.Fitting b stat w) ∧
    (d.Laid ∧ d.Declared ∧ ∀ s : Scene, s.duel.fixture = d.fixture → s.duel.Laid →
      s.duel.Declared →
        (∀ limit rounds player id kind accepts selection s',
          (dispatch limit rounds player id kind accepts selection s).state? = some s' →
            s'.duel.fixture = d.fixture ∧ s'.duel.Laid ∧ s'.duel.Declared) ∧
        (∀ b stat, ∀ w ∈ s.duel.watchers.on b stat, s.duel.Fitting b stat w) ∧
        ∀ fire b stat player id index, .destroy player id index ∈ s.duel.watchers.on b stat →
          ∃ c t k st, s.duel.card id = .ok c ∧ s.duel.catalog.cardType? c.cardType = some t ∧
            t.destroyConditions[index]? = some k ∧ c.stats.get? k.stat = some st ∧
              checkDestroy fire player id index s =
                Duel.judge fire s.duel.catalog.rules player id k st s) ∧
    (∀ limit a d', (d.perform limit a).state? = some d' →
      (a.registers = false → d'.watchers = d.watchers) ∧
        d.watchers.entries <+: d'.watchers.entries ∧
        ∀ b stat, d.watchers.on b stat <+: d'.watchers.on b stat) ∧
    (∀ limit limit' a reply d₁ d₂, a.registers → d.perform limit a = .done reply d₁ →
      d₁.Leads d₂ → d₂.perform limit' a = .done .nothing d₂) := by
  have hd := h.sound
  have hdeclared := h.declared
  obtain ⟨hnodup, hcarried⟩ := h.carried
  have hfitting {s : Scene} (hfix : s.duel.fixture = d.fixture) (hlaid : s.duel.Laid)
      (hdeclared : s.duel.Declared) {b : Bearer} {stat : String} {w : Watcher}
      (hw : w ∈ s.duel.watchers.on b stat) : s.duel.Fitting b stat w :=
    Duel.Sound.fitting ⟨hfix ▸ hd.fixture, hlaid⟩ hdeclared (hfix ▸ hcarried) hw
  refine ⟨fun b stat => ⟨WatchTable.nodup_on hnodup b stat, fun w hw => ?_⟩,
    ⟨hd.laid, hdeclared, fun s hfix hlaid hs => ⟨?_, fun b stat w hw => ?_, ?_⟩⟩,
    fun limit a d' hd' => ⟨fun ha => ?_, ?_⟩, fun limit limit' a reply d₁ d₂ ha hdone hleads => ?_⟩
  · exact hd.fitting hdeclared hcarried hw
  · intro limit rounds player id kind accepts selection s' hs'
    exact hfix ▸ Duel.Sound.declared_call ⟨hfix ▸ hd.fixture, hlaid⟩ hs hs'
  · exact hfitting hfix hlaid hs hw
  · intro fire b stat player id index hw
    exact (hfitting hfix hlaid hs hw).checkDestroy_eq fire
  · rcases Duel.watchers_of_state hd hdeclared hd' with heq | ⟨l, hregisters, -⟩
    · exact heq
    · rw [ha] at hregisters
      cases hregisters
  · have hgrow := Duel.entries_grow hd hdeclared hd'
    exact ⟨hgrow, fun b stat => WatchTable.prefix_on hgrow b stat⟩
  · exact Duel.perform_registered hd hdeclared ha hdone hleads

/-- A creature is watched for its stats and for its destroy condition: two
watchers of its life, both where they belong. Watching for the condition
again, after a move, does nothing. -/
theorem grunt_watched_once :
    ∃ d d₁ d₂, Reached [.watchCard ⟨1⟩] d ∧
      d.perform 8 (.watchDestroy ⟨1⟩) = .done .nothing d₁ ∧
      (d₁.perform 8 (.move ⟨1⟩ ⟨1⟩ Starter.deck Starter.board {})).state? = some d₂ ∧
      d₁.watchers.on (.card ⟨1⟩) "Life" = [.propagate ⟨1⟩ .card, .destroy ⟨1⟩ ⟨1⟩ 0] ∧
      d₁.Fitting (.card ⟨1⟩) "Life" (.destroy ⟨1⟩ ⟨1⟩ 0) ∧
      d₂.perform 8 (.watchDestroy ⟨1⟩) = .done .nothing d₂ := by
  obtain ⟨d, h, d₁, -, hdone, hon, d₂, hmoved, -⟩ :=
    @Reached.exists_of_performAll 8 (Starter.catalog {}) 7 ⟨⟨1⟩, [⟨1⟩]⟩ ⟨⟨2⟩, []⟩ [.watchCard ⟨1⟩]
      (fun d => ∃ d₁ ∈ (d.perform 8 (.watchDestroy ⟨1⟩)).state?,
        d.perform 8 (.watchDestroy ⟨1⟩) = .done .nothing d₁ ∧
        d₁.watchers.on (.card ⟨1⟩) "Life" = [.propagate ⟨1⟩ .card, .destroy ⟨1⟩ ⟨1⟩ 0] ∧
        ∃ d₂ ∈ (d₁.perform 8 (.move ⟨1⟩ ⟨1⟩ Starter.deck Starter.board {})).state?, d₂ ≠ d₁)
      (by decide +kernel)
  refine ⟨d, d₁, d₂, h, hdone, hmoved, hon, ?_, ?_⟩
  · refine ((watchers_well_kept (.done h hdone)).1 _ _).2 _ ?_
    simp [hon]
  · exact (watchers_well_kept h).2.2.2 _ _ _ _ _ _ rfl hdone (.step (.refl _) hmoved)

end CardDuel
