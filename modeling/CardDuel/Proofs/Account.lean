/-
CardDuel.Proofs.Account — every write to a stat is told once.

The journal of an action enters each write to a stat when it is made and
again when the watchers of the stat are told. Calls, fights and the end
of a turn tell at different times: at once, after a second write, or after
a whole block has aged, and each telling may set off writes of its own.
When an action is done, nothing is left to tell: what was told is what was
written, as often as it was written. And since each write reports the
effective values right before and after it, what a bearer was told of a
stat adds up to the change of its effective value.

  §1 Entries   — writes and tellings of a journal, and the balance of them.
  §2 Histories — a journal as an account of how the sheet changed.
  §3 Values    — sums of changes.
  §4 Actions   — the balance and the history of every action.
-/
import CardDuel.Catalog.Starter
import CardDuel.Proofs.Books
import CardDuel.Proofs.Stats

namespace CardDuel

open Engine Play

open scoped List

/-! ## §1 Entries -/

/-- A change to a stat of a bearer. -/
structure Entry where
  bearer : Bearer
  stat : String
  change : StatChange
  deriving DecidableEq, Repr

/-- The write that an event enters. -/
def Event.written? : Event → Option Entry
  | .wrote bearer stat change => some ⟨bearer, stat, change⟩
  | _ => none

/-- The telling that an event enters. -/
def Event.told? : Event → Option Entry
  | .notified bearer stat change => some ⟨bearer, stat, change⟩
  | _ => none

/-- What was written in a journal, the latest first. -/
def written (journal : List Event) : List Entry := journal.filterMap Event.written?

/-- What was told in a journal, the latest first. -/
def told (journal : List Event) : List Entry := journal.filterMap Event.told?

/-- What was written is what was told, and what is still to be told. -/
def Balanced (due : List Entry) (journal : List Event) : Prop :=
  (written journal).Perm (told journal ++ due)

/-- A write is due to be told. -/
def fallDue (b : Bearer) (name : String) (change : StatChange) (due : List Entry) : List Entry :=
  ⟨b, name, change⟩ :: due

namespace Balanced

variable {due : List Entry} {journal : List Event} {b b' : Bearer} {name name' : String}
  {change change' : StatChange}

theorem nil : Balanced [] [] := .refl _

theorem call {level : Nat} {card : InstanceId} {kind : TriggerKind} (h : Balanced due journal) :
    Balanced due (.dispatched level card kind :: journal) := h

theorem write (h : Balanced due journal) :
    Balanced (fallDue b name change due) (.wrote b name change :: journal) :=
  (h.cons _).trans List.perm_middle.symm

theorem tell (h : Balanced (fallDue b name change due) journal) :
    Balanced due (.notified b name change :: journal) :=
  h.trans List.perm_middle

theorem swap (h : Balanced (fallDue b name change (fallDue b' name' change' due)) journal) :
    Balanced (fallDue b' name' change' (fallDue b name change due)) journal :=
  h.trans ((List.Perm.swap ..).append_left _)

theorem owedAll_fallDue : ∀ changes : List (String × StatChange),
    owedAll fallDue b changes due = changes.map (fun c => ⟨b, c.1, c.2⟩) ++ due
  | [] => rfl
  | _ :: rest => congrArg (List.cons _) (owedAll_fallDue rest)

/-- Several writes in a row are due together. -/
theorem writeAll (h : Balanced due journal) (changes : List (String × StatChange)) :
    Balanced (owedAll fallDue b changes due)
      ((changes.map fun c => .wrote b c.1 c.2).reverse ++ journal) := by
  let entries : List Entry := changes.map fun c => ⟨b, c.1, c.2⟩
  have hwritten : written ((changes.map fun c => Event.wrote b c.1 c.2).reverse ++ journal) =
      entries.reverse ++ written journal := by
    simp [written, entries, List.filterMap_reverse, List.filterMap_map, Function.comp_def,
      Event.written?]
  have htold : told ((changes.map fun c => Event.wrote b c.1 c.2).reverse ++ journal) =
      told journal := by
    simp [told, List.filterMap_reverse, List.filterMap_map, Function.comp_def, Event.told?]
  rw [Balanced, hwritten, htold, owedAll_fallDue]
  calc entries.reverse ++ written journal
    _ ~ entries ++ written journal := (List.reverse_perm entries).append_right _
    _ ~ entries ++ (told journal ++ due) := h.append_left _
    _ ~ told journal ++ (entries ++ due) := List.perm_append_comm_assoc ..

end Balanced

/-! ## §2 Histories -/

/-- The blocks have the same names and the same effective values. -/
structure StatBlock.Even (b b' : StatBlock) : Prop where
  names : b'.names = b.names
  values : b'.stats.map Stat.effective = b.stats.map Stat.effective

namespace Sheet

variable {V₀ V V' : Sheet} {b : Bearer} {block block' : StatBlock}

/-- The journal accounts for how the first sheet became the second one.
Each write puts one stat in the place of another of its name, and reports
their effective values. Between the entries effective values stay as they
are: bearers may be new, and modifiers may grow older. -/
inductive History (V₀ : Sheet) : List Event → Sheet → Prop where
  | start : History V₀ [] V₀
  | wrote {journal : List Event} {V : Sheet} {b : Bearer} {block : StatBlock} {i : Nat}
      {s s' : Stat} {change : StatChange} (before : History V₀ journal V) (hb : V b = .ok block)
      (hs : block.stats[i]? = some s) (hname : s'.name = s.name)
      (hold : s.effective = .ok change.old) (hnew : s'.effective = .ok change.new) :
      History V₀ (.wrote b s.name change :: journal) (V.put b ⟨block.stats.set i s'⟩)
  | told {journal : List Event} {V : Sheet} {b : Bearer} {name : String} {change : StatChange}
      (before : History V₀ journal V) : History V₀ (.notified b name change :: journal) V
  | called {journal : List Event} {V : Sheet} {level : Nat} {card : InstanceId}
      {kind : TriggerKind} (before : History V₀ journal V) :
      History V₀ (.dispatched level card kind :: journal) V
  | between {journal : List Event} {V V' : Sheet} (before : History V₀ journal V)
      (h : ∀ b block, V b = .ok block → ∃ block', V' b = .ok block' ∧ block.Even block') :
      History V₀ journal V'

namespace History

variable {journal : List Event}

theorem of_extends (h : V₀.History journal V) (hV : V.Extends V') : V₀.History journal V' :=
  h.between fun b block hb => ⟨block, hV.kept b block hb, rfl, rfl⟩

theorem between_put (h : V₀.History journal V) (hb : V b = .ok block) (heven : block.Even block') :
    V₀.History journal (V.put b block') := by
  refine h.between fun b' block₁ hb' => ?_
  by_cases hbb : b' = b
  · subst hbb
    cases hb.symm.trans hb'
    exact ⟨block', put_self .., heven⟩
  · exact ⟨block₁, by rw [put_of_ne _ _ hbb, hb'], rfl, rfl⟩

theorem put {name : String} {s s' : Stat} {change : StatChange} {adjustment : Adjustment}
    {amount : Points} {turns : UInt32} (h : V₀.History journal V) (hb : V b = .ok block)
    (hs : block.get? name = some s) (hwrite : adjustment.apply amount turns s = .ok (change, s')) :
    V₀.History (.wrote b name change :: journal) (V.put b (block.put name s')) := by
  obtain ⟨i, -, hget, rfl, hput⟩ := StatBlock.put_eq_set hs
  rw [hput]
  have hname := (Adjustment.alike_of_apply hwrite).name
  obtain ⟨base, added, -, hreplace⟩ := adjustment.apply_eq_replace amount turns s
  rw [hreplace] at hwrite
  obtain ⟨rfl, hold, hnew⟩ := Stat.replace_eq_ok hwrite
  exact h.wrote hb hget hname hold hnew

/-- Ageing is a history of its own, stat by stat. -/
theorem tickAll {rest : List Stat} :
    ∀ (past : List Stat) {rest' : List Stat} {journal : List Event} {V : Sheet}
      {changes : List (String × StatChange)}, V₀.History journal V → V b = .ok ⟨past ++ rest⟩ →
      StatBlock.tickAll rest = .ok (changes, rest') →
      V₀.History ((changes.map fun c => .wrote b c.1 c.2).reverse ++ journal)
        (V.put b ⟨past ++ rest'⟩) := by
  induction rest with
  | nil =>
    intro past rest' journal V changes h hb htick
    cases htick
    rw [put_eq_self hb]
    exact h
  | cons s rest ih =>
    intro past rest' journal V changes h hb htick
    obtain ⟨⟨change, s'⟩, hs, htick⟩ := Except.bind_eq_ok_iff.mp htick
    obtain ⟨⟨changes', rest'⟩, hrest, htick⟩ := Except.bind_eq_ok_iff.mp htick
    have hblock : StatBlock.mk (past ++ s' :: rest) = ⟨(past ++ s :: rest).set past.length s'⟩ := by
      simp
    -- The stats that are aged by now come before the one that is next.
    have hnext (journal : List Event)
        (h : V₀.History journal (V.put b ⟨past ++ s' :: rest⟩)) :
        V₀.History ((changes'.map fun c => .wrote b c.1 c.2).reverse ++ journal)
          (V.put b ⟨past ++ s' :: rest'⟩) := by
      have haged := ih (past ++ [s']) h (by simp) hrest
      simpa using haged
    cases change with
    | none =>
      cases htick
      obtain ⟨halike, hsame⟩ := Stat.alike_of_tick hs
      refine hnext journal (h.between_put hb ⟨?_, ?_⟩)
      · simp [StatBlock.names, halike.name]
      · simp [hsame rfl]
    | some c =>
      cases htick
      obtain ⟨hold, hnew⟩ := Stat.change_of_tick hs
      have hname := (Stat.alike_of_tick hs).1.name
      have hwrote := hnext _ (hblock ▸ h.wrote hb (by simp) hname hold hnew)
      simpa using hwrote

end History

end Sheet

/-! ## §3 Values -/

/-- What the changes of a stat of a bearer add up to. -/
def gain (b : Bearer) (name : String) : List Entry → Int
  | [] => 0
  | e :: rest =>
    (if e.bearer = b ∧ e.stat = name then e.change.new.val - e.change.old.val else 0) +
      gain b name rest

theorem gain_perm {b : Bearer} {name : String} {entries entries' : List Entry}
    (h : entries ~ entries') : gain b name entries = gain b name entries' := by
  induction h with
  | nil => rfl
  | cons e _ ih => rw [gain, gain, ih]
  | swap e e' rest =>
    simp only [gain]
    omega
  | trans _ _ ih ih' => exact ih.trans ih'

/-- Even blocks have the same values under all names. -/
theorem StatBlock.Even.value?_eq {b b' : StatBlock} (h : b.Even b') (name : String) :
    b'.value? name = b.value? name := by
  have hvalue (b : StatBlock) : b.value? name =
      match (lastIndex? name b.stats).bind ((b.stats.map Stat.effective)[·]?) with
      | some value => value.map some
      | none => .ok none := by
    rw [value?, get?]
    cases lastIndex? name b.stats with
    | none => rfl
    | some i =>
      simp only [Option.bind_some, List.getElem?_map]
      cases b.stats[i]? with
      | none => rfl
      | some s => rfl
  rw [hvalue, hvalue, lastIndex?_congr h.names, h.values]

/-- Over a history, the value under a name that is unique changes by the
sum of the changes written under it. -/
theorem Sheet.History.value {V₀ V : Sheet} {journal : List Event} (h : V₀.History journal V)
    {b : Bearer} {block₀ : StatBlock} {name : String} {v : Points} (hb : V₀ b = .ok block₀)
    (hunique : block₀.names.count name = 1) (hv : block₀.value? name = .ok (some v)) :
    ∃ block v', V b = .ok block ∧ block.names = block₀.names ∧ block.value? name = .ok (some v') ∧
      v'.val - v.val = gain b name (written journal) := by
  induction h with
  | start => exact ⟨block₀, v, hb, rfl, hv, by simp [gain, written]⟩
  | told before ih => exact ih
  | called before ih => exact ih
  | between before heven ih =>
    obtain ⟨block, v', hblock, hnames, hvalue, hsum⟩ := ih
    obtain ⟨block', hblock', heven⟩ := heven b block hblock
    exact ⟨block', v', hblock', heven.names.trans hnames, (heven.value?_eq name).trans hvalue, hsum⟩
  | @wrote journal V b' block' i s s' change before hb' hs hname hold hnew ih =>
    obtain ⟨block, v', hblock, hnames, hvalue, hsum⟩ := ih
    have hwritten : gain b name (written (.wrote b' s.name change :: journal)) =
        (if b' = b ∧ s.name = name then change.new.val - change.old.val else 0) +
          gain b name (written journal) := rfl
    rw [hwritten, ← hsum]
    by_cases hbb : b' = b
    · subst hbb
      cases hb'.symm.trans hblock
      have hnames' := (StatBlock.names_set hs hname).trans hnames
      by_cases hsn : s.name = name
      · have hget := StatBlock.get?_of_unique (hnames ▸ hunique) hs hsn
        have hs' : (block'.stats.set i s')[i]? = some s' := by
          simp [(List.getElem?_eq_some_iff.mp hs).1]
        have hget' : (StatBlock.mk (block'.stats.set i s')).get? name = some s' :=
          StatBlock.get?_of_unique (hnames' ▸ hunique) hs' (hname.trans hsn)
        rw [StatBlock.value?_of_get? hget, hold] at hvalue
        cases hvalue
        refine ⟨_, change.new, put_self .., hnames', ?_, ?_⟩
        · rw [StatBlock.value?_of_get? hget', hnew]
          rfl
        · simp only [hsn, and_self, if_true]
          omega
      · refine ⟨_, v', put_self .., hnames', ?_, by simp [hsn]⟩
        rw [StatBlock.value?, StatBlock.get?_set_of_ne hs hname hsn]
        exact hvalue
    · exact ⟨block, v', by rw [put_of_ne _ _ fun h => hbb h.symm, hblock], hnames, hvalue,
        by simp [hbb]⟩

/-! ## §4 Actions -/

/-- The books are balanced, and the journal accounts for the sheet. -/
structure Accounted (V₀ : Sheet) (due : List Entry) (B : Books) : Prop where
  balanced : Balanced due B.journal
  history : V₀.History B.journal B.stats

theorem ledger_accounted (V₀ : Sheet) : Ledger (Accounted V₀) fallDue where
  extend h hV := ⟨h.balanced, h.history.of_extends hV⟩
  draw h _ := ⟨h.balanced, h.history⟩
  call _ _ _ h := ⟨h.balanced.call, h.history.called⟩
  write h hb hs hwrite := ⟨h.balanced.write, h.history.put hb hs hwrite⟩
  swap h := ⟨h.balanced.swap, h.history⟩
  tell h := ⟨h.balanced.tell, h.history.told⟩

theorem ages_accounted (V₀ : Sheet) : Ledger.Ages (Accounted V₀) fallDue := by
  intro due B b block changes block' h hb htick
  obtain ⟨⟨changes', stats⟩, hall, htick⟩ := Except.bind_eq_ok_iff.mp htick
  cases htick
  exact ⟨h.balanced.writeAll changes, h.history.tickAll [] hb hall⟩

theorem Duel.Sound.accounted {d : Duel} (hd : d.Sound) {limit : Nat} {a : Action} {reply : Reply}
    {s : Scene} (h : d.record limit a = .done reply s) : Accounted d.stats [] s.books := by
  have hrun : wp (.books fun _ => True) (a.run (dispatch limit (limit + 1)))
      (fun _ s => Accounted d.stats [] s.books) ⟨d, [], 0⟩ :=
    (ledger_accounted d.stats).wp_run (fun _ => trivial) hd (fun _ => ages_accounted d.stats)
      ⟨.nil, .start⟩
  exact wp_done hrun h

/-- **Every write to a stat is told once.** When an action on a duel that
is reached is done, what was told is what was written, each change as
often; the journal accounts for the stats that are left, each write with
the effective values right before and after it; and under a name that is
unique among the stats of a bearer the effective value has changed by the
sum of the changes that were told for it. -/
theorem writes_told_once {log : List Action} {d : Duel} (hd : Reached log d) {limit : Nat}
    {a : Action} {reply : Reply} {s : Scene} (h : d.record limit a = .done reply s) :
    told s.journal ~ written s.journal ∧ Sheet.History d.stats s.journal s.duel.stats ∧
      ∀ b block name v, d.stats b = .ok block → block.names.count name = 1 →
        d.statValue? b name = .ok (some v) →
          ∃ v', s.duel.statValue? b name = .ok (some v') ∧
            v'.val - v.val = gain b name (told s.journal) := by
  have haccounted := hd.sound.accounted h
  have hperm : written s.journal ~ told s.journal ++ [] := haccounted.balanced
  rw [List.append_nil] at hperm
  refine ⟨hperm.symm, haccounted.history, ?_⟩
  intro b block name v hb hunique hv
  have hvalue : block.value? name = .ok (some v) := by simpa [Duel.statValue?, hb] using hv
  obtain ⟨block', v', hb', -, hv', hsum⟩ := haccounted.history.value hb hunique hvalue
  have hstats : s.duel.stats b = .ok block' := hb'
  exact ⟨v', by simpa [Duel.statValue?, hstats] using hv', hsum.trans (gain_perm hperm)⟩

/-- Two grunts take a life from each other: both writes are made before
either is told, and each is told once. -/
theorem blows_told_once :
    ∃ log d s v, Reached log d ∧
      d.record 1 (.attackCard ⟨1⟩ ⟨1⟩ ⟨2⟩) = .done .nothing s ∧
      told s.journal = [⟨.card ⟨1⟩, "Life", ⟨1, 0⟩⟩, ⟨.card ⟨2⟩, "Life", ⟨1, 0⟩⟩] ∧
      told s.journal ~ written s.journal ∧
      s.duel.statValue? (.card ⟨2⟩) "Life" = .ok (some v) ∧ v.val - 1 = -1 := by
  obtain ⟨d, h, block, -, hblock, hunique, hvalue, s, -, hdone, htold⟩ :=
    @Reached.exists_of_performAll 0 (Starter.catalog {}) 7 ⟨⟨1⟩, []⟩ ⟨⟨2⟩, []⟩
      [.create ⟨1⟩ ⟨1⟩ Starter.board, .create ⟨2⟩ ⟨1⟩ Starter.board, .watchDestroy ⟨2⟩]
      (fun d => ∃ block ∈ (d.stats (.card ⟨2⟩)).toOption, d.stats (.card ⟨2⟩) = .ok block ∧
        block.names.count "Life" = 1 ∧ d.statValue? (.card ⟨2⟩) "Life" = .ok (some 1) ∧
        ∃ s ∈ (d.record 1 (.attackCard ⟨1⟩ ⟨1⟩ ⟨2⟩)).state?,
          d.record 1 (.attackCard ⟨1⟩ ⟨1⟩ ⟨2⟩) = .done .nothing s ∧
          told s.journal = [⟨.card ⟨1⟩, "Life", ⟨1, 0⟩⟩, ⟨.card ⟨2⟩, "Life", ⟨1, 0⟩⟩])
      (by decide +kernel)
  obtain ⟨htimes, -, hsums⟩ := writes_told_once h hdone
  obtain ⟨v, hv, hsum⟩ := hsums _ _ _ _ hblock hunique hvalue
  refine ⟨_, d, s, v, h, hdone, htold, htimes, hv, ?_⟩
  have hgain : gain (.card ⟨2⟩) "Life" (told s.journal) = -1 := by
    rw [htold]
    decide
  exact hsum.trans hgain

end CardDuel
