/-
CardDuel.Proofs.Stats — what writes and ageing do to stats.

Every write replaces a stat by one with another base value or with more
modifiers, and never changes what is declared of it. A block reaches its
stats by name, and a write to one name is not seen under another.
Ageing is not seen at all under a name that it reports no change for,
since a modifier that only grows older counts as before.

  §1 Writes — one stat.
  §2 Ageing — one stat.
  §3 Blocks — the stats that a name reaches.
-/
import CardDuel.Ability.Effect
import CardDuel.Proofs.References
import CardDuel.Stat.Block
import Mathlib.Data.List.Forall2

namespace CardDuel

/-! ## §1 Writes -/

/-- What is declared of the two stats is the same. -/
structure Stat.Alike (s s' : Stat) : Prop where
  name : s'.name = s.name
  low : s'.low = s.low
  high : s'.high = s.high

/-- Every write gives a stat another base value, more modifiers, or
neither. -/
theorem Adjustment.apply_eq_replace (a : Adjustment) (amount : Points) (turns : UInt32) (s : Stat) :
    ∃ base added, (∀ m ∈ added, 0 < m.turns) ∧
      a.apply amount turns s =
        s.replace { s with base := base, modifiers := s.modifiers ++ added } := by
  have hset (value : Points) : ∃ base added, (∀ m ∈ added, 0 < m.turns) ∧
      s.setBase value = s.replace { s with base := base, modifiers := s.modifiers ++ added } :=
    ⟨value, [], by simp, by simp [Stat.setBase]⟩
  have hadd (value : Points) : ∃ base added, (∀ m ∈ added, 0 < m.turns) ∧
      s.addModifier value turns =
        s.replace { s with base := base, modifiers := s.modifiers ++ added } := by
    refine ⟨s.base, [⟨value, max turns 1⟩], fun m hm => ?_, rfl⟩
    rw [List.mem_singleton.mp hm]
    show (0 : UInt32) < if turns ≤ 1 then 1 else turns
    split
    · decide
    · rename_i hturns
      rw [UInt32.lt_iff_toNat_lt]
      rw [UInt32.le_iff_toNat_le] at hturns
      exact Nat.lt_trans Nat.zero_lt_one (Nat.lt_of_not_le hturns)
  cases a with
  | set => exact hset amount
  | increase =>
    dsimp only [Adjustment.apply]
    split
    · exact hset _
    · exact hadd _
  | decrease =>
    dsimp only [Adjustment.apply]
    split
    · exact hset _
    · exact hadd _

theorem Stat.replace_eq_ok {before after s' : Stat} {change : StatChange}
    (h : before.replace after = .ok (change, s')) :
    s' = after ∧ before.effective = .ok change.old ∧ after.effective = .ok change.new := by
  obtain ⟨old, hold, h⟩ := Except.bind_eq_ok_iff.mp h
  obtain ⟨new, hnew, h⟩ := Except.bind_eq_ok_iff.mp h
  cases h
  exact ⟨rfl, hold, hnew⟩

theorem Adjustment.alike_of_apply {a : Adjustment} {amount : Points} {turns : UInt32} {s s' : Stat}
    {change : StatChange} (h : a.apply amount turns s = .ok (change, s')) : s.Alike s' := by
  obtain ⟨base, added, -, hreplace⟩ := a.apply_eq_replace amount turns s
  rw [hreplace] at h
  obtain ⟨rfl, -, -⟩ := Stat.replace_eq_ok h
  exact ⟨rfl, rfl, rfl⟩

/-! ## §2 Ageing -/

theorem Modifier.value_of_age {m m' : Modifier} (h : m.age = .ok m') : m'.value = m.value := by
  unfold Modifier.age at h
  split at h
  · cases h
  · cases h; rfl

theorem Modifier.values_of_age :
    ∀ {l l' : List Modifier}, l.mapM Modifier.age = .ok l' → l'.map value = l.map value
  | [], l', h => by
    rw [List.mapM_nil] at h
    cases h
    rfl
  | m :: rest, l', h => by
    rw [List.mapM_cons] at h
    obtain ⟨m', hm, h⟩ := Except.bind_eq_ok_iff.mp h
    obtain ⟨rest', hrest, h⟩ := Except.bind_eq_ok_iff.mp h
    cases h
    rw [List.map_cons, List.map_cons, value_of_age hm, values_of_age hrest]

namespace Stat

variable {s s' : Stat}

theorem total_eq_foldl (s : Stat) :
    s.total = (s.modifiers.map Modifier.value).foldl Points.add s.base := by
  simp [total, List.foldl_map]

theorem Alike.effective_eq (h : s.Alike s') (ht : s'.total = s.total) :
    s'.effective = s.effective := by
  rw [effective, effective, ht, h.low, h.high]

/-- Ageing keeps what is declared, and if it reports no change, then the
effective value is the same. -/
theorem alike_of_tick {change : Option StatChange} (h : s.tick = .ok (change, s')) :
    s.Alike s' ∧ (change = none → s'.effective = s.effective) := by
  unfold tick at h
  split at h
  · cases h
    exact ⟨⟨rfl, rfl, rfl⟩, fun _ => rfl⟩
  · obtain ⟨old, hold, h⟩ := Except.bind_eq_ok_iff.mp h
    obtain ⟨aged, haged, h⟩ := Except.bind_eq_ok_iff.mp h
    dsimp only at h
    split at h
    · rename_i hlength
      cases h
      have hvalues := Modifier.values_of_age haged
      have hkept : aged.filter (0 < ·.turns) = aged := by
        rw [List.filter_eq_self, ← List.length_filter_eq_length_iff, hlength]
        simpa using (congrArg List.length hvalues).symm
      have halike : s.Alike { s with modifiers := aged.filter (0 < ·.turns) } := ⟨rfl, rfl, rfl⟩
      refine ⟨halike, fun _ => halike.effective_eq ?_⟩
      rw [total_eq_foldl, total_eq_foldl, hkept, hvalues]
    · obtain ⟨new, hnew, h⟩ := Except.bind_eq_ok_iff.mp h
      cases h
      exact ⟨⟨rfl, rfl, rfl⟩, fun hnone => by cases hnone⟩

theorem change_of_tick {change : StatChange} (h : s.tick = .ok (some change, s')) :
    s.effective = .ok change.old ∧ s'.effective = .ok change.new := by
  unfold tick at h
  split at h
  · cases h
  · obtain ⟨old, hold, h⟩ := Except.bind_eq_ok_iff.mp h
    obtain ⟨aged, -, h⟩ := Except.bind_eq_ok_iff.mp h
    dsimp only at h
    split at h
    · cases h
    · obtain ⟨new, hnew, h⟩ := Except.bind_eq_ok_iff.mp h
      cases h
      exact ⟨hold, hnew⟩

end Stat

/-! ## §3 Blocks -/

namespace StatBlock

variable {b b' : StatBlock} {name name' : String} {s s' : Stat}

theorem lastIndex?_eq_none_iff {l : List Stat} :
    lastIndex? name l = none ↔ name ∉ l.map Stat.name := by
  induction l with
  | nil => simp [lastIndex?]
  | cons s rest ih =>
    rw [lastIndex?, List.map_cons, List.mem_cons, not_or, ← ih]
    cases lastIndex? name rest with
    | none => simp [eq_comm]
    | some i => simp

/-- A name reaches the last stat that has it. -/
theorem lastIndex?_eq_some_iff {l : List Stat} {i : Nat} :
    lastIndex? name l = some i ↔
      (l.map Stat.name)[i]? = some name ∧ name ∉ (l.map Stat.name).drop (i + 1) := by
  induction l generalizing i with
  | nil => simp [lastIndex?]
  | cons s rest ih =>
    rw [lastIndex?]
    cases i with
    | zero =>
      rw [List.map_cons, List.getElem?_cons_zero, List.drop_succ_cons, List.drop_zero,
        ← lastIndex?_eq_none_iff]
      cases lastIndex? name rest <;> simp
    | succ i =>
      rw [List.map_cons, List.getElem?_cons_succ, List.drop_succ_cons, ← ih]
      cases lastIndex? name rest with
      | none => simp
      | some j => simp

theorem lastIndex?_eq_some {l : List Stat} {i : Nat} (h : lastIndex? name l = some i) :
    ∃ s, l[i]? = some s ∧ s.name = name := by
  obtain ⟨hi, -⟩ := lastIndex?_eq_some_iff.mp h
  rwa [List.getElem?_map, Option.map_eq_some_iff] at hi

/-- The place that a name reaches is a matter of the names alone. -/
theorem lastIndex?_congr :
    ∀ {l l' : List Stat}, l'.map Stat.name = l.map Stat.name →
      lastIndex? name l' = lastIndex? name l
  | [], [], _ => rfl
  | s :: rest, s' :: rest', h => by
    rw [List.map_cons, List.map_cons, List.cons.injEq] at h
    rw [lastIndex?, lastIndex?, lastIndex?_congr h.2, h.1]
  | [], s' :: rest', h => by cases h
  | s :: rest, [], h => by cases h

theorem get?_eq_some (h : b.get? name = some s) :
    ∃ i, lastIndex? name b.stats = some i ∧ b.stats[i]? = some s ∧ s.name = name := by
  obtain ⟨i, hi, hs⟩ := Option.bind_eq_some_iff.mp h
  obtain ⟨s₀, hs₀, hname⟩ := lastIndex?_eq_some hi
  cases hs.symm.trans hs₀
  exact ⟨i, hi, hs, hname⟩

theorem value?_of_get? (h : b.get? name = some s) : b.value? name = s.effective.map some := by
  rw [value?, h]

theorem names_set {i : Nat} (h : b.stats[i]? = some s) (hs : s'.name = s.name) :
    (StatBlock.mk (b.stats.set i s')).names = b.names := by
  rw [names, names, List.map_set]
  refine List.ext_getElem? fun j => ?_
  rw [List.getElem?_set]
  split
  · rename_i hij
    subst hij
    split
    · simp [h, hs]
    · rename_i hlen
      simp at hlen
      simp [List.getElem?_eq_none hlen] at h
  · rfl

/-- A write to a stat of another name is not seen. -/
theorem get?_set_of_ne {i : Nat} (h : b.stats[i]? = some s) (hs : s'.name = s.name)
    (hne : s.name ≠ name) : (StatBlock.mk (b.stats.set i s')).get? name = b.get? name := by
  rw [get?, lastIndex?_congr (names_set h hs)]
  cases hj : lastIndex? name b.stats with
  | none => simp [get?, hj]
  | some j =>
    obtain ⟨s₁, hs₁, hname₁⟩ := lastIndex?_eq_some hj
    have hij : i ≠ j := by
      intro heq
      subst heq
      cases h.symm.trans hs₁
      exact hne hname₁
    simp [get?, hj, hij]

theorem put_eq_set (h : b.get? name = some s) :
    ∃ i, lastIndex? name b.stats = some i ∧ b.stats[i]? = some s ∧ s.name = name ∧
      ∀ s', b.put name s' = ⟨b.stats.set i s'⟩ := by
  obtain ⟨i, hi, hget, hname⟩ := get?_eq_some h
  exact ⟨i, hi, hget, hname, fun s' => by rw [put, hi]⟩

theorem names_put (h : b.get? name = some s) (hs : s'.name = s.name) :
    (b.put name s').names = b.names := by
  obtain ⟨i, -, hget, -, hput⟩ := put_eq_set h
  rw [hput, names_set hget hs]

/-- After a write, its own name reaches the new stat, and any other name
what it reached before. -/
theorem get?_put (h : b.get? name = some s) (hs : s'.name = s.name) :
    (b.put name s').get? name' = if name' = name then some s' else b.get? name' := by
  obtain ⟨i, hi, hget, rfl, hput⟩ := put_eq_set h
  split
  · rename_i heq
    rw [get?, lastIndex?_congr (names_put h hs), heq, hi, hput]
    simp [(List.getElem?_eq_some_iff.mp hget).1]
  · rename_i hne
    rw [hput, get?_set_of_ne hget hs fun heq => hne heq.symm]

theorem value?_put_of_ne (h : b.get? name = some s) (hs : s'.name = s.name) (hne : name' ≠ name) :
    (b.put name s').value? name' = b.value? name' := by
  rw [value?, get?_put h hs, if_neg hne, value?]

theorem names_of_forall₂ {R : Stat → Stat → Prop} (hR : ∀ s s', R s s' → s'.name = s.name)
    {l l' : List Stat} (h : List.Forall₂ R l l') : l'.map Stat.name = l.map Stat.name := by
  induction h with
  | nil => rfl
  | cons hs _ ih => rw [List.map_cons, List.map_cons, hR _ _ hs, ih]

/-- A name that stands in one place only reaches the stat in that place. -/
theorem lastIndex?_of_unique {l : List Stat} {i : Nat} (hcount : (l.map Stat.name).count name = 1)
    (hs : l[i]? = some s) (hname : s.name = name) : lastIndex? name l = some i := by
  have hi : (l.map Stat.name)[i]? = some name := by simp [hs, hname]
  refine lastIndex?_eq_some_iff.mpr ⟨hi, fun hlater => ?_⟩
  obtain ⟨hlength, hget⟩ := List.getElem?_eq_some_iff.mp hi
  have hfrom : ((l.map Stat.name).drop i).count name ≤ 1 :=
    hcount ▸ (List.drop_sublist i _).count_le name
  rw [List.drop_eq_getElem_cons hlength, hget, List.count_cons_self] at hfrom
  have hpos := List.count_pos_iff.mpr hlater
  omega

theorem get?_of_unique {i : Nat} (hcount : b.names.count name = 1) (hs : b.stats[i]? = some s)
    (hname : s.name = name) : b.get? name = some s := by
  rw [get?, lastIndex?_of_unique hcount hs hname]
  exact hs

/-- Ageing of a list is ageing of its stats, one by one, and every change
is reported. -/
theorem forall₂_of_tickAll :
    ∀ {l l' : List Stat} {changes : List (String × StatChange)}, tickAll l = .ok (changes, l') →
      List.Forall₂ (fun s s' => ∃ change, s.tick = .ok (change, s') ∧
        ∀ c, change = some c → (s.name, c) ∈ changes) l l'
  | [], l', changes, h => by
    cases h
    exact .nil
  | s :: rest, l', changes, h => by
    obtain ⟨⟨change, s'⟩, hs, h⟩ := Except.bind_eq_ok_iff.mp h
    obtain ⟨⟨changes', rest'⟩, hrest, h⟩ := Except.bind_eq_ok_iff.mp h
    have ih := forall₂_of_tickAll hrest
    cases change with
    | none =>
      cases h
      exact .cons ⟨none, hs, fun c hc => by cases hc⟩ ih
    | some c =>
      cases h
      refine .cons ⟨some c, hs, fun c' hc' => by cases hc'; exact List.mem_cons_self⟩
        (ih.imp fun s s' ⟨change, hs, hmem⟩ => ⟨change, hs, fun c' hc' => ?_⟩)
      exact List.mem_cons_of_mem _ (hmem c' hc')

theorem forall₂_of_tick {changes : List (String × StatChange)} (h : b.tick = .ok (changes, b')) :
    List.Forall₂ (fun s s' => ∃ change, s.tick = .ok (change, s') ∧
      ∀ c, change = some c → (s.name, c) ∈ changes) b.stats b'.stats := by
  obtain ⟨⟨changes', stats⟩, htick, h⟩ := Except.bind_eq_ok_iff.mp h
  cases h
  exact forall₂_of_tickAll htick

/-- Ageing of a block: under a name for which no change is reported, the
effective value is the same. -/
theorem value?_tick {changes : List (String × StatChange)} (h : b.tick = .ok (changes, b'))
    (hname : ∀ change, (name, change) ∉ changes) : b'.value? name = b.value? name := by
  have hall := forall₂_of_tick h
  have hnames := names_of_forall₂ (fun _ _ ⟨_, hs, _⟩ => (Stat.alike_of_tick hs).1.name) hall
  rw [value?, value?, get?, get?, lastIndex?_congr hnames]
  cases hi : lastIndex? name b.stats with
  | none => rfl
  | some i =>
    obtain ⟨s, hs, rfl⟩ := lastIndex?_eq_some hi
    obtain ⟨hlen, rfl⟩ := List.getElem?_eq_some_iff.mp hs
    have hlen' : i < b'.stats.length := hall.length_eq ▸ hlen
    obtain ⟨change, hs, hreported⟩ := hall.get hlen hlen'
    cases change with
    | none =>
      have hsame : b'.stats[i].effective = b.stats[i].effective := (Stat.alike_of_tick hs).2 rfl
      simp [hlen, hlen', hsame]
    | some c => exact absurd (hreported c rfl) (hname c)

end StatBlock

end CardDuel
