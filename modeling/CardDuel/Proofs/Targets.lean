/-
CardDuel.Proofs.Targets — the targets of an effect are in the duel.

A player target means players of the duel. A card target means the
source, or cards that lie in a zone. Sorting out the targets that fail a
condition adds none, and fails only if a stat cannot be read.

  §1 Pools      — the members of the pools.
  §2 Conditions — the members that are kept.
-/
import CardDuel.Play.Targeting
import CardDuel.Proofs.Fixture

namespace CardDuel.Play

variable {d : Duel}

/-! ## §1 Pools -/

/-- The members of a pool. -/
def Pool.members {α : Type} : Pool α → List α
  | .every members => members
  | .oneOf members => members

theorem mem_players_of_playerPool {acting q : PlayerId} {selection : Selection}
    {kind : PlayerTarget} {pool : Pool PlayerId}
    (h : playerPool d acting selection kind = .ok pool) (hq : q ∈ pool.members) :
    q ∈ d.fixture.players := by
  obtain ⟨opponent, hopponent, h⟩ := Except.bind_eq_ok_iff.mp h
  obtain ⟨hacting, hopponent⟩ := Duel.opponent_eq_ok hopponent
  have hboth : ∀ q ∈ [d.first.id, d.second.id], q ∈ d.fixture.players := fun q hq => hq
  cases kind with
  | acting => cases h; rw [List.mem_singleton.mp hq]; exact hacting
  | opponent => cases h; rw [List.mem_singleton.mp hq]; exact hopponent
  | chosen =>
    dsimp only at h
    split at h
    · cases h; rw [List.mem_singleton.mp hq]; exact hacting
    · cases h; rw [List.mem_singleton.mp hq]; exact hopponent
    · cases h; cases hq
  | random =>
    dsimp only at h
    split at h
    · cases h; exact hboth q hq
    · cases h; exact hboth q (List.Perm.mem_iff (List.Perm.swap ..) |>.mp hq)
  | all => cases h; exact hboth q hq

variable {place : ZoneId} {id : InstanceId}

theorem lies_of_candidates {ct : CardTypeId} :
    ∀ {players : List PlayerId} {ids : List InstanceId},
      candidates d place ct players = .ok ids →
        ∀ id ∈ ids, ∃ p z, d.zone p place = .ok z ∧ id ∈ z.cards
  | [], ids, h => by cases h; simp
  | p :: rest, ids, h => by
    obtain ⟨z, hz, h⟩ := Except.bind_eq_ok_iff.mp h
    obtain ⟨others, hothers, h⟩ := Except.bind_eq_ok_iff.mp h
    cases h
    intro id hid
    rcases List.mem_append.mp hid with hm | hm
    · exact ⟨p, z, hz, (List.mem_filter.mp hm).1⟩
    · exact lies_of_candidates hothers id hm

theorem lies_of_liesIn :
    ∀ {players : List PlayerId}, liesIn d place id players = .ok true →
      ∃ p z, d.zone p place = .ok z ∧ id ∈ z.cards
  | [], h => by cases h
  | p :: rest, h => by
    obtain ⟨z, hz, h⟩ := Except.bind_eq_ok_iff.mp h
    split at h
    · rename_i hcard
      exact ⟨p, z, hz, by simpa [Zone.contains] using hcard⟩
    · exact lies_of_liesIn h

/-- A card target is the source, or lies in a zone. -/
theorem lies_of_cardPool {acting : PlayerId} {source : InstanceId} {ct : CardTypeId}
    {selection : Selection} {kind : CardTarget} {pool : Pool InstanceId}
    (h : cardPool d acting source place ct selection kind = .ok pool) (hid : id ∈ pool.members) :
    id = source ∨ ∃ p place' z, d.zone p place' = .ok z ∧ id ∈ z.cards := by
  obtain ⟨opponent, -, h⟩ := Except.bind_eq_ok_iff.mp h
  cases kind with
  | source => cases h; exact .inl (List.mem_singleton.mp hid)
  | chosen side =>
    dsimp only at h
    split at h
    · cases h; cases hid
    · rename_i card _
      obtain ⟨found, hfound, h⟩ := Except.bind_eq_ok_iff.mp h
      cases h
      cases found with
      | false => cases hid
      | true =>
        rw [List.mem_singleton.mp hid]
        obtain ⟨p, z, hz⟩ := lies_of_liesIn hfound
        exact .inr ⟨p, _, z, hz⟩
  | random side =>
    obtain ⟨ids, hids, h⟩ := Except.bind_eq_ok_iff.mp h
    cases h
    obtain ⟨p, z, hz⟩ := lies_of_candidates hids id hid
    exact .inr ⟨p, _, z, hz⟩
  | all side =>
    obtain ⟨ids, hids, h⟩ := Except.bind_eq_ok_iff.mp h
    cases h
    obtain ⟨p, z, hz⟩ := lies_of_candidates hids id hid
    exact .inr ⟨p, _, z, hz⟩

/-! ## §2 Conditions -/

variable {α : Type} {bearer : α → Bearer} {conditions : List Condition} {cause : Fault}

theorem statValue?_of_satisfies {b : Bearer} :
    ∀ {conditions : List Condition}, satisfies d b conditions = .error cause →
      ∃ stat, d.statValue? b stat = .error cause
  | [], h => by cases h
  | c :: rest, h => by
    unfold satisfies at h
    cases hv : d.statValue? b c.stat with
    | error cause' =>
      rw [hv] at h
      cases h
      exact ⟨c.stat, hv⟩
    | ok value =>
      rw [hv] at h
      cases value with
      | none => cases h
      | some value =>
        change (if c.holds value = true then _ else _) = _ at h
        split at h
        · exact statValue?_of_satisfies h
        · cases h

/-- Only a stat that cannot be read keeps targets from being sorted out. -/
theorem statValue?_of_keepSatisfying :
    ∀ {l : List α}, keepSatisfying d bearer conditions l = .error cause →
      ∃ b stat, d.statValue? b stat = .error cause
  | [], h => by cases h
  | a :: rest, h => by
    unfold keepSatisfying at h
    cases hkept : satisfies d (bearer a) conditions with
    | error cause' =>
      rw [hkept] at h
      cases h
      exact ⟨bearer a, statValue?_of_satisfies hkept⟩
    | ok kept =>
      cases hothers : keepSatisfying d bearer conditions rest with
      | error cause' =>
        rw [hkept, hothers] at h
        cases h
        exact statValue?_of_keepSatisfying hothers
      | ok others =>
        rw [hkept, hothers] at h
        cases h

theorem mem_of_keepSatisfying :
    ∀ {l kept : List α}, keepSatisfying d bearer conditions l = .ok kept → ∀ a ∈ kept, a ∈ l
  | [], kept, h => by cases h; simp
  | a :: rest, kept, h => by
    obtain ⟨holds, -, h⟩ := Except.bind_eq_ok_iff.mp h
    obtain ⟨others, hothers, h⟩ := Except.bind_eq_ok_iff.mp h
    have hrest := mem_of_keepSatisfying hothers
    cases h
    intro a' ha'
    split at ha'
    · rcases List.mem_cons.mp ha' with rfl | hm
      · exact List.mem_cons_self
      · exact List.mem_cons_of_mem a (hrest a' hm)
    · exact List.mem_cons_of_mem a (hrest a' ha')

end CardDuel.Play
