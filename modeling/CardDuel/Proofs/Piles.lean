/-
CardDuel.Proofs.Piles — changes of zones and seats, one after the other.

A draw and a deal change the same zone again and again, from the top.
Many such changes come to one: the zone without its top cards, or with
further cards on top of them. Changes of one zone or seat come together,
changes of different ones can be made in either order, and a change that
does nothing to what is found does nothing.

  §1 Zones  — several cards taken from the top or put there.
  §2 Seats  — changes of a zone of a seat.
  §3 Duels  — changes of a seat of a duel.
-/
import CardDuel.Proofs.Layout

namespace CardDuel

/-! ## §1 Zones -/

namespace Zone

/-- The top cards of a zone, from the top down. -/
def top (z : Zone) (n : Nat) : List InstanceId := z.cards.reverse.take n

/-- The zone without its top cards. -/
def dropTops (z : Zone) (n : Nat) : Zone := { z with cards := z.cards.take (z.cards.length - n) }

/-- Puts cards on top, the first of them first. -/
def pushAll (z : Zone) (cards : List InstanceId) : Zone := { z with cards := z.cards ++ cards }

variable {z : Zone}

theorem cards_eq_dropTops_append_top (n : Nat) :
    z.cards = (z.dropTops n).cards ++ (z.top n).reverse := by
  rw [top, List.take_reverse, List.reverse_reverse]
  exact (List.take_append_drop _ _).symm

theorem length_top (n : Nat) : (z.top n).length = min n z.cards.length := by simp [top]

theorem nodup_top (h : z.cards.Nodup) (n : Nat) : (z.top n).Nodup :=
  (List.nodup_reverse.mpr h).sublist (List.take_sublist n _)

theorem dropTops_zero : z.dropTops 0 = z := by simp [dropTops]

theorem pushAll_nil : z.pushAll [] = z := by simp [pushAll]

theorem dropTops_dropTop (n : Nat) : z.dropTop.dropTops n = z.dropTops (n + 1) := by
  simp only [dropTops, dropTop, Zone.mk.injEq, true_and]
  rw [List.dropLast_eq_take, List.take_take, List.length_take]
  congr 1
  omega

theorem pushAll_push (card : InstanceId) (cards : List InstanceId) :
    (z.push card).pushAll cards = z.pushAll (card :: cards) := by
  simp [pushAll, push]

/-- A zone with a top card has it above the cards that are left without
it. -/
theorem top_succ {card : InstanceId} (h : z.top? = some card) (n : Nat) :
    z.top (n + 1) = card :: z.dropTop.top n := by
  have hcards : z.cards = z.cards.dropLast ++ [card] :=
    (List.dropLast_append_getLast? card h).symm
  rw [top, hcards, List.reverse_append]
  rfl

theorem cards_of_top?_eq_none (h : z.top? = none) : z.cards = [] :=
  List.getLast?_eq_none_iff.mp h

end Zone

/-! ## §2 Seats -/

namespace Seat

variable {s : Seat} {id id' : ZoneId} {z : Zone}

@[simp] theorem id_modifyZone (f : Zone → Zone) : (s.modifyZone id f).id = s.id := rfl

theorem modifyZone_id : s.modifyZone id (fun z => z) = s := by
  simp [modifyZone]

theorem modifyZone_modifyZone (f g : Zone → Zone) (hf : ∀ z, (f z).spec = z.spec) :
    (s.modifyZone id f).modifyZone id g = s.modifyZone id fun z => g (f z) := by
  have hid (z : Zone) : (f z).id = z.id := congrArg ZoneSpec.id (hf z)
  simp only [modifyZone, List.map_map, Seat.mk.injEq, true_and, and_true]
  refine List.map_congr_left fun z _ => ?_
  by_cases hz : z.id = id <;> simp [hz, hid]

theorem modifyZone_comm (hne : id ≠ id') (f g : Zone → Zone) (hf : ∀ z, (f z).spec = z.spec)
    (hg : ∀ z, (g z).spec = z.spec) :
    (s.modifyZone id f).modifyZone id' g = (s.modifyZone id' g).modifyZone id f := by
  have hfid (z : Zone) : (f z).id = z.id := congrArg ZoneSpec.id (hf z)
  have hgid (z : Zone) : (g z).id = z.id := congrArg ZoneSpec.id (hg z)
  simp only [modifyZone, List.map_map, Seat.mk.injEq, true_and, and_true]
  refine List.map_congr_left fun z _ => ?_
  by_cases hz : z.id = id
  · simp [hz, hfid, hne]
  · by_cases hz' : z.id = id' <;> simp [hz, hz', hgid, hne.symm]

/-- A change that leaves the zone found as it is leaves the seat. -/
theorem modifyZone_eq_self (h : s.Distinct) (hz : s.zone? id = some z) {f : Zone → Zone}
    (hf : f z = z) : s.modifyZone id f = s := by
  have hkept : ∀ z' ∈ s.zones, (if z'.id = id then f z' else z') = z' := by
    intro z' hz'
    split
    · rename_i hid
      have hfound := h.zone?_of_mem hz'
      rw [hid, hz] at hfound
      cases hfound
      exact hf
    · rfl
  rw [modifyZone, List.map_congr_left hkept, List.map_id']

end Seat

/-! ## §3 Duels -/

namespace Duel

variable {d : Duel} {p q : PlayerId}

theorem modifySeat_id : d.modifySeat p (fun st => st) = d := by
  unfold modifySeat
  split
  · rfl
  · split <;> rfl

/-- Changes that agree on the seat found are the same. -/
theorem modifySeat_congr {st : Seat} {f g : Seat → Seat} (h : d.seat p = .ok st)
    (hfg : f st = g st) : d.modifySeat p f = d.modifySeat p g := by
  unfold seat at h
  unfold modifySeat
  split at h
  · rename_i hp
    cases h
    rw [if_pos hp, if_pos hp, hfg]
  · rename_i hp
    split at h
    · rename_i hp'
      cases h
      rw [if_neg hp, if_neg hp, if_pos hp', if_pos hp', hfg]
    · cases h

theorem modifySeat_comm (hne : p ≠ q) {f g : Seat → Seat} (hf : ∀ s, (f s).id = s.id)
    (hg : ∀ s, (g s).id = s.id) :
    (d.modifySeat p f).modifySeat q g = (d.modifySeat q g).modifySeat p f := by
  by_cases h1 : d.first.id = p
  · by_cases h2 : d.second.id = q <;> simp [modifySeat, h1, h2, hf, hne]
  · by_cases h2 : d.first.id = q
    · by_cases h3 : d.second.id = p <;> simp [modifySeat, h2, h3, hg, hne.symm]
    · by_cases h3 : d.second.id = p
      · simp [modifySeat, h1, h2, h3, hf, hne]
      · by_cases h4 : d.second.id = q <;> simp [modifySeat, h1, h2, h3, h4, hg, hne.symm]

end Duel

end CardDuel
