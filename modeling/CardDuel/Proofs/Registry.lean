/-
CardDuel.Proofs.Registry — the index of a registry.

The index is in order from the empty registry on, whatever ids are
registered. So a look-up by way of the index is a search of the list for
the id, and an id stands out of its place exactly where it is repeated.
Every question to a registry can therefore be answered from the list of
its registrations, and the registry made from its own list is that
registry.

  §1 Lists        — what is registered, in order.
  §2 Look-ups     — the card that an id names.
  §3 Repeated ids — the first place where an id stands once more.
  §4 Answers      — all questions, for all sequences of registrations.
-/
import CardDuel.Catalog.Registry
import Mathlib.Data.List.Nodup

namespace CardDuel.Registry

/-! ## §1 Lists -/

variable (r : Registry)

theorem cards_foldl_register (cards : List CardSpec) :
    (cards.foldl register r).cards = r.cards ++ cards := by
  induction cards generalizing r with
  | nil => rw [List.foldl_nil, List.append_nil]
  | cons c rest ih => rw [List.foldl_cons, ih, register, List.append_assoc, List.singleton_append]

@[simp] theorem cards_ofList (cards : List CardSpec) : (ofList cards).cards = cards :=
  cards_foldl_register empty cards

/-- Registered one by one, the cards of a registry make it up again. -/
theorem ofList_cards : ofList r.cards = r := ext (cards_ofList r.cards)

/-! ## §2 Look-ups -/

theorem get?_eq_find? (id : CardId) : r.get? id = r.cards.find? (·.id = id) := by
  rw [get?, r.index_eq, List.find?_eq_bind_findIdx?_getElem?]

variable {r}

theorem mem_of_get? {id : CardId} {c : CardSpec} (h : r.get? id = some c) : c ∈ r.cards :=
  List.mem_of_find?_eq_some (r.get?_eq_find? id ▸ h)

theorem id_of_get? {id : CardId} {c : CardSpec} (h : r.get? id = some c) : c.id = id := by
  rw [get?_eq_find?] at h
  simpa using List.find?_some h

/-- A card stands where its id is indexed if no card before it has the id. -/
theorem index_id_eq_some_iff {place : Nat} {c : CardSpec} (h : r.cards[place]? = some c) :
    r.index c.id = some place ↔ c.id ∉ (r.cards.map CardSpec.id).take place := by
  obtain ⟨hplace, rfl⟩ := List.getElem?_eq_some_iff.mp h
  rw [r.index_eq, List.findIdx?_eq_some_iff_getElem, List.mem_take_iff_getElem]
  simp only [List.getElem_map, List.length_map, decide_true, hplace, exists_true_left, true_and,
    not_exists, Nat.lt_min, decide_eq_true_eq]
  constructor
  · intro hearlier earlier hlt
    exact hearlier earlier hlt.1
  · intro hearlier earlier hlt
    exact hearlier earlier ⟨hlt, Nat.lt_trans hlt hplace⟩

/-- An id names the card that stands first under it. -/
theorem get?_eq_some_iff {id : CardId} {c : CardSpec} :
    r.get? id = some c ↔
      c.id = id ∧ ∃ place,
        r.cards[place]? = some c ∧ id ∉ (r.cards.map CardSpec.id).take place := by
  constructor
  · intro h
    obtain rfl : c.id = id := id_of_get? h
    obtain ⟨place, hplace, hc⟩ := Option.bind_eq_some_iff.mp h
    exact ⟨rfl, place, hc, (index_id_eq_some_iff hc).mp hplace⟩
  · intro h
    obtain ⟨rfl, place, hc, hfirst⟩ := h
    rw [get?, (index_id_eq_some_iff hc).mpr hfirst]
    exact hc

theorem get?_eq_none_iff {id : CardId} : r.get? id = none ↔ id ∉ r.cards.map CardSpec.id := by
  rw [get?_eq_find?, List.find?_eq_none]
  simp

theorem contains_iff {id : CardId} : r.contains id ↔ id ∈ r.cards.map CardSpec.id := by
  rw [contains, r.index_eq, List.findIdx?_isSome]
  simp

/-! ## §3 Repeated ids -/

/-- The ids before a place differ if none of them stands before itself. -/
theorem nodup_take_iff {ids : List CardId} {place : Nat} :
    (ids.take place).Nodup ↔
      ∀ earlier < place, ∀ id, ids[earlier]? = some id → id ∉ ids.take earlier := by
  induction place with
  | zero => simp
  | succ place ih =>
    rw [Nat.forall_lt_succ_right, ← ih, List.take_add_one]
    cases ids[place]? with
    | none => simp
    | some id =>
      rw [Option.toList_some, ← List.concat_eq_append, List.nodup_concat, and_comm]
      simp

/-- The search ends at the first id that stands at an earlier place, too. -/
theorem firstDuplicate?_eq_some_iff {id : CardId} :
    r.firstDuplicate? = some id ↔
      ∃ place, (r.cards.map CardSpec.id)[place]? = some id ∧
        id ∈ (r.cards.map CardSpec.id).take place ∧
          ((r.cards.map CardSpec.id).take place).Nodup := by
  rw [firstDuplicate?, Option.map_eq_some_iff]
  constructor
  · intro h
    obtain ⟨⟨c, _⟩, hfound, rfl⟩ := h
    obtain ⟨hmoved, place, hplace, hc, hbefore⟩ := List.find?_eq_some_iff_getElem.mp hfound
    rw [List.getElem_zipIdx, Nat.zero_add, Prod.mk.injEq] at hc
    obtain ⟨hc, rfl⟩ := hc
    have hc : r.cards[place]? = some c :=
      List.getElem?_eq_some_iff.mpr ⟨by simpa using hplace, hc⟩
    refine ⟨place, by simp [hc], ?_, nodup_take_iff.mpr fun earlier hlt id hid => ?_⟩
    · simpa [index_id_eq_some_iff hc] using hmoved
    · rw [List.getElem?_map, Option.map_eq_some_iff] at hid
      obtain ⟨c', hc', rfl⟩ := hid
      obtain ⟨_, rfl⟩ := List.getElem?_eq_some_iff.mp hc'
      simpa [index_id_eq_some_iff hc'] using hbefore earlier hlt
  · intro h
    obtain ⟨place, hid, hmoved, hbefore⟩ := h
    rw [List.getElem?_map, Option.map_eq_some_iff] at hid
    obtain ⟨c, hc, rfl⟩ := hid
    obtain ⟨hplace, rfl⟩ := List.getElem?_eq_some_iff.mp hc
    refine ⟨(r.cards[place], place), List.find?_eq_some_iff_getElem.mpr ?_, rfl⟩
    refine ⟨by simpa [index_id_eq_some_iff hc] using hmoved, place, by simpa using hplace,
      by simp, fun earlier hlt => ?_⟩
    have hc' := List.getElem?_eq_getElem (Nat.lt_trans hlt hplace)
    simpa [index_id_eq_some_iff hc'] using nodup_take_iff.mp hbefore earlier hlt _ (by simp [hc'])

/-- There is no repeated id if and only if all ids differ. -/
theorem firstDuplicate?_eq_none_iff :
    r.firstDuplicate? = none ↔ (r.cards.map CardSpec.id).Nodup := by
  rw [firstDuplicate?, Option.map_eq_none_iff, List.find?_eq_none,
    ← (r.cards.map CardSpec.id).take_length, nodup_take_iff]
  constructor
  · intro h place _ id hid
    rw [List.getElem?_map, Option.map_eq_some_iff] at hid
    obtain ⟨c, hc, rfl⟩ := hid
    simpa [index_id_eq_some_iff hc] using h (c, place) (List.mk_mem_zipIdx_iff_getElem?.mpr hc)
  · intro h entry hentry
    have hc : r.cards[entry.2]? = some entry.1 := List.mem_zipIdx_iff_getElem?.mp hentry
    have hplace : entry.2 < (r.cards.map CardSpec.id).length := by
      simpa using (List.getElem?_eq_some_iff.mp hc).1
    simpa [index_id_eq_some_iff hc] using h entry.2 hplace _ (by simp [hc])

/-! ## §4 Answers -/

/-- The registry answers for the cards, registered in this order. -/
structure Answers (r : Registry) (cards : List CardSpec) : Prop where
  /-- All cards are listed, those of a repeated id included. -/
  listed : r.cards = cards
  /-- An id names the card registered first under it. -/
  named : ∀ id c, r.get? id = some c ↔
    c.id = id ∧ ∃ place, cards[place]? = some c ∧ id ∉ (cards.map CardSpec.id).take place
  unnamed : ∀ id, r.get? id = none ↔ id ∉ cards.map CardSpec.id
  contained : ∀ id, r.contains id ↔ id ∈ cards.map CardSpec.id
  /-- The repeated id is at the first place where an id stands once more. -/
  repeated : ∀ id, r.firstDuplicate? = some id ↔
    ∃ place, (cards.map CardSpec.id)[place]? = some id ∧
      id ∈ (cards.map CardSpec.id).take place ∧ ((cards.map CardSpec.id).take place).Nodup
  distinct : r.firstDuplicate? = none ↔ (cards.map CardSpec.id).Nodup

theorem answers (r : Registry) : r.Answers r.cards where
  listed := rfl
  named _ _ := get?_eq_some_iff
  unnamed _ := get?_eq_none_iff
  contained _ := contains_iff
  repeated _ := firstDuplicate?_eq_some_iff
  distinct := firstDuplicate?_eq_none_iff

/-- **A registry answers for its registrations**, whatever ids they have
and however often, and the registry made from its list is the same. -/
theorem registrations_answered (cards : List CardSpec) :
    (cards.foldl register empty).Answers cards ∧
      ofList (cards.foldl register empty).cards = cards.foldl register empty := by
  have hcards : (cards.foldl register empty).cards = cards := cards_ofList cards
  have hanswers := answers (cards.foldl register empty)
  rw [hcards] at hanswers
  exact ⟨hanswers, ofList_cards _⟩

end CardDuel.Registry
