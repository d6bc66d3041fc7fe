/-
CardDuel.Proofs.References — what a catalog that passes validation
declares.

`Catalog.validate` looks at every part of a catalog and reports the first
fault. `Catalog.Closed` collects what a catalog without faults promises
to a duel: zones have different numbers, the zones that rules, card types
and moves name are declared, and every printed card is of a declared
type. `closed_of_validate` reads it off the checks, part by part.
-/
import CardDuel.Catalog.Validation

/-! ## Checks in sequence -/

theorem Except.bind_eq_ok_iff {ε α β : Type} {x : Except ε α} {f : α → Except ε β} {b : β} :
    x >>= f = .ok b ↔ ∃ a, x = .ok a ∧ f a = .ok b := by
  cases x with
  | error e => simp [Bind.bind, Except.bind]
  | ok a => simp [Bind.bind, Except.bind]

theorem Except.forM_eq_ok_iff {ε α : Type} {f : α → Except ε Unit} :
    ∀ {l : List α}, l.forM f = .ok () ↔ ∀ a ∈ l, f a = .ok ()
  | [] => by simp [pure, Except.pure]
  | a :: rest => by
    show (f a >>= fun _ => rest.forM f) = .ok () ↔ _
    rw [bind_eq_ok_iff]
    simp only [forM_eq_ok_iff (l := rest), List.mem_cons, forall_eq_or_imp]
    exact ⟨fun ⟨_, h⟩ => h, fun h => ⟨(), h⟩⟩

namespace CardDuel

/-! ## Zones -/

namespace Catalog

/-- The numbers of the declared zones. -/
def zoneIds (c : Catalog) : List ZoneId := c.zones.map ZoneSpec.id

theorem mem_zoneIds_of_isSome {c : Catalog} {id : ZoneId} (h : (c.zone? id).isSome) :
    id ∈ c.zoneIds := by
  obtain ⟨z, hz⟩ := Option.isSome_iff_exists.mp h
  have hid : z.id = id := by simpa using List.find?_some hz
  exact List.mem_map.mpr ⟨z, List.mem_of_find?_eq_some hz, hid⟩

theorem mem_zoneIds_of_requireZone {c : Catalog} {id : ZoneId} (h : c.requireZone id = .ok ()) :
    id ∈ c.zoneIds := by
  unfold requireZone at h
  split at h
  · rename_i hz; exact mem_zoneIds_of_isSome hz
  · cases h

/-- Zones do not clash if no two share a number or a name, and none shares
one with those seen before. -/
theorem firstClash?_eq_none_iff {seen zones : List ZoneSpec} :
    ZoneSpec.firstClash? seen zones = none ↔
      zones.Pairwise (fun z z' => z.id ≠ z'.id ∧ z.name ≠ z'.name) ∧
        ∀ z ∈ zones, ∀ z' ∈ seen, z'.id ≠ z.id ∧ z'.name ≠ z.name := by
  induction zones generalizing seen with
  | nil => simp [ZoneSpec.firstClash?]
  | cons z rest ih =>
    rw [ZoneSpec.firstClash?]
    split
    · rename_i hclash
      obtain ⟨z', hz', hshared⟩ := List.any_eq_true.mp hclash
      simp only [reduceCtorEq, false_iff]
      intro h
      obtain ⟨-, hseen⟩ := h
      obtain ⟨hid, hname⟩ := hseen z List.mem_cons_self z' hz'
      simp [hid, hname] at hshared
    · rename_i hclash
      have hclash : ∀ z' ∈ seen, z'.id ≠ z.id ∧ z'.name ≠ z.name := by simpa using hclash
      rw [ih, List.pairwise_cons]
      simp only [List.mem_cons, forall_eq_or_imp]
      constructor
      · intro h
        obtain ⟨hrest, hseen⟩ := h
        exact ⟨⟨fun z' hz' => (hseen z' hz').1, hrest⟩, hclash, fun z' hz' => (hseen z' hz').2⟩
      · intro h
        obtain ⟨⟨hfirst, hrest⟩, -, hseen⟩ := h
        exact ⟨hrest, fun z' hz' => ⟨hfirst z' hz', hseen z' hz'⟩⟩

/-! ## Closed catalogs -/

/-- The effect is printed on a card of the catalog. -/
def Prints (c : Catalog) (e : Effect) : Prop :=
  ∃ card ∈ c.cards.cards, ∃ a ∈ card.abilities, a.effect = e

/-- Everything that a duel needs from its catalog is declared. -/
structure Closed (c : Catalog) : Prop where
  zones : c.zoneIds.Nodup
  rules : ∀ r ∈ c.rules.zones, r.2 ∈ c.zoneIds
  after : ∀ t ∈ c.cardTypes, ∀ z, t.zoneAfterTrigger = some z → z ∈ c.zoneIds
  types : ∀ card ∈ c.cards.cards, (c.cardType? card.cardType).isSome
  moves : ∀ e, c.Prints (.move e) → e.destination ∈ c.zoneIds

namespace Closed

variable {c : Catalog} (h : c.Closed)
include h

theorem deck : c.rules.deck ∈ c.zoneIds := h.rules ("deck", _) (by simp [Rules.zones])

theorem hand : c.rules.hand ∈ c.zoneIds := h.rules ("hand", _) (by simp [Rules.zones])

theorem board : c.rules.board ∈ c.zoneIds := h.rules ("board", _) (by simp [Rules.zones])

theorem graveyard : c.rules.graveyard ∈ c.zoneIds :=
  h.rules ("graveyard", _) (by simp [Rules.zones])

end Closed

theorem declared_of_validateEffect {c : Catalog} {card : CardId} {index : Nat} {e : MoveEffect}
    {target : Target} (h : c.validateEffect card index (.move e) target = .ok ()) :
    e.destination ∈ c.zoneIds := by
  cases target with
  | player kind conditions => simp [validateEffect] at h
  | card kind conditions =>
    simp only [validateEffect, Except.bind_eq_ok_iff] at h
    obtain ⟨_, _, _, hd, _⟩ := h
    exact mem_zoneIds_of_requireZone hd

/-- **A catalog that passes validation is closed.** -/
theorem closed_of_validate {c : Catalog} (h : c.validate = .ok ()) : c.Closed := by
  simp only [validate, Except.bind_eq_ok_iff] at h
  obtain ⟨_, hzones, _, hrules, _, htypes, _, _, hcards⟩ := h
  rw [Except.forM_eq_ok_iff] at htypes hcards
  have hcard (card : CardSpec) (hc : card ∈ c.cards.cards) :
      (c.cardType? card.cardType).isSome ∧
        ∀ a ∈ card.abilities, ∃ index, c.validateAbility card.id index a = .ok () := by
    have hv := hcards card hc
    simp only [validateCard, Except.bind_eq_ok_iff, Except.forM_eq_ok_iff] at hv
    obtain ⟨t, ht, _, _, habilities⟩ := hv
    refine ⟨?_, fun a ha => ?_⟩
    · unfold requireCardType at ht
      split at ht
      · rename_i h'; simp [h']
      · cases ht
    · obtain ⟨i, hi⟩ := List.mem_iff_getElem?.mp ha
      exact ⟨i, habilities (a, i) (List.mk_mem_zipIdx_iff_getElem?.mpr hi)⟩
  constructor
  case zones =>
    unfold validateZones at hzones
    split at hzones
    · cases hzones
    · rename_i hclash
      exact List.pairwise_map.mpr ((firstClash?_eq_none_iff.mp hclash).1.imp And.left)
  case rules =>
    simp only [validateRules, Except.bind_eq_ok_iff] at hrules
    obtain ⟨_, hzone, _⟩ := hrules
    intro r hr
    have hr := Except.forM_eq_ok_iff.mp hzone r hr
    split at hr
    · rename_i hz; exact mem_zoneIds_of_isSome hz
    · cases hr
  case after =>
    intro t ht z hz
    have hv := htypes t ht
    simp only [validateCardType, Except.bind_eq_ok_iff, hz] at hv
    obtain ⟨_, hzone, _⟩ := hv
    exact mem_zoneIds_of_requireZone hzone
  case types => exact fun card hc => (hcard card hc).1
  case moves =>
    intro e h
    obtain ⟨card, hc, a, ha, heffect⟩ := h
    obtain ⟨index, hv⟩ := (hcard card hc).2 a ha
    have hv : c.validateEffect card.id index a.effect a.target = .ok () := by
      unfold validateAbility at hv
      split at hv
      · obtain ⟨_, _, hv⟩ := Except.bind_eq_ok_iff.mp hv
        exact hv
      · exact hv
    rw [heffect] at hv
    exact declared_of_validateEffect hv

/-- In a catalog that passes validation, a destroy condition is on a stat
of its type. -/
theorem hasStat_of_validate {c : Catalog} (h : c.validate = .ok ()) {t : CardType}
    (ht : t ∈ c.cardTypes) {k : Condition} (hk : k ∈ t.destroyConditions) : t.hasStat k.stat := by
  simp only [validate, Except.bind_eq_ok_iff] at h
  obtain ⟨_, _, _, _, _, htypes, _⟩ := h
  have hv := Except.forM_eq_ok_iff.mp htypes t ht
  have hconditions : t.destroyConditions.forM (fun k => requireStat t k.stat) = .ok () := by
    unfold validateCardType at hv
    split at hv
    · obtain ⟨_, _, hv⟩ := Except.bind_eq_ok_iff.mp hv
      exact hv
    · exact hv
  have hk := Except.forM_eq_ok_iff.mp hconditions k hk
  unfold requireStat at hk
  split at hk
  · assumption
  · cases hk

end Catalog

end CardDuel
