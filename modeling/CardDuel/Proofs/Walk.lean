/-
CardDuel.Proofs.Walk — upon which cards a walk calls.

A walk lists the cards of a zone when it comes to it, but each call may
move cards: within the zone, out of it, or into a zone that is still to
come. So the list goes stale while it is worked through. All the same, a
walk calls upon no card twice, only upon cards that lie in the zone at
that moment, zone by zone and in the order of the list; and it leaves out
none that stays where it is. The calls are told apart from those that
they set off by the level at which the journal has them.

  §1 Calls    — one call after the other.
  §2 Visits   — the calls in one zone.
  §3 Trips    — the calls in one zone after the other.
  §4 Journals — what calls leave in the journal.
  §5 Walks    — all of it.
-/
import CardDuel.Proofs.Exchange

namespace CardDuel

open Engine

/-- The same ending with another value. -/
def Outcome.map {σ α β : Type} (f : α → β) : Outcome σ α → Outcome σ β
  | done value state => done (f value) state
  | refused error state => refused error state
  | fault cause => fault cause

namespace Play

/-! ## §1 Calls -/

/-- A call that a walk makes: the zone that the walk is in, the card that
is called upon, and the scene at that moment. -/
structure Call where
  place : ZoneId
  card : InstanceId
  scene : Scene

section
variable (fire : Dispatch) (player : PlayerId) (kind : TriggerKind) (accepts : Trigger → Bool)

/-- The calls lead from a scene to an outcome. Each begins where the one
before it ended, their counts are added up, and one that is not done is
the last. -/
inductive CallRun : Scene → Nat → List Call → Outcome Scene Nat → Prop where
  | none {s : Scene} {n : Nat} : CallRun s n [] (.done n s)
  | done {s s' : Scene} {n k : Nat} {place : ZoneId} {card : InstanceId} {rest : List Call}
      {o : Outcome Scene Nat} (call : fire player card kind accepts {} s = .done k s')
      (next : CallRun s' (n + k) rest o) : CallRun s n (⟨place, card, s⟩ :: rest) o
  | refused {s s' : Scene} {n : Nat} {place : ZoneId} {card : InstanceId} {e : DuelError}
      (call : fire player card kind accepts {} s = .refused e s') :
      CallRun s n [⟨place, card, s⟩] (.refused e s')
  | fault {s : Scene} {n : Nat} {place : ZoneId} {card : InstanceId} {cause : Fault}
      (call : fire player card kind accepts {} s = .fault cause) :
      CallRun s n [⟨place, card, s⟩] (.fault cause)

end

variable {fire : Dispatch} {player : PlayerId} {kind : TriggerKind} {accepts : Trigger → Bool}
variable {s s' : Scene} {n m : Nat} {calls calls' : List Call} {o : Outcome Scene Nat}

namespace CallRun

theorem append (h : CallRun fire player kind accepts s n calls (.done m s'))
    (h' : CallRun fire player kind accepts s' m calls' o) :
    CallRun fire player kind accepts s n (calls ++ calls') o := by
  generalize hend : Outcome.done m s' = first at h
  induction h with
  | none =>
    cases hend
    exact h'
  | done call _ ih => exact .done call (ih hend)
  | refused => cases hend
  | fault => cases hend

/-- The first call is made at once. -/
theorem scene_eq {c : Call} (h : CallRun fire player kind accepts s n (c :: calls) o) :
    c.scene = s := by
  cases h <;> rfl

/-- What holds whenever a call is made, and at the end, holds at the
start. -/
theorem start {p : Scene → Prop} (h : CallRun fire player kind accepts s n calls (.done m s'))
    (hcalls : ∀ c ∈ calls, p c.scene) (hend : p s') : p s := by
  cases h with
  | none => exact hend
  | done => exact hcalls _ List.mem_cons_self

end CallRun

/-! ## §2 Visits -/

/-- The walk after some calls, with a count. -/
def Tour.after (before : Tour) (calls : List Call) (n : Nat) : Tour :=
  ⟨(calls.map Call.card).reverse ++ before.visited, n⟩

theorem Tour.after_after {before : Tour} {k : Nat} :
    (before.after calls n).after calls' k = before.after (calls ++ calls') k := by
  simp [Tour.after]

section
variable {z : Zone} {before : Tour} {place : ZoneId} {card : InstanceId}

/-- A card that has left the zone, or has been called upon, is passed by. -/
theorem visitCard_pass (hz : s.duel.zone player place = .ok z)
    (h : ¬ (card ∈ z.cards ∧ card ∉ before.visited)) :
    visitCard fire player kind accepts place before card s = .done before s := by
  have hfind : find (·.zone player place) s = .done z s := find_of_ok hz
  rw [visitCard, bind_of_done hfind, if_neg (by simpa [Zone.contains] using h)]
  rfl

theorem visitCard_call (hz : s.duel.zone player place = .ok z) (hin : card ∈ z.cards)
    (hnew : card ∉ before.visited) :
    visitCard fire player kind accepts place before card s =
      (fire player card kind accepts {} s).map fun k =>
        ⟨card :: before.visited, before.resolved + k⟩ := by
  have hfind : find (·.zone player place) s = .done z s := find_of_ok hz
  rw [visitCard, bind_of_done hfind, if_pos (by simpa [Zone.contains] using ⟨hin, hnew⟩), bind_eq]
  cases fire player card kind accepts {} s <;> rfl

end

/-- The duel has the fixture and is laid out. -/
abbrev Stands (φ : Fixture) (s : Scene) : Prop := Standing φ (fun _ => True) s

section
variable (fire : Dispatch) (player : PlayerId) (kind : TriggerKind) (accepts : Trigger → Bool)
variable (φ : Fixture)

/-- What is said of the calls that a walk makes in a zone, upon some of the
cards of a list, when it has made others before. -/
structure Visit (place : ZoneId) (cards : List InstanceId) (before : Tour) (s : Scene)
    (calls : List Call) (o : Outcome Scene Nat) : Prop where
  ran : CallRun fire player kind accepts s before.resolved calls o
  there : ∀ c ∈ calls, c.place = place ∧ Stands φ c.scene ∧ c.scene.duel.Lies player c.card place
  listed : (calls.map Call.card).Sublist cards
  fresh : ∀ c ∈ calls, c.card ∉ before.visited
  stands : ∀ n s', o = .done n s' → Stands φ s'
  complete : ∀ n s', o = .done n s' → ∀ card ∈ cards,
    (∀ c ∈ calls, c.scene.duel.Lies player card place) → s'.duel.Lies player card place →
      card ∈ before.visited ∨ card ∈ calls.map Call.card

end

variable {φ : Fixture}

section
variable {z : Zone} {place : ZoneId} {card : InstanceId} {cards : List InstanceId} {before : Tour}

theorem Visit.nil (hs : Stands φ s) :
    Visit fire player kind accepts φ place [] before s [] (.done before.resolved s) where
  ran := .none
  there := by simp
  listed := .slnil
  fresh := by simp
  stands n s' ho := by
    cases ho
    exact hs
  complete := by simp

/-- A card that is passed by is not called upon later either: it has been,
or it does not lie in the zone. -/
theorem Visit.pass (hz : s.duel.zone player place = .ok z)
    (hpass : ¬ (card ∈ z.cards ∧ card ∉ before.visited))
    (h : Visit fire player kind accepts φ place cards before s calls o) :
    Visit fire player kind accepts φ place (card :: cards) before s calls o := by
  refine { h with listed := h.listed.cons card, complete := ?_ }
  intro n s' ho card' hcard' hcalls hend
  rcases List.mem_cons.mp hcard' with rfl | hcard'
  · refine .inl (Classical.byContradiction fun hnew => hpass ⟨?_, hnew⟩)
    obtain ⟨z', hz', hin⟩ :=
      CallRun.start (p := (·.duel.Lies player card' place)) (ho ▸ h.ran) hcalls hend
    cases hz.symm.trans hz'
    exact hin
  · exact h.complete n s' ho card' hcard' hcalls hend

variable (hs : Stands φ s) (hlies : s.duel.Lies player card place) (hnew : card ∉ before.visited)
include hs hlies hnew

/-- A call that is done goes before those upon the rest of the list. -/
theorem Visit.call {k : Nat} (hcall : fire player card kind accepts {} s = .done k s')
    (h : Visit fire player kind accepts φ place cards ⟨card :: before.visited, before.resolved + k⟩
      s' calls o) :
    Visit fire player kind accepts φ place (card :: cards) before s (⟨place, card, s⟩ :: calls)
      o where
  ran := .done hcall h.ran
  there c hc := by
    rcases List.mem_cons.mp hc with rfl | hc
    · exact ⟨rfl, hs, hlies⟩
    · exact h.there c hc
  listed := h.listed.cons_cons card
  fresh c hc := by
    rcases List.mem_cons.mp hc with rfl | hc
    · exact hnew
    · exact fun hmem => h.fresh c hc (List.mem_cons_of_mem card hmem)
  stands := h.stands
  complete n s₁ ho card' hcard' hcalls hend := by
    rcases List.mem_cons.mp hcard' with rfl | hcard'
    · exact .inr List.mem_cons_self
    · have hrest := h.complete n s₁ ho card' hcard'
        (fun c hc => hcalls c (List.mem_cons_of_mem _ hc)) hend
      rw [List.mem_cons] at hrest
      rw [List.map_cons, List.mem_cons]
      tauto

/-- A call that is not done is the last. -/
theorem Visit.last (ran : CallRun fire player kind accepts s before.resolved [⟨place, card, s⟩] o)
    (hend : ∀ n s', o ≠ .done n s') :
    Visit fire player kind accepts φ place (card :: cards) before s [⟨place, card, s⟩] o where
  ran := ran
  there c hc := by
    obtain rfl := List.mem_singleton.mp hc
    exact ⟨rfl, hs, hlies⟩
  listed := (List.nil_sublist cards).cons_cons card
  fresh c hc := by
    obtain rfl := List.mem_singleton.mp hc
    exact hnew
  stands n s' ho := absurd ho (hend n s')
  complete n s' ho := absurd ho (hend n s')

end

/-- **The calls in one zone**, upon the cards of a list. -/
theorem exists_visit (kind : TriggerKind) (accepts : Trigger → Bool) {place : ZoneId}
    (hfire : Keeps φ (.keeping φ) (fun (_ : Unit) _ => True) fire) (hφ : φ.Sound)
    (hp : player ∈ φ.players) (hplace : place ∈ φ.catalog.zoneIds) (cards : List InstanceId)
    (before : Tour) {s : Scene} (hs : Stands φ s) :
    ∃ calls o, Visit fire player kind accepts φ place cards before s calls o ∧
      cards.foldlM (visitCard fire player kind accepts place) before s =
        o.map (before.after calls) := by
  induction cards generalizing before s with
  | nil =>
    exact ⟨[], .done before.resolved s, .nil hs, rfl⟩
  | cons card rest ih =>
    obtain ⟨z, hz⟩ := hs.zone hp hplace
    rw [List.foldlM_cons, bind_eq]
    by_cases hcall : card ∈ z.cards ∧ card ∉ before.visited
    swap
    · obtain ⟨calls, o, hvisit, hrun⟩ := ih before hs
      rw [visitCard_pass hz hcall]
      exact ⟨calls, o, hvisit.pass hz hcall, hrun⟩
    · obtain ⟨hin, hnew⟩ := hcall
      obtain ⟨t, ht, -⟩ := hs.tag? hφ hz hin
      have hlies : s.duel.Lies player card place := ⟨z, hz, hin⟩
      have hkeep := hfire () player card kind accepts {} s (by simp [ht]) hs
      rw [visitCard_call hz hin hnew]
      cases hfired : fire player card kind accepts {} s with
      | done k s₁ =>
        have hs₁ : Stands φ s₁ := wp_done hkeep hfired
        obtain ⟨calls, o, hvisit, hrun⟩ := ih ⟨card :: before.visited, before.resolved + k⟩ hs₁
        refine ⟨⟨place, card, s⟩ :: calls, o, hvisit.call hs hlies hnew hfired, ?_⟩
        show rest.foldlM (visitCard fire player kind accepts place) _ s₁ = _
        rw [hrun]
        cases o <;> simp [Outcome.map, Tour.after]
      | refused e s₁ =>
        exact ⟨_, .refused e s₁, .last hs hlies hnew (.refused hfired) (by simp), rfl⟩
      | fault cause =>
        exact ⟨_, .fault cause, .last hs hlies hnew (.fault hfired) (by simp), rfl⟩

/-! ## §3 Trips -/

/-- The calls come zone by zone, in the order of the zones, and in each
zone in the order of the cards that it had when the first of them was
called upon. -/
structure Grouped (player : PlayerId) (zones : List ZoneId) (calls : List Call) : Prop where
  zonewise : calls = zones.flatMap fun place => calls.filter (·.place = place)
  listed : ∀ place c rest, calls.filter (·.place = place) = c :: rest →
    ∃ z, c.scene.duel.zone player place = .ok z ∧ ((c :: rest).map Call.card).Sublist z.cards

namespace Grouped

variable {zones : List ZoneId} {place : ZoneId}

theorem nil (zones : List ZoneId) : Grouped player zones [] where
  zonewise := by simp
  listed := by simp

theorem mem_zones (h : Grouped player zones calls) {c : Call} (hc : c ∈ calls) :
    c.place ∈ zones := by
  rw [h.zonewise] at hc
  obtain ⟨place, hplace, hc⟩ := List.mem_flatMap.mp hc
  obtain rfl : c.place = place := by simpa using (List.mem_filter.mp hc).2
  exact hplace

/-- The calls in one more zone go before. -/
theorem cons (hplace : place ∉ zones) (hcalls : ∀ c ∈ calls, c.place = place)
    (hlisted : ∀ c rest, calls = c :: rest →
      ∃ z, c.scene.duel.zone player place = .ok z ∧ (calls.map Call.card).Sublist z.cards)
    (h : Grouped player zones calls') : Grouped player (place :: zones) (calls ++ calls') := by
  have hhere : (calls ++ calls').filter (·.place = place) = calls := by
    have hall : calls.filter (·.place = place) = calls :=
      List.filter_eq_self.mpr fun c hc => by simp [hcalls c hc]
    have hnone : calls'.filter (·.place = place) = [] :=
      List.filter_eq_nil_iff.mpr fun c hc heq =>
        hplace (by simpa using of_decide_eq_true heq ▸ h.mem_zones hc)
    rw [List.filter_append, hall, hnone, List.append_nil]
  have hthere {p : ZoneId} (hp : p ≠ place) :
      (calls ++ calls').filter (·.place = p) = calls'.filter (·.place = p) := by
    have hnone : calls.filter (·.place = p) = [] :=
      List.filter_eq_nil_iff.mpr fun c hc heq =>
        hp ((of_decide_eq_true heq).symm.trans (hcalls c hc))
    rw [List.filter_append, hnone, List.nil_append]
  constructor
  case zonewise =>
    rw [List.flatMap_cons, hhere]
    refine congrArg (calls ++ ·) (h.zonewise.trans ?_)
    refine List.flatMap_congr fun p hp => ?_
    rw [hthere fun heq => hplace (heq ▸ hp)]
  case listed =>
    intro p c rest hfilter
    by_cases hp : p = place
    · subst hp
      rw [hhere] at hfilter
      rw [← hfilter]
      exact hlisted c rest hfilter
    · rw [hthere hp] at hfilter
      exact h.listed p c rest hfilter

end Grouped

section
variable (fire : Dispatch) (player : PlayerId) (kind : TriggerKind) (accepts : Trigger → Bool)
variable (φ : Fixture)

/-- What is said of the calls that a walk makes in several zones, when it
has made others before. -/
structure Trip (zones : List ZoneId) (before : Tour) (s : Scene) (calls : List Call)
    (o : Outcome Scene Nat) : Prop where
  ran : CallRun fire player kind accepts s before.resolved calls o
  there : ∀ c ∈ calls, Stands φ c.scene ∧ c.scene.duel.Lies player c.card c.place
  grouped : Grouped player zones calls
  once : (calls.map Call.card).Nodup
  fresh : ∀ c ∈ calls, c.card ∉ before.visited
  complete : ∀ n s', o = .done n s' → ∀ place ∈ zones, ∀ card,
    (∀ c ∈ calls, c.scene.duel.Lies player card place) → s'.duel.Lies player card place →
      card ∈ before.visited ∨ card ∈ calls.map Call.card

end

section
variable {z : Zone} {place : ZoneId} {zones : List ZoneId} {before : Tour}

theorem Trip.nil : Trip fire player kind accepts φ [] before s [] (.done before.resolved s) where
  ran := .none
  there := by simp
  grouped := .nil []
  once := .nil
  fresh := by simp
  complete := by simp

variable (hz : s.duel.zone player place = .ok z) (hplace : place ∉ zones)
include hz hplace

theorem Visit.grouped (h : Visit fire player kind accepts φ place z.cards before s calls o)
    (hrest : Grouped player zones calls') : Grouped player (place :: zones) (calls ++ calls') := by
  refine Grouped.cons hplace (fun c hc => (h.there c hc).1) (fun c rest hcalls => ?_) hrest
  have hscene : c.scene = s := (hcalls ▸ h.ran).scene_eq
  exact ⟨z, hscene ▸ hz, h.listed⟩

/-- A visit that is not done is the end of the trip. -/
theorem Visit.trip (h : Visit fire player kind accepts φ place z.cards before s calls o)
    (hnodup : z.cards.Nodup) (hend : ∀ n s', o ≠ .done n s') :
    Trip fire player kind accepts φ (place :: zones) before s calls o where
  ran := h.ran
  there c hc := by
    obtain ⟨rfl, hc⟩ := h.there c hc
    exact hc
  grouped := List.append_nil calls ▸ h.grouped hz hplace (.nil zones)
  once := h.listed.nodup hnodup
  fresh := h.fresh
  complete n s' ho := absurd ho (hend n s')

/-- A visit that is done goes before the rest of the trip. -/
theorem Trip.cons (h : Visit fire player kind accepts φ place z.cards before s calls (.done n s'))
    (hnodup : z.cards.Nodup)
    (hrest : Trip fire player kind accepts φ zones (before.after calls n) s' calls' o) :
    Trip fire player kind accepts φ (place :: zones) before s (calls ++ calls') o where
  ran := h.ran.append hrest.ran
  there c hc := by
    rcases List.mem_append.mp hc with hc | hc
    · obtain ⟨rfl, hc⟩ := h.there c hc
      exact hc
    · exact hrest.there c hc
  grouped := h.grouped hz hplace hrest.grouped
  once := by
    rw [List.map_append, List.nodup_append]
    refine ⟨h.listed.nodup hnodup, hrest.once, ?_⟩
    rintro card hcard _ hcard' rfl
    obtain ⟨c, hc, rfl⟩ := List.mem_map.mp hcard'
    exact hrest.fresh c hc (by simp [Tour.after, hcard])
  fresh c hc := by
    rcases List.mem_append.mp hc with hc | hc
    · exact h.fresh c hc
    · exact fun hmem => hrest.fresh c hc (by simp [Tour.after, hmem])
  complete m s₁ ho p hp card hcalls hend := by
    have hhere (c : Call) (hc : c ∈ calls) : c.scene.duel.Lies player card p :=
      hcalls c (List.mem_append_left _ hc)
    have hthere (c : Call) (hc : c ∈ calls') : c.scene.duel.Lies player card p :=
      hcalls c (List.mem_append_right _ hc)
    have hmid : s'.duel.Lies player card p :=
      CallRun.start (p := (·.duel.Lies player card p)) (ho ▸ hrest.ran) hthere hend
    simp only [List.map_append, List.mem_append]
    rcases List.mem_cons.mp hp with rfl | hp
    · -- The list of the zone was made at the start, and the card was in it.
      obtain ⟨z', hz', hin⟩ := CallRun.start (p := (·.duel.Lies player card p)) h.ran hhere hmid
      cases hz.symm.trans hz'
      have hvisited := h.complete n s' rfl card hin hhere hmid
      tauto
    · have hvisited := hrest.complete m s₁ ho p hp card hthere hend
      simp only [Tour.after, List.mem_append, List.mem_reverse] at hvisited
      tauto

end

/-- **The calls in one zone after the other.** -/
theorem exists_trip (kind : TriggerKind) (accepts : Trigger → Bool)
    (hfire : Keeps φ (.keeping φ) (fun (_ : Unit) _ => True) fire) (hφ : φ.Sound)
    (hp : player ∈ φ.players) (zones : List ZoneId) (hzones : ∀ p ∈ zones, p ∈ φ.catalog.zoneIds)
    (hnodup : zones.Nodup) (before : Tour) {s : Scene} (hs : Stands φ s) :
    ∃ calls o, Trip fire player kind accepts φ zones before s calls o ∧
      zones.foldlM (visitZone fire player kind accepts) before s = o.map (before.after calls) := by
  induction zones generalizing before s with
  | nil =>
    exact ⟨[], .done before.resolved s, .nil, rfl⟩
  | cons place rest ih =>
    obtain ⟨hplace, hrest⟩ := List.nodup_cons.mp hnodup
    obtain ⟨z, hz⟩ := hs.zone hp (hzones place List.mem_cons_self)
    have hcards : z.cards.Nodup := hs.laid.nodup_zone (hs.fixture ▸ hφ) hz
    obtain ⟨calls, o, hvisit, hrun⟩ := exists_visit kind accepts hfire hφ hp
      (hzones place List.mem_cons_self) z.cards before hs
    have hzone : visitZone fire player kind accepts before place s = o.map (before.after calls) := by
      have hfind : find (·.zone player place) s = .done z s := find_of_ok hz
      rw [visitZone, bind_of_done hfind]
      exact hrun
    rw [List.foldlM_cons, bind_eq, hzone]
    cases o with
    | done n s₁ =>
      obtain ⟨calls', o', htrip, hrun'⟩ := ih (fun p hp => hzones p (List.mem_cons_of_mem place hp))
        hrest (before.after calls n) (hvisit.stands n s₁ rfl)
      refine ⟨calls ++ calls', o', .cons hz hplace hvisit hcards htrip, ?_⟩
      show rest.foldlM (visitZone fire player kind accepts) (before.after calls n) s₁ = _
      rw [hrun']
      cases o' <;> simp [Outcome.map, Tour.after_after]
    | refused e s₁ => exact ⟨calls, _, hvisit.trip hz hplace hcards (by simp), rfl⟩
    | fault cause => exact ⟨calls, _, hvisit.trip hz hplace hcards (by simp), rfl⟩

end Play

/-! ## §4 Journals -/

/-- The event is a call at the level. -/
def Event.calledAt (level : Nat) : Event → Bool
  | .dispatched l _ _ => l = level
  | _ => false

/-- The scene is at a level, and the journal has these calls at another. -/
structure Scene.Notes (own level : Nat) (noted : List Event) (s : Scene) : Prop where
  depth : s.depth = level
  noted : s.journal.filter (·.calledAt own) = noted

/-- Whatever is refused, the journal has these calls. -/
def Exits.noting (own level : Nat) (noted : List Event) : Exits :=
  ⟨fun _ s => s.Notes own level noted, fun _ => True⟩

namespace Play

variable {own level limit : Nat} {noted : List Event}

/-- A chain adds to the calls of a level only what its own calls add. -/
theorem wp_notes_of_inStep {α : Type} {fire : Dispatch} {m : Engine α} (h : InStep fire fire m m)
    (call : ∀ player card kind accepts selection s, s.Notes own level noted →
      wp (.noting own level noted) (fire player card kind accepts selection)
        (fun _ => Scene.Notes own level noted) s) {s : Scene} (hs : s.Notes own level noted) :
    wp (.noting own level noted) m (fun _ => Scene.Notes own level noted) s := by
  refine h.keeps (fun s d hs => ⟨hs.depth, hs.noted⟩) (fun s e he hs => ⟨hs.depth, ?_⟩)
    (fun _ _ hs => hs) (fun _ _ => trivial) call s hs
  have hno : e.calledAt own = false := by
    cases e with
    | dispatched l card kind => exact absurd rfl (he l card kind)
    | wrote | notified => rfl
  rw [List.filter_cons_of_neg (by simp [hno])]
  exact hs.noted

/-- The body of a call notes nothing at the level of the call, if deeper
calls do not. -/
theorem wp_notes_nested {α : Type} {m : Engine α} {s : Scene}
    (h : wp (.noting own (level + 1) noted) m (fun _ => Scene.Notes own (level + 1) noted)
      { s with depth := s.depth + 1 }) :
    wp (.noting own level noted) (nested m) (fun _ => Scene.Notes own level noted) s := by
  have hleave {s' : Scene} (hs' : s'.Notes own (level + 1) noted) :
      Scene.Notes own level noted { s' with depth := s'.depth - 1 } :=
    ⟨by show s'.depth - 1 = level; rw [hs'.depth]; rfl, hs'.noted⟩
  rw [wp_nested]
  refine wp_exits (X := .noting own (level + 1) noted) ?_ (fun _ _ hs' => hleave hs') fun _ _ => trivial
  exact wp_mono h fun _ _ hs' => hleave hs'

/-- Calls at deeper levels add nothing to those of a level. -/
theorem dispatch_deeper {rounds : Nat} (hown : own < level) (player : PlayerId) (card : InstanceId)
    (kind : TriggerKind) (accepts : Trigger → Bool) (selection : Selection) {s : Scene}
    (hs : s.Notes own level noted) :
    wp (.noting own level noted) (dispatch limit rounds player card kind accepts selection)
      (fun _ => Scene.Notes own level noted) s := by
  induction rounds generalizing level player card kind accepts selection s with
  | zero => exact trivial
  | succ rounds ih =>
    simp only [dispatch, wp_bind, wp_depth]
    rw [wp_find]
    split
    · split
      · exact hs
      · refine wp_notes_nested ?_
        rw [wp_bind, wp_note]
        refine wp_notes_of_inStep (InStep.resolveAll ..)
          (fun player card kind accepts selection s hs =>
            ih (Nat.lt_succ_of_lt hown) player card kind accepts selection hs) ⟨?_, ?_⟩
        · exact congrArg (· + 1) hs.depth
        · have hno : (Event.dispatched s.depth card kind).calledAt own = false := by
            simp only [Event.calledAt, hs.depth]
            exact decide_eq_false (Nat.ne_of_gt hown)
          rw [List.filter_cons_of_neg (by simp [hno])]
          exact hs.noted
    · exact hs

/-- **A call below the limit is noted once at its level**, whatever it sets
off. -/
theorem dispatch_notes {rounds : Nat} {player : PlayerId} {card : InstanceId} {kind : TriggerKind}
    {accepts : Trigger → Bool} {selection : Selection} {s : Scene} {spec : CardSpec}
    (hs : s.Notes level level noted) (hlimit : level < limit) (hspec : s.duel.specOf card = .ok spec) :
    wp (.noting level level (.dispatched level card kind :: noted))
      (dispatch limit rounds player card kind accepts selection)
      (fun _ => Scene.Notes level level (.dispatched level card kind :: noted)) s := by
  cases rounds with
  | zero => exact trivial
  | succ rounds =>
    simp only [dispatch, wp_bind, wp_depth]
    rw [wp_find_ok hspec, if_neg (by rw [hs.depth]; omega)]
    refine wp_notes_nested ?_
    rw [wp_bind, wp_note]
    refine wp_notes_of_inStep (InStep.resolveAll ..)
      (fun player card kind accepts selection s hs =>
        dispatch_deeper (Nat.lt_succ_self level) player card kind accepts selection hs) ⟨?_, ?_⟩
    · exact congrArg (· + 1) hs.depth
    · have hyes : (Event.dispatched s.depth card kind).calledAt level = true := by
        simp [Event.calledAt, hs.depth]
      rw [List.filter_cons_of_pos hyes, hs.noted, hs.depth]

/-- The journal has the calls of a walk in their order, and no other at
their level. -/
theorem CallRun.notes {rounds : Nat} {player : PlayerId} {kind : TriggerKind}
    {accepts : Trigger → Bool} {s s' : Scene} {n : Nat} {calls : List Call}
    {o : Outcome Scene Nat} (h : CallRun (dispatch limit rounds) player kind accepts s n calls o)
    (hspec : ∀ c ∈ calls, ∃ spec, c.scene.duel.specOf c.card = .ok spec) (hlimit : level < limit)
    (hs : s.Notes level level noted) (hs' : o.state? = some s') :
    s'.Notes level level
      ((calls.map fun c => .dispatched level c.card kind).reverse ++ noted) := by
  induction h generalizing noted with
  | none =>
    cases hs'
    exact hs
  | done call _ ih =>
    obtain ⟨spec, hspec₀⟩ := hspec _ List.mem_cons_self
    have hnoted := wp_done (dispatch_notes hs hlimit hspec₀) call
    have hrest := ih (fun c hc => hspec c (List.mem_cons_of_mem _ hc)) hnoted hs'
    simpa using hrest
  | refused call =>
    obtain ⟨spec, hspec₀⟩ := hspec _ List.mem_cons_self
    cases hs'
    rcases wp_state (dispatch_notes hs hlimit hspec₀) (congrArg Outcome.state? call) with
      ⟨_, hnoted⟩ | ⟨_, hnoted⟩ <;> exact hnoted
  | fault => cases hs'

end Play

/-! ## §5 Walks -/

/-- The zones that are dynamic and in plain sight, in the order of the
catalog. -/
def Catalog.triggeringZones (c : Catalog) : List ZoneId :=
  (c.zones.filter ZoneSpec.triggering).map ZoneSpec.id

theorem Catalog.triggeringZones_sublist (c : Catalog) : c.triggeringZones.Sublist c.zoneIds :=
  List.filter_sublist.map ZoneSpec.id

theorem Duel.Laid.triggeringZones_eq {d : Duel} {seat : Seat} (h : d.Laid) (hseat : seat ∈ d.seats) :
    seat.triggeringZones = d.catalog.triggeringZones := by
  rw [Seat.triggeringZones, Catalog.triggeringZones, ← h.zones seat hseat, List.filter_map,
    List.map_map]
  rfl

namespace Play

variable {fire : Dispatch} {player : PlayerId} {kind : TriggerKind} {accepts : Trigger → Bool}

/-- A walk is a trip through the triggering zones. -/
theorem walk_eq {s : Scene} {seat : Seat} {calls : List Call} {o : Outcome Scene Nat}
    (hseat : s.duel.seat player = .ok seat)
    (hrun : seat.triggeringZones.foldlM (visitZone fire player kind accepts) ⟨[], 0⟩ s =
      o.map (Tour.after ⟨[], 0⟩ calls)) : walk fire player kind accepts s = o := by
  have hfind : find (·.seat player) s = .done seat s := find_of_ok hseat
  have htour : tour fire player kind accepts s = o.map (Tour.after ⟨[], 0⟩ calls) := by
    rw [tour, bind_of_done hfind]
    exact hrun
  rw [walk, bind_eq, htour]
  cases o <;> rfl

end Play

open Play

/-- **A walk calls upon cards once, in order, and leaves none out.** Its
calls follow one another and their counts add up. Each is upon a card of
the player that lies in the zone of the call, a triggering one, and
nowhere else. They come in the order of the zones and of the cards in
them, as the walk finds them. A card that lies in a triggering zone
whenever a call is made, and at the end, is called upon. Below the limit,
the journal has these calls and no other at their level. Every duel that
is visited is sound, and so are those upon which the calls are made. -/
theorem walk_calls {s : Scene} (hs : s.duel.Sound) {player : PlayerId} {seat : Seat}
    (hseat : s.duel.seat player = .ok seat) (limit rounds : Nat) (kind : TriggerKind)
    (accepts : Trigger → Bool) :
    ∃ calls,
      CallRun (dispatch limit rounds) player kind accepts s 0 calls
        (walk (dispatch limit rounds) player kind accepts s) ∧
      (calls.map Call.card).Nodup ∧
      (∀ c ∈ calls, c.scene.duel.Sound ∧ c.place ∈ s.duel.catalog.triggeringZones ∧
        c.scene.duel.Lies player c.card c.place ∧
        (∀ p place, c.scene.duel.Lies p c.card place → p = player ∧ place = c.place) ∧
        ∃ card, s.duel.card c.card = .ok card ∧ card.owner = player) ∧
      Grouped player s.duel.catalog.triggeringZones calls ∧
      (∀ n s', walk (dispatch limit rounds) player kind accepts s = .done n s' →
        ∀ place ∈ s.duel.catalog.triggeringZones, ∀ card,
          (∀ c ∈ calls, c.scene.duel.Lies player card place) → s'.duel.Lies player card place →
            card ∈ calls.map Call.card) ∧
      (s.depth < limit → ∀ s',
        (walk (dispatch limit rounds) player kind accepts s).state? = some s' →
          s'.depth = s.depth ∧
          s'.journal.filter (·.calledAt s.depth) =
            (calls.map fun c => .dispatched s.depth c.card kind).reverse ++
              s.journal.filter (·.calledAt s.depth)) := by
  have hφ := hs.fixture
  have hstands : Stands s.duel.fixture s := ⟨rfl, hs.laid, trivial⟩
  have hp : player ∈ s.duel.fixture.players := Duel.seat_isOk_iff.mp ⟨seat, hseat⟩
  have hfire : Keeps s.duel.fixture (.keeping s.duel.fixture) (fun (_ : Unit) _ => True)
      (dispatch limit rounds) := (upkeep_keeping hφ).keeps_dispatch rounds
  have hsub := s.duel.catalog.triggeringZones_sublist
  obtain ⟨calls, o, htrip, hrun⟩ := exists_trip kind accepts hfire hφ hp
    s.duel.catalog.triggeringZones (fun p hp => hsub.subset hp) (hsub.nodup hφ.closed.zones)
    ⟨[], 0⟩ hstands
  have hwalk : walk (dispatch limit rounds) player kind accepts s = o :=
    walk_eq hseat (hs.laid.triggeringZones_eq (Duel.seat_eq_ok hseat).1 ▸ hrun)
  rw [hwalk]
  refine ⟨calls, htrip.ran, htrip.once, fun c hc => ?_, htrip.grouped, ?_, ?_⟩
  · obtain ⟨hstands', z, hz, hin⟩ := htrip.there c hc
    have hsound : c.scene.duel.Sound := ⟨hstands'.fixture ▸ hφ, hstands'.laid⟩
    refine ⟨hsound, htrip.grouped.mem_zones hc, ⟨z, hz, hin⟩, ?_, ?_⟩
    · rintro p place ⟨z', hz', hin'⟩
      exact hsound.laid.unique hsound.fixture hz' hin' hz hin
    · obtain ⟨t, ht, howner⟩ := hstands'.tag? hφ hz hin
      obtain ⟨card, hcard, rfl⟩ := hstands.card ht
      exact ⟨card, hcard, howner⟩
  · intro n s' ho place hplace card hcalls hend
    exact (htrip.complete n s' ho place hplace card hcalls hend).resolve_left List.not_mem_nil
  · intro hlimit s' hs'
    have hspec (c : Call) (hc : c ∈ calls) : ∃ spec, c.scene.duel.specOf c.card = .ok spec := by
      obtain ⟨hstands', z, hz, hin⟩ := htrip.there c hc
      obtain ⟨t, ht, -⟩ := hstands'.tag? hφ hz hin
      exact hstands'.specOf hφ ht
    have hnotes := htrip.ran.notes hspec hlimit ⟨rfl, rfl⟩ hs'
    exact ⟨hnotes.depth, hnotes.noted⟩

/-- A creature that takes all creatures of its owner from the board into
the hand when a turn starts, itself among them. -/
def Starter.usher : CardSpec where
  id := ⟨3⟩
  name := "Usher"
  cardType := creature.id
  abilities :=
    [.triggered
      { trigger := .turnStarted
        effect := .move ⟨board, creature.id, hand⟩
        target := .card (.all .acting) [] }]

/-- On the board are a grunt, an usher and another grunt. The walk calls
upon the first two; the last has left when its turn comes. -/
theorem usher_ends_walk :
    ∃ d seat calls, Visited (Starter.catalog { extraCards := [Starter.usher] }) d ∧
      d.seat ⟨1⟩ = .ok seat ∧ d.Lies ⟨1⟩ ⟨3⟩ Starter.board ∧
      CallRun (dispatch 64 65) ⟨1⟩ .turnStarted (fun _ => true) ⟨d, [], 0⟩ 0 calls
        (walk (dispatch 64 65) ⟨1⟩ .turnStarted (fun _ => true) ⟨d, [], 0⟩) ∧
      (calls.map fun c => Event.dispatched 0 c.card .turnStarted) =
        [.dispatched 0 ⟨1⟩ .turnStarted, .dispatched 0 ⟨2⟩ .turnStarted] := by
  obtain ⟨d, h, seat, -, hseat, hlies, s', -, hstate, hjournal⟩ :=
    @Visited.exists_of_performAll (Starter.catalog { extraCards := [Starter.usher] }) 64 7 ⟨⟨1⟩, []⟩
      ⟨⟨2⟩, []⟩ [.create ⟨1⟩ ⟨1⟩ Starter.board, .create ⟨1⟩ ⟨3⟩ Starter.board,
        .create ⟨1⟩ ⟨1⟩ Starter.board]
      (fun d => ∃ seat ∈ (d.seat ⟨1⟩).toOption, d.seat ⟨1⟩ = .ok seat ∧
        d.Lies ⟨1⟩ ⟨3⟩ Starter.board ∧
        ∃ s' ∈ (walk (dispatch 64 65) ⟨1⟩ .turnStarted (fun _ => true) ⟨d, [], 0⟩).state?,
          (walk (dispatch 64 65) ⟨1⟩ .turnStarted (fun _ => true) ⟨d, [], 0⟩).state? = some s' ∧
          s'.journal.filter (·.calledAt 0) =
            [.dispatched 0 ⟨2⟩ .turnStarted, .dispatched 0 ⟨1⟩ .turnStarted])
      (by decide +kernel)
  obtain ⟨calls, hcalls, -, -, -, -, hnotes⟩ :=
    walk_calls (s := ⟨d, [], 0⟩) h.sound hseat 64 65 .turnStarted fun _ => true
  refine ⟨d, seat, calls, h, hseat, hlies, hcalls, ?_⟩
  have hreverse := (hnotes (Nat.zero_lt_succ 63) s' hstate).2.symm.trans hjournal
  simpa using congrArg List.reverse hreverse

end CardDuel
