/-
CardDuel.Proofs.Calculus — how a computation ends, computed backwards.

`wp X m Q s` says of the computation `m` and the scene `s` how `m` ends
there: with a value and a scene that `Q` allows, or refused or with a
fault as `X` allows. A statement about a composite computation comes
apart into statements about its parts: there is one equivalence for each
primitive computation of `Play.Engine`, one for sequencing, and a rule
for each of the two loops, which asks for an assertion that is indexed by
what the loop has still to do.

  §1 Endings     — the state an outcome leaves, and outcomes cut short.
  §2 Statements  — `Exits`, `wp`, and weakening.
  §3 Equivalence — one for each way to build a computation.
  §4 Loops       — `foldlM` and `forM` over a list.
  §5 Runs        — a known outcome carried through a sequence.
-/
import CardDuel.Play.Engine

namespace CardDuel

/-! ## §1 Endings -/

/-- The state that is left; a fault leaves none. -/
def Outcome.state? {σ α : Type} : Outcome σ α → Option σ
  | done _ state => some state
  | refused _ state => some state
  | fault _ => none

@[simp] theorem Outcome.state?_mapState {σ τ α : Type} (f : σ → τ) (o : Outcome σ α) :
    (o.mapState f).state? = o.state?.map f := by
  cases o <;> rfl

theorem Outcome.state?_eq_some_iff {σ α : Type} {o : Outcome σ α} {s : σ} :
    o.state? = some s ↔ (∃ a, o = done a s) ∨ ∃ e, o = refused e s := by
  cases o <;> simp [state?]

/-- A choice of errors and faults that cut a computation short. -/
structure Cut where
  refused : DuelError → Prop
  fault : Fault → Prop

/-- The outcome is cut short. -/
def Cut.Ends {σ α : Type} (cut : Cut) : Outcome σ α → Prop
  | .done _ _ => False
  | .refused e _ => cut.refused e
  | .fault cause => cut.fault cause

theorem Cut.Ends.mapState {σ τ α : Type} {cut : Cut} (f : σ → τ) {o : Outcome σ α}
    (h : cut.Ends o) : cut.Ends (o.mapState f) := by
  cases o <;> exact h

theorem Cut.Ends.bind {α β : Type} {cut : Cut} {o : Outcome Scene α} (h : cut.Ends o)
    (next : α → Engine β) :
    cut.Ends (match o with
      | .done value s => next value s
      | .refused error s => .refused error s
      | .fault cause => .fault cause) := by
  cases o with
  | done => exact h.elim
  | refused => exact h
  | fault => exact h

/-! ## §2 Statements -/

/-- The endings without a value that a statement allows. -/
structure Exits where
  refused : DuelError → Scene → Prop
  fault : Fault → Prop

namespace Engine

variable {α β : Type} {X : Exits} {s : Scene}

/-- From the scene, the computation is done as `Q` allows, or ends
without a value as `X` allows. -/
def wp (X : Exits) (m : Engine α) (Q : α → Scene → Prop) (s : Scene) : Prop :=
  match m s with
  | .done a s' => Q a s'
  | .refused e s' => X.refused e s'
  | .fault cause => X.fault cause

theorem wp_mono {m : Engine α} {Q Q' : α → Scene → Prop} (h : wp X m Q s)
    (hQ : ∀ a s', Q a s' → Q' a s') : wp X m Q' s := by
  unfold wp at h ⊢
  cases hm : m s with
  | done a s' => rw [hm] at h; exact hQ a s' h
  | refused e s' => rw [hm] at h; exact h
  | fault cause => rw [hm] at h; exact h

theorem wp_exits {X' : Exits} {m : Engine α} {Q : α → Scene → Prop} (h : wp X m Q s)
    (hR : ∀ e s', X.refused e s' → X'.refused e s') (hF : ∀ cause, X.fault cause → X'.fault cause) :
    wp X' m Q s := by
  unfold wp at h ⊢
  cases hm : m s with
  | done a s' => rw [hm] at h; exact h
  | refused e s' => rw [hm] at h; exact hR e s' h
  | fault cause => rw [hm] at h; exact hF cause h

theorem wp_done {m : Engine α} {Q : α → Scene → Prop} (h : wp X m Q s) {a : α} {s' : Scene}
    (hm : m s = .done a s') : Q a s' := by
  unfold wp at h
  rw [hm] at h
  exact h

/-- What is left by a computation is what `Q` or `X` says. -/
theorem wp_state {m : Engine α} {Q : α → Scene → Prop} (h : wp X m Q s) {s' : Scene}
    (hs : (m s).state? = some s') : (∃ a, Q a s') ∨ ∃ e, X.refused e s' := by
  unfold wp at h
  rcases Outcome.state?_eq_some_iff.mp hs with ⟨a, hm⟩ | ⟨e, hm⟩
  · rw [hm] at h
    exact .inl ⟨a, h⟩
  · rw [hm] at h
    exact .inr ⟨e, h⟩

/-! ## §3 Equivalences -/

section
variable {Q : α → Scene → Prop}

@[simp] theorem wp_pure {a : α} : wp X (pure a) Q s ↔ Q a s := Iff.rfl

@[simp] theorem wp_bind {m : Engine β} {f : β → Engine α} :
    wp X (m >>= f) Q s ↔ wp X m (fun b s' => wp X (f b) Q s') s := by
  unfold wp
  rw [bind_eq]
  cases m s <;> exact Iff.rfl

@[simp] theorem wp_map {m : Engine β} {f : β → α} :
    wp X (f <$> m) Q s ↔ wp X m (fun b => Q (f b)) s := by
  rw [← bind_pure_comp, wp_bind]
  exact Iff.rfl

@[simp] theorem wp_duel {Q : Duel → Scene → Prop} : wp X duel Q s ↔ Q s.duel s := Iff.rfl

@[simp] theorem wp_depth {Q : Nat → Scene → Prop} : wp X depth Q s ↔ Q s.depth s := Iff.rfl

@[simp] theorem wp_modifyDuel {f : Duel → Duel} {Q : Unit → Scene → Prop} :
    wp X (modifyDuel f) Q s ↔ Q () { s with duel := f s.duel } := Iff.rfl

@[simp] theorem wp_note {e : Event} {Q : Unit → Scene → Prop} :
    wp X (note e) Q s ↔ Q () { s with journal := e :: s.journal } := Iff.rfl

@[simp] theorem wp_refuse {e : DuelError} : wp X (refuse e) Q s ↔ X.refused e s := Iff.rfl

@[simp] theorem wp_draw {roll : Random.Generator → α × Random.Generator} :
    wp X (draw roll) Q s ↔
      Q (roll s.duel.generator).1
        { s with duel := { s.duel with generator := (roll s.duel.generator).2 } } := Iff.rfl

theorem wp_find {look : Duel → Except LookupError α} :
    wp X (find look) Q s ↔
      match look s.duel with
      | .ok a => Q a s
      | .error e => X.refused (.lookup e) s := by
  unfold wp find
  cases look s.duel <;> exact Iff.rfl

theorem wp_find_ok {look : Duel → Except LookupError α} {a : α} (h : look s.duel = .ok a) :
    wp X (find look) Q s ↔ Q a s := by
  rw [wp_find, h]

theorem wp_sound {x : Except Fault α} :
    wp X (sound x) Q s ↔
      match x with
      | .ok a => Q a s
      | .error cause => X.fault cause := by
  unfold wp sound
  cases x <;> exact Iff.rfl

theorem wp_nested {m : Engine α} :
    wp X (nested m) Q s ↔
      wp ⟨fun e s' => X.refused e { s' with depth := s'.depth - 1 }, X.fault⟩ m
        (fun a s' => Q a { s' with depth := s'.depth - 1 }) { s with depth := s.depth + 1 } := by
  unfold wp nested
  cases m { s with depth := s.depth + 1 } <;> exact Iff.rfl

end

/-! ## §4 Loops -/

/-- A loop keeps an assertion on what it has still to do, on its value
and on the scene, if one round does. -/
theorem wp_foldlM {f : β → α → Engine β} (I : List α → β → Scene → Prop) {l : List α} {b : β}
    (step : ∀ a ∈ l, ∀ rest b s, I (a :: rest) b s → wp X (f b a) (I rest) s) (h : I l b s) :
    wp X (l.foldlM f b) (I []) s := by
  induction l generalizing b s with
  | nil => exact h
  | cons a rest ih =>
    rw [List.foldlM_cons, wp_bind]
    refine wp_mono (step a List.mem_cons_self rest b s h) fun b' s' h' => ?_
    exact ih (fun a' ha' => step a' (List.mem_cons_of_mem a ha')) h'

theorem wp_forM {f : α → Engine Unit} (I : List α → Scene → Prop) {l : List α}
    (step : ∀ a ∈ l, ∀ rest s, I (a :: rest) s → wp X (f a) (fun _ => I rest) s) (h : I l s) :
    wp X (l.forM f) (fun _ => I []) s := by
  induction l generalizing s with
  | nil => exact h
  | cons a rest ih =>
    show wp X (f a >>= fun _ => rest.forM f) _ s
    rw [wp_bind]
    refine wp_mono (step a List.mem_cons_self rest s h) fun _ s' h' => ?_
    exact ih (fun a' ha' => step a' (List.mem_cons_of_mem a ha')) h'

/-! ## §5 Runs -/

section
variable {m : Engine α} {next : α → Engine β} {s' : Scene}

theorem bind_of_done {a : α} (h : m s = .done a s') : (m >>= next) s = next a s' := by
  rw [bind_eq, h]

theorem bind_of_fault {cause : Fault} (h : m s = .fault cause) :
    (m >>= next) s = .fault cause := by
  rw [bind_eq, h]

theorem bind_duel {next : Duel → Engine β} : (duel >>= next) s = next s.duel s := rfl

theorem find_of_ok {look : Duel → Except LookupError α} {a : α} (h : look s.duel = .ok a) :
    find look s = .done a s := by
  rw [find, h]

theorem sound_of_ok {x : Except Fault α} {a : α} (h : x = .ok a) : sound x s = .done a s := by
  rw [h]
  rfl

theorem sound_of_error {x : Except Fault α} {cause : Fault} (h : x = .error cause) :
    (sound x : Engine α) s = .fault cause := by
  rw [h]
  rfl

end

end Engine

end CardDuel
