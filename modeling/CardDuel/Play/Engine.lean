/-
CardDuel.Play.Engine — computations that change a duel.

An engine computation runs on a scene: the duel as it stands, the journal
of what has happened in the action so far, and the number of calls on
abilities that are under way. It ends in one of three ways. It is done,
with a value; it is refused, with an error, and what it changed before
stays changed; or it meets a fault, and then there is no duel any more.
`Engine` is a monad, so an error or a fault ends the computations that
follow it too.
-/
import CardDuel.Duel.Basic

namespace CardDuel

/-! ## Scenes -/

/-- Something that happens in the course of an action. -/
inductive Event where
  /-- The triggered abilities of a card are called up, below `level`
  other such calls. -/
  | dispatched (level : Nat) (card : InstanceId) (kind : TriggerKind)
  /-- A stat is written. -/
  | wrote (bearer : Bearer) (stat : String) (change : StatChange)
  /-- The watchers of a stat are told of a write. -/
  | notified (bearer : Bearer) (stat : String) (change : StatChange)
  deriving DecidableEq, Repr

/-- A duel in the course of an action. The journal has the latest event
first; `depth` counts the calls on abilities that are under way. -/
structure Scene where
  duel : Duel
  journal : List Event
  depth : Nat
  deriving DecidableEq, Repr

/-! ## Outcomes -/

/-- How a computation ends. -/
inductive Outcome (σ α : Type) where
  | done (value : α) (state : σ)
  | refused (error : DuelError) (state : σ)
  | fault (cause : Fault)
  deriving DecidableEq, Repr

/-- The same ending with another view of the state. -/
def Outcome.mapState {σ τ α : Type} (f : σ → τ) : Outcome σ α → Outcome τ α
  | done value state => done value (f state)
  | refused error state => refused error (f state)
  | fault cause => fault cause

/-- A computation on a scene. -/
def Engine (α : Type) : Type := Scene → Outcome Scene α

namespace Engine

variable {α β : Type}

instance : Monad Engine where
  pure value := fun s => .done value s
  bind m next := fun s =>
    match m s with
    | .done value s' => next value s'
    | .refused error s' => .refused error s'
    | .fault cause => .fault cause

theorem bind_eq (m : Engine α) (next : α → Engine β) (s : Scene) :
    (m >>= next) s =
      match m s with
      | .done value s' => next value s'
      | .refused error s' => .refused error s'
      | .fault cause => .fault cause := rfl

theorem pure_eq (value : α) (s : Scene) : (pure value : Engine α) s = .done value s := rfl

theorem id_map (m : Engine α) : id <$> m = m := by
  funext s
  show (m >>= fun a => pure (id a)) s = m s
  rw [bind_eq]
  cases m s <;> rfl

theorem bind_assoc {γ : Type} (m : Engine α) (f : α → Engine β) (g : β → Engine γ) :
    m >>= f >>= g = m >>= fun a => f a >>= g := by
  funext s
  simp only [bind_eq]
  cases m s <;> rfl

instance : LawfulMonad Engine :=
  LawfulMonad.mk' Engine id_map (fun _ _ => rfl) bind_assoc

/-! ## Primitive computations -/

/-- The duel as it stands. -/
def duel : Engine Duel := fun s => .done s.duel s

/-- Changes the duel. -/
def modifyDuel (f : Duel → Duel) : Engine Unit := fun s => .done () { s with duel := f s.duel }

/-- Enters an event in the journal. -/
def note (e : Event) : Engine Unit := fun s => .done () { s with journal := e :: s.journal }

/-- Ends with an error. -/
def refuse (e : DuelError) : Engine α := fun s => .refused e s

/-- Looks something up in the duel. -/
def find (look : Duel → Except LookupError α) : Engine α := fun s =>
  match look s.duel with
  | .ok value => .done value s
  | .error e => .refused (.lookup e) s

/-- Goes on with a value that may be a fault. -/
def sound (value : Except Fault α) : Engine α := fun s =>
  match value with
  | .ok value => .done value s
  | .error cause => .fault cause

/-- Draws from the generator of the duel. -/
def draw (roll : Random.Generator → α × Random.Generator) : Engine α := fun s =>
  let (value, generator) := roll s.duel.generator
  .done value { s with duel := { s.duel with generator } }

/-- The number of calls on abilities that are under way. -/
def depth : Engine Nat := fun s => .done s.depth s

/-- Runs a computation one level deeper, and leaves the level again when
it is done and when it is refused. -/
def nested (m : Engine α) : Engine α := fun s =>
  (m { s with depth := s.depth + 1 }).mapState fun s' => { s' with depth := s'.depth - 1 }

/-- Runs a computation on a duel, with an empty journal and no call under
way. -/
def runOn (m : Engine α) (d : Duel) : Outcome Scene α := m ⟨d, [], 0⟩

end Engine

end CardDuel
