import DemandPaging.Event
import DemandPaging.Violation

/-!
Operations that log. A `Run` is the events an operation logged and the value it
ended with; when a rule is broken, the events up to that point remain. States are
passed and returned by name, so a run says nothing about them.
-/

namespace DemandPaging

/-- What an operation logged, and its value or the rule it broke. -/
structure Run (α : Type) where
  events : List Event
  outcome : Checked α

namespace Run

variable {α β γ : Type}

@[ext] theorem ext {x y : Run α} (events : x.events = y.events)
    (outcome : x.outcome = y.outcome) : x = y := by
  cases x; cases y; cases events; cases outcome; rfl

protected def pure (value : α) : Run α :=
  ⟨[], .ok value⟩

/-- Continues with a run's value; a broken rule ends the whole. -/
protected def bind (run : Run α) (next : α → Run β) : Run β :=
  match run.outcome with
  | .ok value =>
    let rest := next value
    ⟨run.events ++ rest.events, rest.outcome⟩
  | .error violation => ⟨run.events, .error violation⟩

instance : Monad Run where
  pure := Run.pure
  bind := Run.bind

instance : MonadLift Checked Run := ⟨fun outcome => ⟨[], outcome⟩⟩

def log (event : Event) : Run Unit :=
  ⟨[event], .ok ()⟩

/-- Stops with a violation. -/
def violate (violation : Violation) : Run α :=
  ⟨[], .error violation⟩

/-- Goes on from a round with a step until it gives a result. Without one, if there is none
ever. -/
def follow (step : α → Run (α ⊕ β)) (round : Run (α ⊕ β)) : Option (Run β) :=
  match round with
  | ⟨events, .error violation⟩ => some ⟨events, .error violation⟩
  | ⟨events, .ok (.inr result)⟩ => some ⟨events, .ok result⟩
  | ⟨events, .ok (.inl next)⟩ => do
    let rest ← step next |>.follow step
    some ⟨events ++ rest.events, rest.outcome⟩
partial_fixpoint

/-- Repeats a step on a state until it gives a result. -/
def loop (step : α → Run (α ⊕ β)) (state : α) : Option (Run β) :=
  (step state).follow step

/-- The same with the first rounds written out, so that a loop that ends in them can be
evaluated in proofs. -/
def unrolled (step : α → Run (α ⊕ β)) : Nat → α → Option (Run β)
  | 0, state => loop step state
  | rounds + 1, state =>
    match step state with
    | ⟨events, .error violation⟩ => some ⟨events, .error violation⟩
    | ⟨events, .ok (.inr result)⟩ => some ⟨events, .ok result⟩
    | ⟨events, .ok (.inl next)⟩ => do
      let rest ← unrolled step rounds next
      some ⟨events ++ rest.events, rest.outcome⟩

theorem unrolled_eq (step : α → Run (α ⊕ β)) (rounds : Nat) (state : α) :
    unrolled step rounds state = loop step state := by
  induction rounds generalizing state with
  | zero => rfl
  | succ rounds ih =>
      unfold unrolled
      rw [loop, follow.eq_def]
      simp only [ih]
      rfl

/-- Repeats a step on a state until it gives a result, with so many rounds written out. -/
def iterate (step : α → Run (α ⊕ β)) (rounds : Nat) (start : α) : Run β :=
  (unrolled step rounds start).getD (violate .endless)

/-- Whether the run ends with this value. -/
def Yields (run : Run α) (value : α) : Prop :=
  run.outcome = .ok value

@[simp] theorem outcome_lift (outcome : Checked α) :
    (liftM outcome : Run α).outcome = outcome := rfl

theorem outcome_bind (run : Run α) (next : α → Run β) :
    (run >>= next).outcome = run.outcome.bind fun value => (next value).outcome := by
  change (Run.bind run next).outcome = _
  unfold Run.bind
  cases run.outcome <;> rfl

theorem yields_bind {run : Run α} {next : α → Run β} {result : β} :
    (run >>= next).Yields result ↔ ∃ value, run.Yields value ∧ (next value).Yields result := by
  unfold Yields
  rw [outcome_bind]
  cases run.outcome with
  | error violation => simp [Except.bind]
  | ok value => simp [Except.bind]

private theorem id_map_run (run : Run α) : id <$> run = run := by
  apply Run.ext
  · change (Run.bind run fun value => Run.pure value).events = _
    unfold Run.bind Run.pure
    cases run.outcome <;> simp
  · change (Run.bind run fun value => Run.pure value).outcome = _
    unfold Run.bind Run.pure
    cases run.outcome <;> rfl

private theorem bind_assoc_run (run : Run α) (next : α → Run β) (last : β → Run γ) :
    run >>= next >>= last = run >>= fun value => next value >>= last := by
  change Run.bind (Run.bind run next) last =
    Run.bind run fun value => Run.bind (next value) last
  unfold Run.bind
  cases run.outcome with
  | error violation => rfl
  | ok value =>
      dsimp only
      cases (next value).outcome with
      | error violation => rfl
      | ok value => simp [List.append_assoc]

instance : LawfulMonad Run :=
  LawfulMonad.mk' Run id_map_run (fun _ _ => Run.ext (List.nil_append _) rfl) bind_assoc_run

end Run
end DemandPaging
