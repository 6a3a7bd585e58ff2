import DemandPaging.Run

/-!
How an operation may end. A statement about an operation covers both of its endings:
the value satisfies a postcondition, or the violation is one of those that are
tolerated. The rules here carry such statements through sequences.
-/

namespace DemandPaging

variable {α β : Type} {tolerated : Violation → Prop}

/-- The result is a value that satisfies `post`, or a tolerated violation. -/
def Checked.Satisfies (tolerated : Violation → Prop) (post : α → Prop) : Checked α → Prop
  | .ok value => post value
  | .error violation => tolerated violation

/-- The run ends with a value that satisfies `post`, or with a tolerated violation. -/
def Run.Satisfies (tolerated : Violation → Prop) (post : α → Prop) (run : Run α) : Prop :=
  run.outcome.Satisfies tolerated post

namespace Checked

@[simp] theorem ok_bind (value : α) (next : α → Checked β) :
    ((Except.ok value : Checked α) >>= next) = next value := rfl

@[simp] theorem error_bind (violation : Violation) (next : α → Checked β) :
    ((Except.error violation : Checked α) >>= next) = .error violation := rfl

namespace Satisfies

theorem pure {post : α → Prop} {value : α} (h : post value) :
    Satisfies tolerated post (Pure.pure value) :=
  h

theorem bind {post : α → Prop} {goal : β → Prop} {first : Checked α}
    {next : α → Checked β} (h : first.Satisfies tolerated post)
    (rest : ∀ value, post value → (next value).Satisfies tolerated goal) :
    Satisfies tolerated goal (first >>= next) := by
  cases first with
  | error violation => exact h
  | ok value => exact rest value h

theorem mono {post goal : α → Prop} {result : Checked α}
    (h : result.Satisfies tolerated post) (weaker : ∀ value, post value → goal value) :
    result.Satisfies tolerated goal := by
  cases result with
  | error violation => exact h
  | ok value => exact weaker value h

theorem weaken {post : α → Prop} {result : Checked α} {also : Violation → Prop}
    (h : result.Satisfies tolerated post)
    (weaker : ∀ violation, tolerated violation → also violation) :
    result.Satisfies also post := by
  cases result with
  | error violation => exact weaker violation h
  | ok value => exact h

theorem any {result : Checked α} : result.Satisfies (fun _ => True) fun _ => True := by
  cases result <;> trivial

theorem and {post also : α → Prop} {result : Checked α} (h : result.Satisfies tolerated post)
    (more : result.Satisfies (fun _ => True) also) :
    result.Satisfies tolerated fun value => post value ∧ also value := by
  cases result with
  | error violation => exact h
  | ok value => exact ⟨h, more⟩

theorem exists_ok {post : α → Prop} {result : Checked α}
    (h : result.Satisfies (fun _ => False) post) : ∃ value, result = .ok value ∧ post value := by
  cases result with
  | error violation => exact h.elim
  | ok value => exact ⟨value, rfl, h⟩

theorem of_eq {post : α → Prop} {result : Checked α} {value : α}
    (equation : result = .ok value) (h : post value) : result.Satisfies tolerated post := by
  subst equation
  exact h

theorem of_errors {result : Checked α}
    (h : ∀ violation, result = .error violation → tolerated violation) :
    result.Satisfies tolerated fun value => result = .ok value := by
  cases result with
  | error violation => exact h violation rfl
  | ok value => rfl

/-- A fold keeps an invariant on what is still to come and the state so far. -/
theorem foldlM {items : List β} {step : α → β → Checked α} {state : α}
    (invariant : List β → α → Prop) (start : invariant items state)
    (keeps : ∀ item rest state, invariant (item :: rest) state →
      (step state item).Satisfies tolerated (invariant rest)) :
    (items.foldlM step state).Satisfies tolerated (invariant []) := by
  induction items generalizing state with
  | nil => exact start
  | cons item rest ih => exact .bind (keeps item rest state start) fun next => ih

theorem require {condition : Prop} [Decidable condition] {violation : Violation}
    (holds : condition) :
    Satisfies tolerated (fun _ => True) (DemandPaging.require condition violation) :=
  of_eq (if_pos holds) trivial

theorem required {condition : Prop} [Decidable condition] {violation : Violation} :
    Satisfies (fun _ => True) (fun _ => condition)
      (DemandPaging.require condition violation) := by
  unfold DemandPaging.require
  split
  · assumption
  · trivial

end Satisfies

end Checked

namespace Run
namespace Satisfies

theorem pure {post : α → Prop} {value : α} (h : post value) :
    Satisfies tolerated post (Pure.pure value) :=
  h

theorem lift {post : α → Prop} {result : Checked α} (h : result.Satisfies tolerated post) :
    Satisfies tolerated post (liftM result : Run α) :=
  h

theorem log {event : Event} : Satisfies tolerated (fun _ => True) (Run.log event) :=
  trivial

theorem of_errors {run : Run α}
    (h : ∀ violation, run.outcome = .error violation → tolerated violation) :
    run.Satisfies tolerated run.Yields :=
  Checked.Satisfies.of_errors h

theorem bind {post : α → Prop} {goal : β → Prop} {first : Run α} {next : α → Run β}
    (h : first.Satisfies tolerated post)
    (rest : ∀ value, post value → (next value).Satisfies tolerated goal) :
    Satisfies tolerated goal (first >>= next) := by
  unfold Run.Satisfies at *
  rw [outcome_bind]
  exact Checked.Satisfies.bind h rest

theorem mono {post goal : α → Prop} {run : Run α} (h : run.Satisfies tolerated post)
    (weaker : ∀ value, post value → goal value) : run.Satisfies tolerated goal :=
  Checked.Satisfies.mono h weaker

theorem weaken {post : α → Prop} {run : Run α} {also : Violation → Prop}
    (h : run.Satisfies tolerated post)
    (weaker : ∀ violation, tolerated violation → also violation) : run.Satisfies also post :=
  Checked.Satisfies.weaken h weaker

theorem any {run : Run α} : run.Satisfies (fun _ => True) fun _ => True :=
  Checked.Satisfies.any

theorem and {post also : α → Prop} {run : Run α} (h : run.Satisfies tolerated post)
    (more : run.Satisfies (fun _ => True) also) :
    run.Satisfies tolerated fun value => post value ∧ also value :=
  Checked.Satisfies.and h more

theorem foldlM {items : List β} {step : α → β → Run α} {state : α}
    (invariant : List β → α → Prop) (start : invariant items state)
    (keeps : ∀ item rest state, invariant (item :: rest) state →
      (step state item).Satisfies tolerated (invariant rest)) :
    (items.foldlM step state).Satisfies tolerated (invariant []) := by
  induction items generalizing state with
  | nil => exact start
  | cons item rest ih => exact .bind (keeps item rest state start) fun next => ih

theorem yielding {post : α → Prop} {run : Run α} (h : run.Satisfies tolerated post) :
    run.Satisfies tolerated fun value => run.Yields value ∧ post value := by
  unfold Run.Satisfies Run.Yields at *
  cases found : run.outcome with
  | error violation =>
      rw [found] at h
      exact h
  | ok value =>
      rw [found] at h
      exact ⟨rfl, h⟩

theorem of_yields {post : α → Prop} {run : Run α} {value : α}
    (h : run.Satisfies tolerated post) (ends : run.Yields value) : post value := by
  unfold Run.Satisfies at h
  rw [ends] at h
  exact h

theorem exists_yields {post : α → Prop} {run : Run α}
    (h : run.Satisfies (fun _ => False) post) : ∃ value, run.Yields value := by
  unfold Run.Satisfies at h
  unfold Run.Yields
  cases ended : run.outcome with
  | ok value => exact ⟨value, rfl⟩
  | error violation =>
      rw [ended] at h
      exact h.elim

theorem of_violation {post : α → Prop} {run : Run α} {violation : Violation}
    (h : run.Satisfies tolerated post) (ends : run.outcome = .error violation) :
    tolerated violation := by
  unfold Run.Satisfies at h
  rw [ends] at h
  exact h

end Satisfies

/-- Where what follows a run agrees on every value that it can end with, so do the whole runs. -/
theorem Satisfies.bind_congr {post : α → Prop} {run : Run α} {next other : α → Run β}
    (h : run.Satisfies (fun _ => True) post)
    (same : ∀ value, post value → next value = other value) :
    run >>= next = run >>= other := by
  change Run.bind run next = Run.bind run other
  unfold Run.Satisfies at h
  unfold Run.bind
  cases ended : run.outcome with
  | error violation => rfl
  | ok value =>
      rw [ended] at h
      dsimp only
      rw [same value h]

theorem yields_map {run : Run α} {change : α → β} {result : β} :
    (change <$> run).Yields result ↔ ∃ value, run.Yields value ∧ change value = result := by
  rw [map_eq_pure_bind, yields_bind]
  exact exists_congr fun value => and_congr_right fun _ => Except.ok.injEq .. ▸ Iff.rfl

theorem error_bind_iff {run : Run α} {next : α → Run β}
    (ends : ∀ value, ∃ result, (next value).Yields result) {violation : Violation} :
    (run >>= next).outcome = .error violation ↔ run.outcome = .error violation := by
  rw [outcome_bind]
  cases run.outcome with
  | error other => simp [Except.bind]
  | ok value =>
      obtain ⟨result, yields⟩ := ends value
      unfold Yields at yields
      simp [Except.bind, yields]

/-- Whether a run ends with a value that passes a test. -/
def passes (run : Run α) (test : α → Bool) : Bool :=
  match run.outcome with
  | .ok value => test value
  | .error _ => false

theorem passes_iff {run : Run α} {test : α → Bool} :
    run.passes test = true ↔ ∃ value, run.Yields value ∧ test value = true := by
  unfold passes Yields
  cases run.outcome with
  | ok value => simp
  | error violation => simp

/-- Whether a run breaks this rule. -/
def breaks (run : Run α) (violation : Violation) : Bool :=
  match run.outcome with
  | .ok _ => false
  | .error other => other = violation

theorem breaks_iff {run : Run α} {violation : Violation} :
    run.breaks violation = true ↔ run.outcome = .error violation := by
  unfold breaks
  cases run.outcome with
  | ok value => simp
  | error other => simp

end Run
end DemandPaging
