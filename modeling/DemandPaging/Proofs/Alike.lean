import DemandPaging.Proofs.Outcome

/-!
Two runs side by side. They are alike if they log the same events and end in the same way:
with the same violation, or with values that are related. The rules here carry such
statements through sequences, as those for one run do.
-/

namespace DemandPaging

variable {α β γ δ : Type} {related : α → β → Prop} {goal : γ → δ → Prop}

/-- Both results are values that are related, or both are the same violation. -/
def Checked.Alike (related : α → β → Prop) : Checked α → Checked β → Prop
  | .ok value, .ok other => related value other
  | .error violation, .error other => violation = other
  | _, _ => False

/-- Both runs log the same, and end alike. -/
structure Run.Alike (related : α → β → Prop) (run : Run α) (other : Run β) : Prop where
  events : run.events = other.events
  outcome : run.outcome.Alike related other.outcome

namespace Checked.Alike

theorem pure {value : α} {other : β} (h : related value other) :
    Alike related (Pure.pure value) (Pure.pure other) :=
  h

theorem error (violation : Violation) : Alike related (.error violation) (.error violation) :=
  rfl

theorem bind {first : Checked α} {second : Checked β} {next : α → Checked γ}
    {last : β → Checked δ} (h : first.Alike related second)
    (rest : ∀ value other, related value other → (next value).Alike goal (last other)) :
    Alike goal (first >>= next) (second >>= last) := by
  match first, second, h with
  | .ok value, .ok other, h => exact rest value other h
  | .error _, .error _, h => exact h

theorem mono {also : α → β → Prop} {result : Checked α} {second : Checked β}
    (h : result.Alike related second)
    (weaker : ∀ value other, related value other → also value other) :
    result.Alike also second := by
  match result, second, h with
  | .ok value, .ok other, h => exact weaker value other h
  | .error _, .error _, h => exact h

theorem refl (result : Checked α) : result.Alike Eq result := by
  cases result <;> exact Eq.refl _

theorem require {condition : Prop} [Decidable condition] {violation : Violation} :
    Alike (fun _ _ => True) (DemandPaging.require condition violation)
      (DemandPaging.require condition violation) :=
  (refl _).mono fun _ _ _ => trivial

theorem and {result : Checked α} {second : Checked β} {post : α → Prop} {also : β → Prop}
    (h : result.Alike related second) (left : result.Satisfies (fun _ => True) post)
    (right : second.Satisfies (fun _ => True) also) :
    result.Alike (fun value other => related value other ∧ post value ∧ also other) second := by
  match result, second, h with
  | .ok _, .ok _, h => exact ⟨h, left, right⟩
  | .error _, .error _, h => exact h

theorem foldlM {items : List γ} {step : α → γ → Checked α} {next : β → γ → Checked β}
    {state : α} {other : β} (related : α → β → Prop) (start : related state other)
    (keeps : ∀ item state other, related state other →
      (step state item).Alike related (next other item)) :
    (items.foldlM step state).Alike related (items.foldlM next other) := by
  induction items generalizing state other with
  | nil => exact start
  | cons item rest ih => exact .bind (keeps item state other start) fun _ _ => ih

end Checked.Alike

namespace Run.Alike

theorem pure {value : α} {other : β} (h : related value other) :
    Alike related (Pure.pure value) (Pure.pure other) :=
  ⟨rfl, h⟩

theorem lift {result : Checked α} {second : Checked β} (h : result.Alike related second) :
    Alike related (liftM result : Run α) (liftM second : Run β) :=
  ⟨rfl, h⟩

theorem refl (run : Run α) : run.Alike Eq run :=
  ⟨rfl, .refl run.outcome⟩

theorem log {event : Event} : Alike (fun _ _ => True) (Run.log event) (Run.log event) :=
  ⟨rfl, trivial⟩

theorem violate (violation : Violation) :
    Alike related (Run.violate violation) (Run.violate violation) :=
  ⟨rfl, rfl⟩

theorem bind {first : Run α} {second : Run β} {next : α → Run γ} {last : β → Run δ}
    (h : first.Alike related second)
    (rest : ∀ value other, related value other → (next value).Alike goal (last other)) :
    Alike goal (first >>= next) (second >>= last) := by
  obtain ⟨events, outcome⟩ := h
  change (Run.bind first next).Alike goal (Run.bind second last)
  unfold Run.bind
  match first, second, events, outcome with
  | ⟨_, .ok value⟩, ⟨_, .ok other⟩, rfl, outcome =>
      obtain ⟨events, outcome⟩ := rest value other outcome
      exact ⟨congrArg _ events, outcome⟩
  | ⟨_, .error _⟩, ⟨_, .error _⟩, rfl, outcome => exact ⟨rfl, outcome⟩

theorem mono {also : α → β → Prop} {run : Run α} {second : Run β} (h : run.Alike related second)
    (weaker : ∀ value other, related value other → also value other) : run.Alike also second :=
  ⟨h.events, h.outcome.mono weaker⟩

theorem eq {run other : Run α} (h : run.Alike Eq other) : run = other := by
  obtain ⟨events, outcome⟩ := h
  refine Run.ext events ?_
  match run, other, outcome with
  | ⟨_, .ok _⟩, ⟨_, .ok _⟩, same => exact congrArg Except.ok same
  | ⟨_, .error _⟩, ⟨_, .error _⟩, same => exact congrArg Except.error same

theorem map_eq {run : Run α} {other : Run β} {f : α → β}
    (h : run.Alike (fun value other => f value = other) other) : f <$> run = other := by
  rw [← bind_pure_comp, ← bind_pure other]
  exact (h.bind fun _ _ same => .pure same).eq

theorem and {run : Run α} {second : Run β} {post : α → Prop} {also : β → Prop}
    (h : run.Alike related second) (left : run.Satisfies (fun _ => True) post)
    (right : second.Satisfies (fun _ => True) also) :
    run.Alike (fun value other => related value other ∧ post value ∧ also other) second :=
  ⟨h.events, h.outcome.and left right⟩

theorem foldlM {items : List γ} {step : α → γ → Run α} {next : β → γ → Run β} {state : α}
    {other : β} (related : α → β → Prop) (start : related state other)
    (keeps : ∀ item state other, related state other →
      (step state item).Alike related (next other item)) :
    (items.foldlM step state).Alike related (items.foldlM next other) := by
  induction items generalizing state other with
  | nil => exact .pure start
  | cons item rest ih => exact .bind (keeps item state other start) fun _ _ => ih

theorem exists_yields {run : Run α} {second : Run β} (h : run.Alike related second) {value : α}
    (ends : run.Yields value) : ∃ other, second.Yields other ∧ related value other := by
  have outcome := h.outcome
  unfold Run.Yields at *
  rw [ends] at outcome
  match found : second.outcome, outcome with
  | .ok other, outcome => exact ⟨other, rfl, outcome⟩

end Run.Alike
end DemandPaging
