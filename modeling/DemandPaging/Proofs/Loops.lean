import DemandPaging.Proofs.Alike

/-!
Loops. What each round of a loop keeps holds of the result if there is one, and there is one if
each round lowers a measure. Two loops whose rounds are alike run side by side to their ends, or
both without end.
-/

namespace DemandPaging

variable {α β γ δ : Type}

namespace Run

variable {step : α → Run (α ⊕ β)} {state : α} {run : Run β}

/-- What holds of a round with whatever follows it holds of the loop. -/
theorem loop_induct {motive : α → Run β → Prop}
    (each : ∀ state (rest : α → Run β),
      (∀ next, (step state).Yields (.inl next) → motive next (rest next)) →
        motive state (step state >>= Sum.elim rest pure))
    (ends : loop step state = some run) : motive state run := by
  refine follow.partial_correctness step (fun round run => ∀ state, step state = round →
    motive state run) ?_ _ run ends state rfl
  intro again ih round run ends state same
  subst same
  have goesOn := each state
  unfold Yields at goesOn
  generalize step state = round at goesOn ends
  obtain ⟨events, outcome⟩ := round
  cases outcome with
  | error violation =>
      cases ends
      exact goesOn (fun _ => violate .endless) (by simp)
  | ok answer =>
      cases answer with
      | inr result =>
          cases ends
          have last := goesOn (fun _ => violate .endless) (by simp)
          rwa [show (⟨events, .ok (.inr result)⟩ : Run (α ⊕ β)) >>= Sum.elim _ pure =
            ⟨events, .ok result⟩ from Run.ext (List.append_nil events) rfl] at last
      | inl next =>
          obtain ⟨rest, goes, same⟩ := Option.bind_eq_some_iff.mp ends
          cases same
          refine goesOn (fun _ => rest) fun other same => ?_
          cases same
          exact ih _ rest goes next rfl

theorem iterate_of_loop (rounds : Nat) (ends : loop step state = some run) :
    iterate step rounds state = run := by
  unfold iterate
  rw [unrolled_eq, ends]
  rfl

theorem iterate_of_endless (rounds : Nat) (endless : loop step state = none) :
    iterate step rounds state = violate .endless := by
  unfold iterate
  rw [unrolled_eq, endless]
  rfl

namespace Satisfies

variable {tolerated : Violation → Prop} {post : β → Prop}

theorem iterate (invariant : α → Prop) (each : ∀ state, invariant state →
      (step state).Satisfies (fun _ => True) (Sum.elim invariant post)) (rounds : Nat)
    (start : invariant state) : (Run.iterate step rounds state).Satisfies (fun _ => True) post := by
  cases ended : loop step state with
  | none =>
      rw [iterate_of_endless rounds ended]
      trivial
  | some run =>
      rw [iterate_of_loop rounds ended]
      refine loop_induct (motive := fun state run => invariant state →
        run.Satisfies (fun _ => True) post) ?_ ended start
      intro state rest ih holds
      refine .bind (each state holds).yielding ?_
      rintro (next | result) ⟨yields, kept⟩
      · exact ih next yields kept
      · exact .pure kept

/-- A loop of which every round lowers a measure ends. -/
theorem loop_decreasing (invariant : α → Prop) (measure : α → Nat)
    (each : ∀ state, invariant state → (step state).Satisfies tolerated
      (Sum.elim (fun next => invariant next ∧ measure next < measure state) post))
    (start : invariant state) :
    ∃ run, Run.loop step state = some run ∧ run.Satisfies tolerated post := by
  induction bound : measure state using Nat.strongRecOn generalizing state with
  | ind bound ih =>
      have kept := each state start
      rw [loop, follow.eq_def]
      generalize step state = round at kept
      obtain ⟨events, outcome⟩ := round
      cases outcome with
      | error violation => exact ⟨_, rfl, kept⟩
      | ok answer =>
          cases answer with
          | inr result => exact ⟨_, rfl, kept⟩
          | inl next =>
              obtain ⟨holds, less⟩ := kept
              obtain ⟨rest, goes, last⟩ := ih _ (bound ▸ less) holds rfl
              refine ⟨⟨events ++ rest.events, rest.outcome⟩, ?_, last⟩
              rw [loop] at goes
              dsimp only
              rw [goes]
              rfl

end Satisfies

namespace Alike

variable {step' : γ → Run (γ ⊕ δ)} {related : α → γ → Prop} {goal : β → δ → Prop} {state' : γ}

/-- Where one loop ends, the other one ends alike. -/
theorem loop (each : ∀ state state', related state state' →
      (step state).Alike (Sum.LiftRel related goal) (step' state')) (start : related state state')
    (ends : Run.loop step state = some run) :
    ∃ run', Run.loop step' state' = some run' ∧ run.Alike goal run' := by
  refine loop_induct (motive := fun state run => ∀ state', related state state' →
    ∃ run', Run.loop step' state' = some run' ∧ run.Alike goal run') ?_ ends state' start
  intro state rest ih state' holds
  have alike := each state state' holds
  unfold Yields at ih
  rw [Run.loop, follow.eq_def]
  generalize step state = round at ih alike
  generalize step' state' = round' at alike
  obtain ⟨logged, ended⟩ := round
  obtain ⟨logged', ended'⟩ := round'
  obtain ⟨events, outcome⟩ := alike
  have events : logged = logged' := events
  subst events
  cases ended with
  | error violation =>
      cases ended' with
      | error violation' => exact ⟨_, rfl, rfl, outcome⟩
      | ok answer' => exact outcome.elim
  | ok answer =>
      cases ended' with
      | error violation' => exact outcome.elim
      | ok answer' =>
          cases outcome with
          | inr kept => exact ⟨_, rfl, List.append_nil _, kept⟩
          | inl kept =>
              obtain ⟨run', goes, events, last⟩ := ih _ rfl _ kept
              refine ⟨⟨logged ++ run'.events, run'.outcome⟩, ?_, congrArg _ events, last⟩
              rw [Run.loop] at goes
              dsimp only
              rw [goes]
              rfl

theorem flip {run : Run α} {other : Run β} {related : α → β → Prop} (h : run.Alike related other) :
    other.Alike (fun value other => related other value) run := by
  refine ⟨h.events.symm, ?_⟩
  match run, other, h.outcome with
  | ⟨_, .ok _⟩, ⟨_, .ok _⟩, kept => exact kept
  | ⟨_, .error _⟩, ⟨_, .error _⟩, same => exact Eq.symm same

theorem iterate (related : α → γ → Prop) (each : ∀ state state', related state state' →
      (step state).Alike (Sum.LiftRel related goal) (step' state')) (rounds rounds' : Nat)
    (start : related state state') :
    (Run.iterate step rounds state).Alike goal (Run.iterate step' rounds' state') := by
  cases ended : Run.loop step state with
  | some run =>
      obtain ⟨run', goes, last⟩ := Alike.loop each start ended
      rw [iterate_of_loop rounds ended, iterate_of_loop rounds' goes]
      exact last
  | none =>
      cases ended' : Run.loop step' state' with
      | none =>
          rw [iterate_of_endless rounds ended, iterate_of_endless rounds' ended']
          exact .violate .endless
      | some run' =>
          -- an end of the second loop would be one of the first
          have back : ∀ state' state, related state state' →
              (step' state').Alike (Sum.LiftRel (fun next' next => related next next')
                fun result' result => goal result result') (step state) := by
            intro state' state holds
            refine (each state state' holds).flip.mono fun _ _ kept => ?_
            cases kept with
            | inl kept => exact .inl kept
            | inr kept => exact .inr kept
          obtain ⟨run, goes, _⟩ := Alike.loop back start ended'
          rw [ended] at goes
          cases goes

end Alike

end Run
end DemandPaging
