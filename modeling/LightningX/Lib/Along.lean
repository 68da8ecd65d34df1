/-!
# Conditions along a run

A condition on the steps of a run, each in the state before it, and the rule that what each
such step keeps holds after the run.
-/

namespace LightningX

/-- Each event of a run meets a condition, in the state before it. -/
def Along {σ ε : Type} (step : σ → ε → σ) (meets : σ → ε → Prop) : σ → List ε → Prop
  | _, [] => True
  | state, event :: events => meets state event ∧ Along step meets (step state event) events

namespace Along

variable {step : σ → ε → σ} {meets : σ → ε → Prop} {state : σ}

instance decide [∀ state event, Decidable (meets state event)] (state : σ) :
    (events : List ε) → Decidable (Along step meets state events)
  | [] => isTrue trivial
  | event :: events =>
    have : Decidable (Along step meets (step state event) events) := decide _ events
    inferInstanceAs (Decidable (_ ∧ _))

/-- What each step keeps holds after the run. -/
theorem foldl {holds : σ → Prop}
    (keeps : ∀ {state event}, holds state → meets state event → holds (step state event))
    (start : holds state) (along : Along step meets state events) :
    holds (events.foldl step state) := by
  induction events generalizing state with
  | nil => exact start
  | cons event events ih => exact ih (keeps start along.1) along.2

/-- What each step keeps may be used to weaken the condition. -/
theorem imp {holds : σ → Prop}
    (keeps : ∀ {state event}, holds state → meets state event → holds (step state event))
    (implies : ∀ {state event}, holds state → meets state event → weaker state event)
    (start : holds state) (along : Along step meets state events) :
    Along step weaker state events := by
  induction events generalizing state with
  | nil => trivial
  | cons event events ih =>
    exact ⟨implies start along.1, ih (keeps start along.1) along.2⟩

theorem append_iff :
    Along step meets state (events ++ more) ↔
      Along step meets state events ∧ Along step meets (events.foldl step state) more := by
  induction events generalizing state with
  | nil => exact ⟨fun later => ⟨trivial, later⟩, And.right⟩
  | cons event events ih => rw [List.cons_append, Along, Along, ih, and_assoc, List.foldl_cons]

theorem take (along : Along step meets state events) (count : Nat) :
    Along step meets state (events.take count) := by
  rw [← events.take_append_drop count] at along
  exact (append_iff.mp along).1

/-- Two steps that agree along a run lead to the same state. -/
theorem foldl_eq (same : Along step (fun state event => other state event = step state event)
    state events) : events.foldl other state = events.foldl step state := by
  induction events generalizing state with
  | nil => rfl
  | cons event events ih => rw [List.foldl_cons, same.1, ih same.2, List.foldl_cons]

end Along
end LightningX
