import Mathlib.Tactic.Common

/-!
# Runs of events

What holds at the start and is kept by every event that is as it should be holds at the end.
-/

namespace Runs

variable {Moment Event : Type} (after : Moment → Event → Moment)

def run (moment : Moment) (events : List Event) : Moment := events.foldl after moment

/-- Every event is as `good` says, at the moment it happens. -/
def Along (good : Moment → Event → Prop) : Moment → List Event → Prop
  | _, [] => True
  | moment, event :: events => good moment event ∧ Along good (after moment event) events

theorem run_append (moment : Moment) (events later : List Event) :
    run after moment (events ++ later) = run after (run after moment events) later :=
  List.foldl_append

variable {after} {good better : Moment → Event → Prop} {Holds : Moment → Prop}

theorem Along.and {moment : Moment} {events : List Event} (one : Along after good moment events)
    (other : Along after better moment events) :
    Along after (fun moment event => good moment event ∧ better moment event) moment events := by
  induction events generalizing moment with
  | nil => trivial
  | cons event events inductionHypothesis =>
    exact ⟨⟨one.1, other.1⟩, inductionHypothesis one.2 other.2⟩

theorem Along.take {moment : Moment} {events : List Event} (along : Along after good moment events)
    (count : Nat) : Along after good moment (events.take count) := by
  induction events generalizing moment count with
  | nil =>
    rw [List.take_nil]
    trivial
  | cons event events inductionHypothesis =>
    cases count with
    | zero => trivial
    | succ count => exact ⟨along.1, inductionHypothesis along.2 count⟩

theorem Along.keeps (keeps : ∀ moment event, Holds moment → good moment event →
      Holds (after moment event))
    {moment : Moment} {events : List Event} (along : Along after good moment events)
    (holds : Holds moment) : Holds (run after moment events) := by
  induction events generalizing moment with
  | nil => exact holds
  | cons event events inductionHypothesis =>
    exact inductionHypothesis along.2 (keeps moment event holds along.1)

end Runs
