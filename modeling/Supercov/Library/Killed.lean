import Mathlib.Data.List.Basic

/-!
# Processes that are killed

A process is the operations it does one after another.  Killed, it leaves what some first
ones of them made: what holds throughout holds of that.
-/

namespace Killed

variable {State Op : Type} (apply : Op → State → State)

def run (ops : List Op) (state : State) : State := ops.foldl (fun state op => apply op state) state

theorem run_append (ops later : List Op) (state : State) :
    run apply (ops ++ later) state = run apply later (run apply ops state) :=
  List.foldl_append

/-- The property holds from the state on, after each of the operations. -/
def Throughout (P : State → Prop) : List Op → State → Prop
  | [], state => P state
  | op :: ops, state => P state ∧ Throughout P ops (apply op state)

namespace Throughout

variable {apply} {P Q : State → Prop} {ops later : List Op} {state : State}

theorem append (holds : Throughout apply P ops state)
    (holds' : Throughout apply P later (run apply ops state)) :
    Throughout apply P (ops ++ later) state := by
  induction ops generalizing state with
  | nil => exact holds'
  | cons op ops ih => exact ⟨holds.1, ih holds.2 holds'⟩

theorem take (holds : Throughout apply P ops state) (point : Nat) :
    P (run apply (ops.take point) state) := by
  induction ops generalizing state point with
  | nil =>
    rw [List.take_nil]
    exact holds
  | cons op ops ih =>
    cases point with
    | zero => exact holds.1
    | succ point => exact ih holds.2 point

end Throughout

end Killed
