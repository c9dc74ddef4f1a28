import Mathlib.Order.Defs.PartialOrder
import Mathlib.Tactic.Common

/-!
# Programs that others run beside

A program changes a shared state one step at a time; between two steps others may change it,
within what it relies on.  What a program guarantees of its own steps the others rely on.
-/

namespace Interleaved

universe u v

/-- A step changes the state at once; what comes next depends on the state it found. -/
inductive Program (State : Type u) (Result : Type v) where
  | done (result : Result)
  | step (change : State → State) (next : State → Program State Result)

variable {State : Type u} {Result Final : Type v}

namespace Program

protected def bind : Program State Result → (Result → Program State Final) → Program State Final
  | .done result, next => next result
  | .step change rest, next => .step change fun state => (rest state).bind next

instance : Monad (Program State) where
  pure := .done
  bind := Program.bind

def run : Program State Result → State → Result × State
  | .done result, state => (result, state)
  | .step change next, state => (next state).run (change state)

theorem run_bind (program : Program State Result) (next : Result → Program State Final)
    (state : State) :
    (program >>= next).run state = (next (program.run state).1).run (program.run state).2 := by
  induction program generalizing state with
  | done result => rfl
  | step change rest ih => exact ih state (change state)

end Program

section Steps

variable {State : Type u}

def observe : Program State State := .step id .done

def change (change : State → State) : Program State PUnit := .step change fun _ => .done ⟨⟩

def attempt (change : State → Option State) : Program State Bool :=
  .step (fun state => (change state).getD state) fun state => .done (change state).isSome

end Steps

/-- From the state on, whatever others do within `rely`, each step of the program is within
`guarantee`, and what it ends with satisfies `post`. -/
def Meets (rely guarantee : State → State → Prop) (post : Result → State → Prop) :
    Program State Result → State → Prop
  | .done result, state => ∀ later, rely state later → post result later
  | .step change next, state => ∀ later, rely state later →
    guarantee later (change later) ∧ Meets rely guarantee post (next later) (change later)

namespace Meets

variable {rely guarantee : State → State → Prop} {post : Result → State → Prop} {state : State}

/-- What others do leaves it met. -/
theorem stable (rely : State → State → Prop)
    (trans : ∀ {first second third}, rely first second → rely second third → rely first third)
    {program : Program State Result} (meets : Meets rely guarantee post program state) {later : State}
    (between : rely state later) : Meets rely guarantee post program later := by
  cases program with
  | done result => exact fun last after => meets last (trans between after)
  | step change next => exact fun last after => meets last (trans between after)

/-- It is enough that it is met at whatever state others leave. -/
theorem of_later (rely : State → State → Prop)
    (settled : ∀ {state later}, rely state later → rely later later) {program : Program State Result}
    (meets : ∀ later, rely state later → Meets rely guarantee post program later) :
    Meets rely guarantee post program state := by
  cases program with
  | done result => exact fun later between => meets later between later (settled between)
  | step change next => exact fun later between => meets later between later (settled between)

theorem bind (rely : State → State → Prop)
    (settled : ∀ {state later}, rely state later → rely later later)
    {middle : Result → State → Prop} {post : Final → State → Prop} {program : Program State Result}
    {next : Result → Program State Final} (meets : Meets rely guarantee middle program state)
    (then_ : ∀ result later, middle result later → Meets rely guarantee post (next result) later) :
    Meets rely guarantee post (program >>= next) state := by
  induction program generalizing state with
  | done result => exact of_later rely settled fun later between => then_ result later (meets later between)
  | step change rest ih =>
    intro later between
    obtain ⟨kept, meets⟩ := meets later between
    exact ⟨kept, ih later meets⟩

theorem mono {other : Result → State → Prop} {program : Program State Result}
    (meets : Meets rely guarantee post program state)
    (weaker : ∀ result state, post result state → other result state) :
    Meets rely guarantee other program state := by
  induction program generalizing state with
  | done result => exact fun later between => weaker _ _ (meets later between)
  | step change next ih =>
    intro later between
    obtain ⟨kept, meets⟩ := meets later between
    exact ⟨kept, ih later meets⟩

theorem run {program : Program State Result} (meets : Meets rely guarantee post program state)
    (refl : ∀ state, rely state state) : post (program.run state).1 (program.run state).2 := by
  induction program generalizing state with
  | done result => exact meets state (refl state)
  | step change next ih => exact ih state (meets state (refl state)).2

end Meets

def Leaves {View : Type*} (view : State → View) : Program State Result → Prop
  | .done _ => True
  | .step change next => (∀ state, view (change state) = view state) ∧
      ∀ state, Leaves view (next state)

namespace Leaves

variable {View : Type*} {view : State → View}

theorem bind {program : Program State Result} {next : Result → Program State Final}
    (leaves : Leaves view program) (then_ : ∀ result, Leaves view (next result)) :
    Leaves view (program >>= next) := by
  induction program with
  | done result => exact then_ result
  | step change rest ih => exact ⟨leaves.1, fun state => ih state (leaves.2 state)⟩

/-- What is known of what is seen stays known. -/
theorem meets {rely guarantee : State → State → Prop} {P : State → Prop} {state : State}
    {program : Program State Result} (leaves : Leaves view program)
    (kept : ∀ {state later}, P state → rely state later → P later)
    (same : ∀ {state later}, P state → view later = view state → guarantee state later ∧ P later)
    (holds : P state) : Meets rely guarantee (fun _ => P) program state := by
  induction program generalizing state with
  | done result => exact fun later between => kept holds between
  | step change next ih =>
    intro later between
    obtain ⟨within, known⟩ := same (kept holds between) (leaves.1 later)
    exact ⟨within, ih later (leaves.2 later) known⟩

end Leaves

end Interleaved
