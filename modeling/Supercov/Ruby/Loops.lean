import Mathlib.Data.List.Basic
import Mathlib.Logic.Function.Basic
import Supercov.Ruby.Decisions

/-!
# Loops and operator assignments in the Ruby runtime

Whether a loop's body ran, or an assignment's right side, is told from one state for each phase and
construct: the probes change it, and the next arrival or the end of the phase reads it.
-/

namespace Supercov.Ruby.Loops

open Decisions (Operator)

/-- The probed constructs: a `while` or `until`, a `for` or an iterator, an assignment to a target
that is not read again, and one to a variable. -/
inductive Construct where
  | whileLoop (until_ : Bool)
  | forLoop
  | arrival
  | logical (op : Operator)
  deriving DecidableEq

inductive Alternative where
  | zero
  | entered
  | shortCircuit
  | evaluated
  deriving DecidableEq

/-- A context and a construct. -/
abbrev Place := Nat × Nat

/-- A `while` loop's state says whether its next predicate is the first of an execution. -/
inductive LoopState where
  | expecting (first : Bool)
  | pending
  | entered
  | settled
  deriving DecidableEq

/-- The states of loops, the loops reached and not entered, the arrivals at assignments and the right
sides started, and what is recorded. -/
structure Runtime where
  loopState : Place → Option LoopState := fun _ => none
  pendingLoops : Place → Bool := fun _ => false
  arrivals : Place → Nat × Nat := fun _ => (0, 0)
  hits : Place → Alternative → Bool := fun _ _ => false

namespace Runtime

def hit (place : Place) (alternative : Alternative) (runtime : Runtime) : Runtime :=
  { runtime with
    hits := fun other which =>
      runtime.hits other which || (decide (other = place) && decide (which = alternative)) }

def hitIf (condition : Bool) (place : Place) (alternative : Alternative) (runtime : Runtime) : Runtime :=
  if condition then runtime.hit place alternative else runtime

def setLoopState (place : Place) (state : LoopState) (runtime : Runtime) : Runtime :=
  { runtime with loopState := Function.update runtime.loopState place (some state) }

section Hits

variable (runtime : Runtime) (condition : Bool) (place : Place) (alternative : Alternative)

@[simp] theorem hits_hit (other : Place) (which : Alternative) :
    (runtime.hit place alternative).hits other which =
      (runtime.hits other which || (decide (other = place) && decide (which = alternative))) := rfl

@[simp] theorem loopState_hit : (runtime.hit place alternative).loopState = runtime.loopState := rfl

@[simp] theorem pendingLoops_hit :
    (runtime.hit place alternative).pendingLoops = runtime.pendingLoops := rfl

@[simp] theorem arrivals_hit : (runtime.hit place alternative).arrivals = runtime.arrivals := rfl

@[simp] theorem hits_hitIf (other : Place) (which : Alternative) :
    (runtime.hitIf condition place alternative).hits other which =
      (runtime.hits other which ||
        (condition && decide (other = place) && decide (which = alternative))) := by
  cases condition <;> simp [hitIf]

@[simp] theorem loopState_hitIf :
    (runtime.hitIf condition place alternative).loopState = runtime.loopState := by
  cases condition <;> rfl

@[simp] theorem pendingLoops_hitIf :
    (runtime.hitIf condition place alternative).pendingLoops = runtime.pendingLoops := by
  cases condition <;> rfl

@[simp] theorem arrivals_hitIf :
    (runtime.hitIf condition place alternative).arrivals = runtime.arrivals := by
  cases condition <;> rfl

end Hits

/-- The predicate comes to a value. -/
def probeWhile (until_ : Bool) (place : Place) (truthy : Bool) (runtime : Runtime) : Runtime :=
  let enters := if until_ then !truthy else truthy
  let expectingFirst := match runtime.loopState place with
    | some (.expecting first) => first
    | _ => true
  if enters then
    (runtime.hitIf expectingFirst place .entered).setLoopState place (.expecting false)
  else
    (runtime.hitIf expectingFirst place .zero).setLoopState place (.expecting true)

/-- The collection or receiver is known. -/
def probeFor (place : Place) (runtime : Runtime) : Runtime :=
  let runtime := runtime.hitIf (runtime.loopState place = some .pending) place .zero
  let runtime := runtime.setLoopState place .pending
  { runtime with pendingLoops := Function.update runtime.pendingLoops place true }

def probeForBody (place : Place) (runtime : Runtime) : Runtime :=
  let runtime := runtime.hitIf (runtime.loopState place = some .pending) place .entered
  let runtime := runtime.setLoopState place .entered
  { runtime with pendingLoops := Function.update runtime.pendingLoops place false }

def settleLoops (context : Nat) (runtime : Runtime) : Runtime :=
  let ending (place : Place) : Bool := decide (place.1 = context) && runtime.pendingLoops place
  { runtime with
    pendingLoops := fun place => runtime.pendingLoops place && !ending place
    hits := fun place which => runtime.hits place which || (ending place && decide (which = .zero))
    loopState := fun place => if ending place then some .settled else runtime.loopState place }

/-- A variable is read before the assignment reads it. -/
def probeLogical (op : Operator) (place : Place) (truthy : Bool) (runtime : Runtime) : Runtime :=
  let short := if op = .or then truthy else !truthy
  runtime.hit place (if short then .shortCircuit else .evaluated)

/-- More arrivals than right sides started. -/
def unsettled (place : Place) (runtime : Runtime) : Bool :=
  (runtime.arrivals place).2 < (runtime.arrivals place).1

def probeArrival (place : Place) (runtime : Runtime) : Runtime :=
  let runtime := runtime.hitIf (runtime.unsettled place) place .shortCircuit
  { runtime with
    arrivals := Function.update runtime.arrivals place
      ((runtime.arrivals place).1 + 1, (runtime.arrivals place).2) }

def probeEvaluationStarted (place : Place) (runtime : Runtime) : Runtime :=
  let runtime := runtime.hit place .evaluated
  { runtime with
    arrivals := Function.update runtime.arrivals place
      ((runtime.arrivals place).1, (runtime.arrivals place).2 + 1) }

def settleArrivals (context : Nat) (runtime : Runtime) : Runtime :=
  { runtime with
    hits := fun place which => runtime.hits place which ||
      (decide (place.1 = context) && runtime.unsettled place && decide (which = .shortCircuit)) }

/-- What the end of a phase settles. -/
def settle (context : Nat) (runtime : Runtime) : Runtime :=
  (runtime.settleArrivals context).settleLoops context

end Runtime

/-- What executions of constructs do.  One begins: a `for` loop's when its collection is known, an
assignment's before its target.  A `while` loop's predicate comes to a value; a body or a right side
starts; an execution other than a `while` loop's ends normally; any is left otherwise.  A variable is
read, and decides an assignment to it.  A phase ends. -/
inductive Event where
  | begins (execution : Nat) (place : Place)
  | predicate (execution : Nat) (place : Place) (truthy : Bool)
  | starts (execution : Nat) (place : Place)
  | done (execution : Nat)
  | leave (execution : Nat)
  | reads (place : Place) (truthy : Bool)
  | ends (context : Nat)

abbrev Program := List Construct

def Runtime.after (program : Program) (runtime : Runtime) : Event → Runtime
  | .begins _ place =>
    match program[place.2]? with
    | some .forLoop => runtime.probeFor place
    | some .arrival => runtime.probeArrival place
    | _ => runtime
  | .predicate _ place truthy =>
    match program[place.2]? with
    | some (.whileLoop until_) => runtime.probeWhile until_ place truthy
    | _ => runtime
  | .starts _ place =>
    match program[place.2]? with
    | some .forLoop => runtime.probeForBody place
    | some .arrival => runtime.probeEvaluationStarted place
    | _ => runtime
  | .done _ => runtime
  | .leave _ => runtime
  | .reads place truthy =>
    match program[place.2]? with
    | some (.logical op) => runtime.probeLogical op place truthy
    | _ => runtime
  | .ends context => runtime.settle context

end Supercov.Ruby.Loops
