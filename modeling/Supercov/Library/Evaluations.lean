import Supercov.Library.ShortCircuit

/-!
# Runs of probed decisions

One thread evaluates decisions, inside one another to any depth.  A probe sees
each condition as it gets its value and each outcome as it is known; between
them the program may call the probes' own interface, and a panic may abandon
the innermost evaluations.  What holds at the start and is kept by every step
holds in every run.
-/

namespace ShortCircuit

universe u

/-- An evaluation in progress. -/
structure Activation where
  decision : Nat
  seen : Seen
  deriving DecidableEq, Repr

/-- How far it has come, in the program whose decisions these are. -/
def Activation.progress (program : List Shape) (activation : Activation) : Option Progress :=
  (program[activation.decision]?).map fun shape => shape.next activation.seen

structure Evaluation where
  decision : Nat
  seen : Seen
  outcome : Bool
  deriving DecidableEq, Repr

/-- What the program does next.  An operand gets its value in the innermost
evaluation; a panic abandons as many of the innermost ones as it passes. -/
inductive Move (Call : Type u) where
  | enter (decision : Nat)
  | operand (value : Bool)
  | panic (abandoned : Nat)
  | call (request : Call)

/-- A runtime: what its probes and its other calls do to its state.  A label says
under what an evaluation completes. -/
structure Probes (Call State Label : Type u) where
  condition : Nat → Nat → Bool → State → State
  outcome : Nat → Bool → State → State
  call : Call → State → State
  label : State → Label

/-- A run so far: the evaluations in progress, the innermost first, those
completed, and the runtime's state. -/
structure Run (State Label : Type u) where
  stack : List Activation
  completed : List (Label × Evaluation)
  state : State

variable {Call State Label : Type u}

section Steps

variable (program : List Shape) (probes : Probes Call State Label)

/-- The innermost evaluation's operand gets its value. -/
def observe (value : Bool) (run : Run State Label) : Option (Run State Label) :=
  match run.stack with
  | [] => none
  | innermost :: outer =>
    match innermost.progress program with
    | some (.waiting index) => some {
        stack := { innermost with seen := innermost.seen ++ [(index, value)] } :: outer
        completed := run.completed
        state := probes.condition innermost.decision index value run.state }
    | _ => none

/-- The innermost evaluation ends if its outcome is known. -/
def settle (run : Run State Label) : Run State Label :=
  match run.stack with
  | [] => run
  | innermost :: outer =>
    match innermost.progress program with
    | some (.done outcome _) => {
        stack := outer
        completed := run.completed ++
          [(probes.label run.state, ⟨innermost.decision, innermost.seen, outcome⟩)]
        state := probes.outcome innermost.decision outcome run.state }
    | _ => run

def advance (move : Move Call) (run : Run State Label) : Option (Run State Label) :=
  match move with
  | .enter decision =>
    if decision < program.length then some { run with stack := ⟨decision, []⟩ :: run.stack }
    else none
  | .operand value => (observe program probes value run).map (settle program probes)
  | .panic abandoned =>
    if abandoned ≤ run.stack.length then some { run with stack := run.stack.drop abandoned }
    else none
  | .call request => some { run with state := probes.call request run.state }

def runMoves : List (Move Call) → Run State Label → Option (Run State Label)
  | [], run => some run
  | move :: moves, run => (advance program probes move run).bind (runMoves moves)

end Steps

def Run.start (initial : State) : Run State Label :=
  { stack := [], completed := [], state := initial }

inductive Reaches (program : List Shape) (probes : Probes Call State Label)
    (allowed : Move Call → Run State Label → Prop) (initial : State) : Run State Label → Prop where
  | start : Reaches program probes allowed initial (.start initial)
  | step {run run' : Run State Label} {move : Move Call} :
      Reaches program probes allowed initial run → allowed move run →
      advance program probes move run = some run' → Reaches program probes allowed initial run'

section Rules

variable {program : List Shape} {probes : Probes Call State Label} {run run' : Run State Label}

theorem progress_eq_some {activation : Activation} {progress : Progress} :
    activation.progress program = some progress ↔
      ∃ shape, program[activation.decision]? = some shape ∧
        shape.next activation.seen = progress :=
  Option.map_eq_some_iff

theorem observe_eq_some {value : Bool} (observed : observe program probes value run = some run') :
    ∃ innermost outer shape index, run.stack = innermost :: outer ∧
      program[innermost.decision]? = some shape ∧ shape.next innermost.seen = .waiting index ∧
      run' = {
        stack := { innermost with seen := innermost.seen ++ [(index, value)] } :: outer
        completed := run.completed
        state := probes.condition innermost.decision index value run.state } := by
  unfold observe at observed
  split at observed
  · cases observed
  · rename_i innermost outer stacked
    split at observed
    · rename_i index progressed
      obtain ⟨shape, known, waits⟩ := progress_eq_some.mp progressed
      exact ⟨innermost, outer, shape, index, stacked, known, waits, (Option.some.inj observed).symm⟩
    · cases observed

/-- Nothing is settled, or the innermost evaluation is. -/
theorem settle_cases (program : List Shape) (probes : Probes Call State Label)
    (run : Run State Label) :
    settle program probes run = run ∨
      ∃ innermost outer shape outcome unused, run.stack = innermost :: outer ∧
        program[innermost.decision]? = some shape ∧
        shape.next innermost.seen = .done outcome unused ∧
        settle program probes run = {
          stack := outer
          completed := run.completed ++
            [(probes.label run.state, ⟨innermost.decision, innermost.seen, outcome⟩)]
          state := probes.outcome innermost.decision outcome run.state } := by
  unfold settle
  split
  · exact Or.inl rfl
  · rename_i innermost outer stacked
    split
    · rename_i outcome unused progressed
      obtain ⟨shape, known, finished⟩ := progress_eq_some.mp progressed
      exact Or.inr ⟨innermost, outer, shape, outcome, unused, stacked, known, finished, rfl⟩
    · exact Or.inl rfl

def OnPaths (program : List Shape) (stack : List Activation) : Prop :=
  ∀ activation ∈ stack, ∃ shape, program[activation.decision]? = some shape ∧
    shape.Path activation.seen

theorem OnPaths.enter {stack : List Activation} (paths : OnPaths program stack) {decision : Nat}
    (known : decision < program.length) : OnPaths program (⟨decision, []⟩ :: stack) := by
  intro activation member
  rcases List.mem_cons.mp member with new | old
  · rw [new]
    exact ⟨program[decision], List.getElem?_eq_getElem known, .start⟩
  · exact paths activation old

theorem OnPaths.observe {innermost : Activation} {outer : List Activation}
    (paths : OnPaths program (innermost :: outer)) {shape : Shape} {index : Nat} {value : Bool}
    (known : program[innermost.decision]? = some shape)
    (waits : shape.next innermost.seen = .waiting index) :
    OnPaths program
      ({ innermost with seen := innermost.seen ++ [(index, value)] } :: outer) := by
  obtain ⟨⟨shape', known', path⟩, others⟩ := List.forall_mem_cons.mp paths
  rw [known] at known'
  cases known'
  exact List.forall_mem_cons.mpr ⟨⟨shape, known, path.observe value waits⟩, others⟩

theorem OnPaths.drop {stack : List Activation} (paths : OnPaths program stack) (count : Nat) :
    OnPaths program (stack.drop count) :=
  fun activation member => paths activation (List.mem_of_mem_drop member)

/-- Two evaluations that have begun are of different decisions. -/
def Apart (inner outer : Activation) : Prop :=
  inner.decision = outer.decision → inner.seen = [] ∨ outer.seen = []

/-- The rule of invariants: an operand's step is its observation, then what that
settles. -/
theorem Reaches.invariant {allowed : Move Call → Run State Label → Prop} {initial : State}
    {Inv : Run State Label → Prop} (start : Inv (.start initial))
    (enter : ∀ run decision, Inv run → decision < program.length →
      Inv { run with stack := ⟨decision, []⟩ :: run.stack })
    (operand : ∀ run run' value, Inv run → allowed (.operand value) run →
      observe program probes value run = some run' → Inv run')
    (settles : ∀ run, Inv run → Inv (settle program probes run))
    (panic : ∀ run abandoned, Inv run → allowed (.panic abandoned) run →
      Inv { run with stack := run.stack.drop abandoned })
    (call : ∀ run request, Inv run → allowed (.call request) run →
      Inv { run with state := probes.call request run.state })
    (reached : Reaches program probes allowed initial run) : Inv run := by
  induction reached with
  | start => exact start
  | @step before after move _ permitted steps ih =>
    cases move with
    | enter decision =>
      simp only [advance, Option.ite_none_right_eq_some, Option.some.injEq] at steps
      rw [← steps.2]
      exact enter before decision ih steps.1
    | operand value =>
      obtain ⟨middle, observed, settled⟩ := Option.map_eq_some_iff.mp steps
      rw [← settled]
      exact settles middle (operand before middle value ih permitted observed)
    | panic abandoned =>
      simp only [advance, Option.ite_none_right_eq_some, Option.some.injEq] at steps
      rw [← steps.2]
      exact panic before abandoned ih permitted
    | call request =>
      simp only [advance, Option.some.injEq] at steps
      rw [← steps]
      exact call before request ih permitted

def runAllowed (program : List Shape) (probes : Probes Call State Label)
    (allowed : Move Call → Run State Label → Prop) [∀ move run, Decidable (allowed move run)] :
    List (Move Call) → Run State Label → Option (Run State Label)
  | [], run => some run
  | move :: moves, run =>
    if allowed move run then
      (advance program probes move run).bind (runAllowed program probes allowed moves)
    else none

theorem Reaches.runAllowed {allowed : Move Call → Run State Label → Prop}
    [∀ move run, Decidable (allowed move run)] {initial : State} {moves : List (Move Call)}
    (reached : Reaches program probes allowed initial run)
    (made : runAllowed program probes allowed moves run = some run') :
    Reaches program probes allowed initial run' := by
  induction moves generalizing run with
  | nil =>
    cases made
    exact reached
  | cons move moves ih =>
    simp only [ShortCircuit.runAllowed, Option.ite_none_right_eq_some] at made
    obtain ⟨permitted, steps⟩ := made
    obtain ⟨middle, first, rest⟩ := Option.bind_eq_some_iff.mp steps
    exact ih (reached.step permitted first) rest

end Rules

end ShortCircuit
