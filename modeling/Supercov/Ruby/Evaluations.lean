import Mathlib.Data.List.Dedup
import Supercov.Library.Suspended
import Supercov.Ruby.Decisions

/-!
# What the evaluations of Ruby decisions really do

An evaluation sees conditions as the predicate's operators ask for them and comes to its outcome, or
is left before.  It may be in the middle while others of the same decision go on in the same
context, and a change of phase takes it to another context.
-/

namespace Supercov.Ruby.Decisions

open Suspended (Seen)

namespace Predicate

/-- A complete evaluation: the conditions it saw, the alternative of each operator it reached, and
its value.  Conditions are numbered from `first` on, operators from `number` on. -/
inductive Evaluates : Predicate → (first number : Nat) → Seen → List (Nat × Bool) → Bool → Prop where
  | condition {first number not : Nat} (truth : Bool) :
      Evaluates (.condition not) first number [(first, truth)] [] (truth != (not % 2 == 1))
  | stops {op : Operator} {left right : Predicate} {first number not : Nat} {seen : Seen}
      {taken : List (Nat × Bool)} {value : Bool}
      (evaluates : Evaluates left first number seen taken value) (stops : op.stops value = true) :
      Evaluates (.logical op left right not) first number seen
        (taken ++ [(number + (left.logicals 0).length + (right.logicals 0).length, false)])
        (value != (not % 2 == 1))
  | goesOn {op : Operator} {left right : Predicate} {first number not : Nat} {seen more : Seen}
      {taken further : List (Nat × Bool)} {value result : Bool}
      (evaluates : Evaluates left first number seen taken value) (goes_on : op.stops value = false)
      (operand : Evaluates right (first + left.width) (number + (left.logicals 0).length) more further
        result) :
      Evaluates (.logical op left right not) first number (seen ++ more)
        (taken ++ further ++ [(number + (left.logicals 0).length + (right.logicals 0).length, true)])
        (result != (not % 2 == 1))

end Predicate

/-- A context and a decision. -/
abbrev Place := Nat × Nat

/-- A thread evaluates a condition, comes to an evaluation's outcome or leaves it.  The context is
that of the thread at that time. -/
inductive Event where
  | condition (evaluation : Nat) (place : Place) (index : Nat) (truth : Bool)
  | outcome (evaluation : Nat) (place : Place) (value : Bool)
  | leave (evaluation : Nat)

/-- What an evaluation saw in one context. -/
structure Stretch where
  evaluation : Nat
  seen : Seen

/-- An evaluation that came to its outcome: whether a change of phase interrupted it, and whether
there were ever too many of its decision open beside it. -/
structure Completed where
  place : Place
  seen : Seen
  outcome : Bool
  strayed : Bool
  crowded : Bool

/-- What happened so far: of each evaluation what it saw, where it began, whether it is over, was
interrupted by a change of phase, and was one of too many; the stretches that have come to no
outcome, the one that began last first; and the evaluations completed. -/
structure Course where
  seen : Nat → Seen := fun _ => []
  home : Nat → Option Place := fun _ => none
  past : Nat → Bool := fun _ => false
  strayed : Nat → Bool := fun _ => false
  crowded : Nat → Bool := fun _ => false
  stretches : Place → List Stretch := fun _ => []
  completed : List Completed := []

namespace Course

def begins (course : Course) (evaluation : Nat) : Prop := course.seen evaluation = []

instance (course : Course) (evaluation : Nat) : Decidable (course.begins evaluation) :=
  inferInstanceAs (Decidable (_ = _))

def strays (course : Course) (evaluation : Nat) (place : Place) : Bool :=
  course.strayed evaluation || (course.home evaluation).any (· != place)

/-- The stretch on top is the evaluation's own. -/
def innermost (course : Course) (evaluation : Nat) (place : Place) : Prop :=
  (course.stretches place).head?.map (·.evaluation) = some evaluation

instance (course : Course) (evaluation : Nat) (place : Place) :
    Decidable (course.innermost evaluation place) :=
  inferInstanceAs (Decidable (_ = _))

def openAt (course : Course) (place : Place) : List Nat :=
  ((course.stretches place).map (·.evaluation)).filter fun evaluation => !course.past evaluation

/-- A condition's evaluation goes on with its stretch on top, or has a new one there. -/
def reach (course : Course) (evaluation : Nat) (place : Place) (condition : Nat × Bool) : List Stretch :=
  if course.innermost evaluation place then
    (course.stretches place).modifyHead fun top => { top with seen := top.seen ++ [condition] }
  else
    ⟨evaluation, [condition]⟩ :: course.stretches place

def crowd (place : Place) (course : Course) : Course :=
  { course with
    crowded := fun evaluation => course.crowded evaluation ||
      (maxOpenEvaluations < (course.openAt place).dedup.length && evaluation ∈ course.openAt place) }

def after (course : Course) : Event → Course
  | .condition evaluation place index truth =>
    crowd place { course with
      seen := Function.update course.seen evaluation (course.seen evaluation ++ [(index, truth)])
      home := if course.begins evaluation then
        Function.update course.home evaluation (some place) else course.home
      strayed := Function.update course.strayed evaluation (course.strays evaluation place)
      stretches := Function.update course.stretches place
        (course.reach evaluation place (index, truth)) }
  | .outcome evaluation place value =>
    { course with
      past := Function.update course.past evaluation true
      stretches := if course.innermost evaluation place then
        Function.update course.stretches place (course.stretches place).tail else course.stretches
      completed := course.completed ++ [{
        place, seen := course.seen evaluation, outcome := value
        strayed := course.strays evaluation place
        crowded := course.crowded evaluation }] }
  | .leave evaluation => { course with past := Function.update course.past evaluation true }

/-- Nothing disturbs the evaluation a probe belongs to.  Where it goes on, its own stretch is on top;
only one that a change of phase interrupted may have none, and it then has a new one for itself, or
comes to its outcome where there is none at all. -/
def Undisturbed (course : Course) : Event → Prop
  | .condition evaluation place index _ =>
    course.begins evaluation ∨ course.innermost evaluation place ∨
      (course.strays evaluation place = true ∧ ∀ top ∈ (course.stretches place).head?,
        ∀ condition ∈ top.seen.getLast?, index ≤ condition.1)
  | .outcome evaluation place _ =>
    course.innermost evaluation place ∨
      (course.strays evaluation place = true ∧ course.stretches place = [])
  | .leave _ => True

/-- The stretches of open evaluations are too many only where these evaluations are. -/
def Counted (course : Course) (place : Place) : Prop :=
  maxOpenEvaluations < (course.openAt place).length →
    maxOpenEvaluations < (course.openAt place).dedup.length

end Course

abbrev Program := List Predicate

/-- The runtime, and what the evaluations really did. -/
structure Moment where
  runtime : Runtime := {}
  course : Course := {}

section Runs

variable (program : Program)

def Runtime.after (runtime : Runtime) : Event → Runtime
  | .condition _ (context, key) index truth =>
    match program[key]? with
    | none => runtime
    | some predicate =>
      -- A lone condition has no probe.
      if predicate.width = 1 then runtime
      else runtime.probeCondition predicate.probeDecision context key index truth
  | .outcome _ (context, key) value =>
    match program[key]? with
    | none => runtime
    | some predicate => runtime.probeDecision predicate.probeDecision context key value
  | .leave _ => runtime

def Moment.after (moment : Moment) (event : Event) : Moment where
  runtime := moment.runtime.after program event
  course := moment.course.after event

/-- What an evaluation can do: its conditions come from the first on in order, its outcome is what
they make it, it stays with its decision, and nothing happens once it is over. -/
def Fits (course : Course) : Event → Prop
  | .condition evaluation place index _ =>
    course.past evaluation = false ∧ (course.begins evaluation → index = 0) ∧
      (∀ earlier ∈ course.seen evaluation, earlier.1 < index) ∧
      (∀ home ∈ course.home evaluation, home.2 = place.2) ∧
      ∃ predicate ∈ program[place.2]?, index < predicate.width
  | .outcome evaluation place value =>
    course.past evaluation = false ∧ (∀ home ∈ course.home evaluation, home.2 = place.2) ∧
      ∃ predicate ∈ program[place.2]?, ∃ taken,
        predicate.Evaluates 0 0 (course.seen evaluation) taken value
  | .leave _ => True

/-- The vector of an evaluation: its conditions as written. -/
def vectorOf (evaluation : Completed) : DecisionVector where
  context := evaluation.place.1
  decision := evaluation.place.2
  digits := match program[evaluation.place.2]? with
    | none => []
    | some predicate => predicate.leaves.mapIdx fun index not =>
      digit ((evaluation.seen.lookup index).map (· != (not % 2 == 1)))
  outcome := evaluation.outcome

/-- An evaluation's vector, its outcome and each of its operators' alternatives are recorded. -/
structure Proves (runtime : Runtime) (evaluation : Completed) : Prop where
  vector : vectorOf program evaluation ∈ runtime.vectors
  outcome : (evaluation.place.1, evaluation.place.2, .outcome evaluation.outcome) ∈ runtime.hits
  alternatives : ∀ predicate ∈ program[evaluation.place.2]?, ∀ taken,
    predicate.Evaluates 0 0 evaluation.seen taken evaluation.outcome →
      ∀ alternative ∈ taken, (evaluation.place.1, evaluation.place.2,
        .logical alternative.1 alternative.2) ∈ runtime.hits

structure Exact (moment : Moment) : Prop where
  happened : ∀ vector ∈ moment.runtime.vectors,
    ∃ evaluation ∈ moment.course.completed, vectorOf program evaluation = vector
  recorded : ∀ evaluation ∈ moment.course.completed, evaluation.strayed = false →
    evaluation.crowded = false → Proves program moment.runtime evaluation
  consistent : ∀ decision ∈ moment.runtime.inconsistent, ∃ evaluation ∈ moment.course.completed,
    evaluation.place.2 = decision ∧ (evaluation.strayed = true ∨ evaluation.crowded = true)

/-- The condition of a probe of several conditions. -/
def Undisturbed (moment : Moment) : Event → Prop
  | event@(.condition _ place _ _) =>
    (∃ predicate ∈ program[place.2]?, predicate.width = 1) ∨
      (moment.course.Undisturbed event ∧ (moment.course.after event).Counted place)
  | event@(.outcome _ place _) =>
    (∃ predicate ∈ program[place.2]?, predicate.width = 1) ∨ moment.course.Undisturbed event
  | .leave _ => True

end Runs

end Supercov.Ruby.Decisions
