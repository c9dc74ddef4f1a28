import Supercov.Library.Runs
import Supercov.Ruby.Loops

/-!
# What the executions of Ruby loops and assignments really do

A phase's record of a loop or an assignment is right where nothing comes between an execution's
beginning and what it does next in that phase.
-/

namespace Supercov.Ruby.Loops

open Runs (Along run)

/-- What happened so far: where each execution began, whether its body or right side ran and whether it
is over; of each construct in each phase whether some execution begun there ended normally and
empty, whether its body or right side ran there, whether its last predicate entered the body, the
execution that began last and was followed by no body, and those begun whose right side did not
start; and the phases that ended. -/
structure Course where
  home : Nat → Option Place := fun _ => none
  ran : Nat → Bool := fun _ => false
  past : Nat → Bool := fun _ => false
  empty : Place → Bool := fun _ => false
  entered : Place → Bool := fun _ => false
  lastEntered : Place → Bool := fun _ => false
  waiting : Place → Bool := fun _ => false
  unanswered : Place → List Nat := fun _ => []
  ended : Nat → Bool := fun _ => false

section Courses

variable (program : Program)

/-- Does a `while` loop's predicate enter its body? -/
def enters (place : Place) (truthy : Bool) : Bool :=
  if program[place.2]? = some (.whileLoop true) then !truthy else truthy

/-- Does a variable's value skip the assignment? -/
def skips (place : Place) (truthy : Bool) : Bool :=
  if program[place.2]? = some (.logical .or) then truthy else !truthy

namespace Course

def finish (execution : Nat) (course : Course) : Course :=
  { course with
    past := Function.update course.past execution true
    empty := fun place => course.empty place ||
      (!course.ran execution && decide (course.home execution = some place)) }

/-- Something happens in a phase. -/
def goesOn (context : Nat) (course : Course) : Course :=
  { course with ended := Function.update course.ended context false }

def after (course : Course) : Event → Course
  | .begins execution place =>
    goesOn place.1 { course with
      home := Function.update course.home execution (some place)
      waiting := Function.update course.waiting place true
      unanswered := Function.update course.unanswered place (execution :: course.unanswered place) }
  | .predicate execution place truthy =>
    if enters program place truthy then
      goesOn place.1 { course with
        ran := Function.update course.ran execution true
        entered := Function.update course.entered place true
        lastEntered := Function.update course.lastEntered place true }
    else
      goesOn place.1 (finish execution { course with
        lastEntered := Function.update course.lastEntered place false })
  | .starts execution place =>
    goesOn place.1 { course with
      ran := Function.update course.ran execution true
      entered := Function.update course.entered place true
      waiting := Function.update course.waiting place false
      unanswered := Function.update course.unanswered place
        ((course.unanswered place).erase execution) }
  | .done execution => finish execution course
  | .leave execution => { course with past := Function.update course.past execution true }
  | .reads place truthy =>
    if skips program place truthy then
      goesOn place.1 { course with empty := Function.update course.empty place true }
    else
      goesOn place.1 { course with entered := Function.update course.entered place true }
  | .ends context =>
    { course with
      waiting := fun place => course.waiting place && decide (place.1 ≠ context)
      ended := Function.update course.ended context true }

/-- What an execution can do. -/
def Fits (course : Course) : Event → Prop
  | .begins execution place => course.home execution = none ∧
      ∃ construct ∈ program[place.2]?, ∀ op, construct ≠ .logical op
  | .predicate execution place _ => course.past execution = false ∧
      (∃ home ∈ course.home execution, home.2 = place.2) ∧
      ∃ until_, program[place.2]? = some (.whileLoop until_)
  | .starts execution place => course.past execution = false ∧
      (∃ home ∈ course.home execution, home.2 = place.2) ∧
      (program[place.2]? = some .forLoop ∨
        (program[place.2]? = some .arrival ∧ course.ran execution = false))
  | .done execution => course.past execution = false ∧
      ∃ home ∈ course.home execution,
        program[home.2]? = some .forLoop ∨ program[home.2]? = some .arrival
  | .leave _ => True
  | .reads place _ => ∃ op, program[place.2]? = some (.logical op)
  | .ends _ => True

end Course

/-- The runtime, and what the executions really did. -/
structure Moment where
  runtime : Runtime := {}
  course : Course := {}

def Moment.after (moment : Moment) (event : Event) : Moment where
  runtime := moment.runtime.after program event
  course := moment.course.after program event

def Fits (moment : Moment) (event : Event) : Prop := moment.course.Fits program event

/-- Where executions of one construct begin or the phase ends, none is in the middle unless an empty
one is to be told of anyway. -/
def Settled (course : Course) (place : Place) : Prop :=
  (program[place.2]? = some .forLoop → course.waiting place = true → course.empty place = true) ∧
    (program[place.2]? = some .arrival → course.unanswered place ≠ [] → course.empty place = true)

/-- No step is one the runtime's state takes for another. -/
def Undisturbed (moment : Moment) : Event → Prop
  | .begins _ place => Settled program moment.course place
  | .predicate execution place truthy =>
    enters program place truthy = false →
      if moment.course.ran execution = true then
        moment.course.lastEntered place = true ∨ moment.course.empty place = true
      else
        (moment.course.home execution = some place ∧
          (moment.course.lastEntered place = false ∨ moment.runtime.hits place .zero = true)) ∨
        ((∃ home ∈ moment.course.home execution, moment.runtime.hits home .zero = true) ∧
          (moment.course.lastEntered place = true ∨ moment.course.empty place = true))
  | .starts execution place =>
    (program[place.2]? = some .forLoop →
      (moment.course.empty place = true → moment.runtime.hits place .zero = true) ∧
        (moment.course.waiting place = true ∨ moment.runtime.hits place .entered = true)) ∧
    (program[place.2]? = some .arrival →
      execution ∈ moment.course.unanswered place ∨ moment.runtime.hits place .shortCircuit = true)
  | .done execution => moment.course.ran execution = false →
      ∀ home ∈ moment.course.home execution, program[home.2]? = some .forLoop →
        moment.course.waiting home = true ∨ moment.runtime.hits home .zero = true
  | .leave _ => True
  | .reads _ _ => True
  | .ends context => ∀ place, place.1 = context → Settled program moment.course place

/-- The alternatives of a construct that say an execution was empty, and that it was not. -/
def Construct.skipped : Construct → Alternative
  | .whileLoop _ => .zero
  | .forLoop => .zero
  | .arrival => .shortCircuit
  | .logical _ => .shortCircuit

def Construct.taken : Construct → Alternative
  | .whileLoop _ => .entered
  | .forLoop => .entered
  | .arrival => .evaluated
  | .logical _ => .evaluated

/-- A phase records of a construct what happened in it, all of it when the phase has ended. -/
structure Records (moment : Moment) (place : Place) (construct : Construct) : Prop where
  skipped : moment.runtime.hits place construct.skipped = true → moment.course.empty place = true
  taken : moment.runtime.hits place construct.taken = true ↔ moment.course.entered place = true
  told : moment.course.ended place.1 = true → moment.course.empty place = true →
    moment.runtime.hits place construct.skipped = true

def Exact (moment : Moment) : Prop :=
  ∀ place, ∀ construct ∈ program[place.2]?, Records moment place construct

end Courses

section Kept

/-- An execution begun at a place ended there with nothing of it run. -/
structure Course.EndedEmpty (course : Course) (execution : Nat) (place : Place) : Prop where
  home : course.home execution = some place
  ran : course.ran execution = false
  past : course.past execution = true

/-- What each kind of construct keeps at a place. -/
structure WhileKept (moment : Moment) (place : Place) : Prop where
  pending : moment.runtime.pendingLoops place = false
  state : moment.runtime.loopState place = some (.expecting !moment.course.lastEntered place) ∨
    (moment.runtime.loopState place = none ∧ moment.course.lastEntered place = false)
  skipped : moment.runtime.hits place .zero = true ↔ moment.course.empty place = true
  taken : moment.runtime.hits place .entered = true ↔ moment.course.entered place = true
  last : moment.course.lastEntered place = true → moment.course.entered place = true

structure ForKept (moment : Moment) (place : Place) : Prop where
  pending : moment.runtime.pendingLoops place = moment.course.waiting place
  state : moment.runtime.loopState place = some .pending ↔ moment.course.waiting place = true
  reached : moment.runtime.loopState place = some .entered → moment.course.entered place = true
  skipped : moment.runtime.hits place .zero = true → moment.course.empty place = true
  taken : moment.runtime.hits place .entered = true ↔ moment.course.entered place = true
  untold : moment.course.empty place = true →
    moment.runtime.hits place .zero = true ∨ moment.course.waiting place = true
  ended : moment.course.ended place.1 = true → moment.course.waiting place = false

structure ArrivalKept (moment : Moment) (place : Place) : Prop where
  count : moment.runtime.hits place .shortCircuit = true ∨
    (moment.runtime.arrivals place).1 =
      (moment.runtime.arrivals place).2 + (moment.course.unanswered place).length
  skipped : moment.runtime.hits place .shortCircuit = true → moment.course.empty place = true
  taken : moment.runtime.hits place .evaluated = true ↔ moment.course.entered place = true
  untold : moment.course.empty place = true → moment.runtime.hits place .shortCircuit = true ∨
    ∃ execution, moment.course.EndedEmpty execution place
  listed : ∀ execution, moment.course.home execution = some place →
    moment.course.ran execution = false → execution ∈ moment.course.unanswered place
  ended : moment.course.ended place.1 = true → moment.course.unanswered place ≠ [] →
    moment.runtime.hits place .shortCircuit = true

structure LogicalKept (moment : Moment) (place : Place) : Prop where
  settled : moment.runtime.unsettled place = false
  skipped : moment.runtime.hits place .shortCircuit = true ↔ moment.course.empty place = true
  taken : moment.runtime.hits place .evaluated = true ↔ moment.course.entered place = true

def Kept (moment : Moment) (place : Place) : Construct → Prop
  | .whileLoop _ => WhileKept moment place
  | .forLoop => ForKept moment place
  | .arrival => ArrivalKept moment place
  | .logical _ => LogicalKept moment place

/-- What every step keeps. -/
def Holds (program : Program) (moment : Moment) : Prop :=
  ∀ place, ∀ construct ∈ program[place.2]?, Kept moment place construct

/-- Nothing is recorded of a place. -/
structure Runtime.Same (before later : Runtime) (place : Place) : Prop where
  loopState : later.loopState place = before.loopState place
  pendingLoops : later.pendingLoops place = before.pendingLoops place
  arrivals : later.arrivals place = before.arrivals place
  hits : later.hits place = before.hits place

/-- Nothing happens at a place. -/
structure Course.Same (before later : Course) (place : Place) : Prop where
  empty : later.empty place = before.empty place
  entered : later.entered place = before.entered place
  lastEntered : later.lastEntered place = before.lastEntered place
  waiting : later.waiting place = before.waiting place
  unanswered : later.unanswered place = before.unanswered place
  listed : ∀ execution, later.home execution = some place → later.ran execution = false →
    before.home execution = some place ∧ before.ran execution = false
  endedEmpty : ∀ execution, before.EndedEmpty execution place → later.EndedEmpty execution place
  ended : later.ended place.1 = true → before.ended place.1 = true

theorem Kept.same {before : Moment} {place : Place} {construct : Construct}
    (kept : Kept before place construct) (later : Moment)
    (recorded : before.runtime.Same later.runtime place)
    (same : before.course.Same later.course place) : Kept later place construct := by
  cases construct with
  | whileLoop until_ =>
    refine ⟨?_, ?_, ?_, ?_, ?_⟩
    · rw [recorded.pendingLoops]
      exact kept.pending
    · rw [recorded.loopState, same.lastEntered]
      exact kept.state
    · rw [recorded.hits, same.empty]
      exact kept.skipped
    · rw [recorded.hits, same.entered]
      exact kept.taken
    · rw [same.lastEntered, same.entered]
      exact kept.last
  | forLoop =>
    refine ⟨?_, ?_, ?_, ?_, ?_, ?_, fun ended => ?_⟩
    · rw [recorded.pendingLoops, same.waiting]
      exact kept.pending
    · rw [recorded.loopState, same.waiting]
      exact kept.state
    · rw [recorded.loopState, same.entered]
      exact kept.reached
    · rw [recorded.hits, same.empty]
      exact kept.skipped
    · rw [recorded.hits, same.entered]
      exact kept.taken
    · rw [same.empty, recorded.hits, same.waiting]
      exact kept.untold
    · rw [same.waiting]
      exact kept.ended (same.ended ended)
  | arrival =>
    refine ⟨?_, ?_, ?_, ?_, fun execution home ran => ?_, fun ended => ?_⟩
    · rw [recorded.hits, recorded.arrivals, same.unanswered]
      exact kept.count
    · rw [recorded.hits, same.empty]
      exact kept.skipped
    · rw [recorded.hits, same.entered]
      exact kept.taken
    · rw [same.empty, recorded.hits]
      exact fun empty => (kept.untold empty).imp_right fun ⟨one, ended⟩ => ⟨one, same.endedEmpty one ended⟩
    · obtain ⟨home, ran⟩ := same.listed execution home ran
      rw [same.unanswered]
      exact kept.listed execution home ran
    · rw [same.unanswered, recorded.hits]
      exact kept.ended (same.ended ended)
  | logical op =>
    refine ⟨?_, ?_, ?_⟩
    · rw [Runtime.unsettled, recorded.arrivals]
      exact kept.settled
    · rw [recorded.hits, same.empty]
      exact kept.skipped
    · rw [recorded.hits, same.entered]
      exact kept.taken

end Kept

section Steps

variable {program : Program} {moment : Moment} {execution : Nat} {place : Place}

theorem Holds.first : Holds program {} := by
  intro place construct _
  cases construct with
  | whileLoop until_ => exact ⟨rfl, .inr ⟨rfl, rfl⟩, by simp, by simp, by simp⟩
  | forLoop => exact ⟨rfl, by simp, by simp, by simp, by simp, by simp, by simp⟩
  | arrival => exact ⟨.inr rfl, by simp, by simp, by simp, by simp, by simp⟩
  | logical op => exact ⟨rfl, by simp, by simp⟩

theorem Runtime.same_begins (runtime : Runtime) (execution : Nat) {other : Place} (apart : other ≠ place) :
    runtime.Same (runtime.after program (.begins execution place)) other := by
  simp only [Runtime.after]
  split <;> constructor <;>
    simp [Runtime.probeFor, Runtime.probeArrival, Runtime.setLoopState, apart, funext_iff]

theorem Runtime.same_predicate (runtime : Runtime) (execution : Nat) {other : Place} (apart : other ≠ place)
    (truthy : Bool) : runtime.Same (runtime.after program (.predicate execution place truthy)) other := by
  simp only [Runtime.after, Runtime.probeWhile]
  split
  · split <;> split <;> constructor <;> simp [Runtime.setLoopState, apart, funext_iff]
  · exact ⟨rfl, rfl, rfl, rfl⟩

theorem Runtime.same_starts (runtime : Runtime) (execution : Nat) {other : Place} (apart : other ≠ place) :
    runtime.Same (runtime.after program (.starts execution place)) other := by
  simp only [Runtime.after]
  split <;> constructor <;>
    simp [Runtime.probeForBody, Runtime.probeEvaluationStarted, Runtime.setLoopState, apart, funext_iff]

theorem Runtime.same_reads (runtime : Runtime) {other : Place} (apart : other ≠ place)
    (truthy : Bool) : runtime.Same (runtime.after program (.reads place truthy)) other := by
  simp only [Runtime.after]
  split <;> constructor <;> simp [Runtime.probeLogical, apart, funext_iff]

theorem Course.ended_goesOn {course : Course} {context other : Nat}
    (ended : (course.goesOn context).ended other = true) : course.ended other = true := by
  by_cases here : other = context
  · simp [goesOn, here] at ended
  · simpa [goesOn, here] using ended

theorem ArrivalKept.empty_of_unsettled (kept : ArrivalKept moment place)
    (settled : moment.course.unanswered place ≠ [] → moment.course.empty place = true)
    (unsettled : moment.runtime.unsettled place = true) : moment.course.empty place = true := by
  obtain hit | count := kept.count
  · exact kept.skipped hit
  · refine settled fun none_ => ?_
    simp [Runtime.unsettled, count, none_] at unsettled

theorem Holds.begins (holds : Holds program moment)
    (fits : Fits program moment (.begins execution place))
    (undisturbed : Undisturbed program moment (.begins execution place)) :
    Holds program (moment.after program (.begins execution place)) := by
  obtain ⟨fresh, construct, planned, other_⟩ := fits
  have still {one : Nat} {at_ : Place} (ended : moment.course.EndedEmpty one at_) :
      (moment.course.after program (.begins execution place)).EndedEmpty one at_ := by
    have apart : one ≠ execution := fun same => by simpa [same, fresh] using ended.home
    exact ⟨by simpa [Course.after, Course.goesOn, apart] using ended.home, ended.ran, ended.past⟩
  intro other whose planned'
  by_cases here : other = place
  · subst here
    have kept := holds other whose planned'
    obtain rfl : construct = whose := Option.some.inj (planned.symm.trans planned')
    have planned : program[other.2]? = some construct := planned
    have going : (moment.course.after program (.begins execution other)).ended other.1 = false := by
      simp [Course.after, Course.goesOn]
    cases construct with
    | whileLoop until_ =>
      have same : moment.runtime.after program (.begins execution other) = moment.runtime := by
        simp [Runtime.after, planned]
      refine ⟨?_, ?_, ?_, ?_, kept.last⟩
      · rw [Moment.after, same]
        exact kept.pending
      · rw [Moment.after, same]
        exact kept.state
      · rw [Moment.after, same]
        exact kept.skipped
      · rw [Moment.after, same]
        exact kept.taken
    | forLoop =>
      have probe : moment.runtime.after program (.begins execution other) =
          moment.runtime.probeFor other := by
        simp [Runtime.after, planned]
      have waits : (moment.course.after program (.begins execution other)).waiting other = true := by
        simp [Course.after, Course.goesOn]
      refine ⟨?_, ?_, ?_, ?_, ?_, fun _ => .inr waits, fun ended => ?_⟩
      · simp [Moment.after, probe, waits, Runtime.probeFor]
      · simp [Moment.after, probe, waits, Runtime.probeFor, Runtime.setLoopState]
      · simp [Moment.after, probe, Runtime.probeFor, Runtime.setLoopState]
      · rw [Moment.after, probe]
        intro hit
        obtain hit | pending : moment.runtime.hits other .zero = true ∨
            moment.runtime.loopState other = some .pending := by
          simpa [Runtime.probeFor, Runtime.setLoopState] using hit
        · exact kept.skipped hit
        · exact undisturbed.1 planned (kept.state.mp pending)
      · rw [Moment.after, probe]
        simpa [Runtime.probeFor, Runtime.setLoopState, Course.after, Course.goesOn] using kept.taken
      · exact absurd (going.symm.trans ended) Bool.false_ne_true
    | arrival =>
      have probe : moment.runtime.after program (.begins execution other) =
          moment.runtime.probeArrival other := by
        simp [Runtime.after, planned]
      have unanswered : (moment.course.after program (.begins execution other)).unanswered other =
          execution :: moment.course.unanswered other := by
        simp [Course.after, Course.goesOn]
      refine ⟨?_, ?_, ?_, fun empty => ?_, fun one home ran => ?_, fun ended => ?_⟩
      · rw [Moment.after, unanswered, probe]
        obtain hit | count := kept.count
        · exact .inl (by simp [Runtime.probeArrival, hit])
        · exact .inr (by simp [Runtime.probeArrival, count, Nat.add_assoc])
      · rw [Moment.after, probe]
        intro hit
        obtain hit | unsettled : moment.runtime.hits other .shortCircuit = true ∨
            moment.runtime.unsettled other = true := by
          simpa [Runtime.probeArrival] using hit
        · exact kept.skipped hit
        · exact kept.empty_of_unsettled (undisturbed.2 planned) unsettled
      · rw [Moment.after, probe]
        simpa [Runtime.probeArrival, Course.after, Course.goesOn] using kept.taken
      · obtain hit | ⟨one, ended⟩ := kept.untold empty
        · exact .inl (by simp [Moment.after, probe, Runtime.probeArrival, hit])
        · exact .inr ⟨one, still ended⟩
      · rw [Moment.after, unanswered]
        by_cases own : one = execution
        · exact own ▸ List.mem_cons_self
        · refine List.mem_cons_of_mem _ (kept.listed one ?_ ran)
          simpa [Moment.after, Course.after, Course.goesOn, own] using home
      · exact absurd (going.symm.trans ended) Bool.false_ne_true
    | logical op => exact absurd rfl (other_ op)
  · refine (holds other whose planned').same _ (moment.runtime.same_begins execution here) ?_
    refine ⟨rfl, rfl, rfl, ?_, ?_, fun one home ran => ?_, fun one => still, Course.ended_goesOn⟩
    · simp [Moment.after, Course.after, Course.goesOn, here]
    · simp [Moment.after, Course.after, Course.goesOn, here]
    · have apart : one ≠ execution := fun same => by
        simp [Moment.after, Course.after, Course.goesOn, same, Ne.symm here] at home
      exact ⟨by simpa [Moment.after, Course.after, Course.goesOn, apart] using home, ran⟩

theorem Holds.starts (holds : Holds program moment)
    (fits : Fits program moment (.starts execution place))
    (undisturbed : Undisturbed program moment (.starts execution place)) :
    Holds program (moment.after program (.starts execution place)) := by
  obtain ⟨open_, -, kind⟩ := fits
  have still {one : Nat} {at_ : Place} (ended : moment.course.EndedEmpty one at_) :
      (moment.course.after program (.starts execution place)).EndedEmpty one at_ := by
    have apart : one ≠ execution := fun same => by simpa [same, open_] using ended.past
    exact ⟨ended.home, by simpa [Course.after, Course.goesOn, apart] using ended.ran, ended.past⟩
  have ran_before {one : Nat} (ran : (moment.course.after program (.starts execution place)).ran one = false) :
      one ≠ execution ∧ moment.course.ran one = false := by
    by_cases own : one = execution
    · simp [Course.after, Course.goesOn, own] at ran
    · exact ⟨own, by simpa [Course.after, Course.goesOn, own] using ran⟩
  intro other whose planned'
  by_cases here : other = place
  · subst here
    have kept := holds other whose planned'
    have planned : program[other.2]? = some whose := planned'
    have going : (moment.course.after program (.starts execution other)).ended other.1 = false := by
      simp [Course.after, Course.goesOn]
    have entered : (moment.course.after program (.starts execution other)).entered other = true := by
      simp [Course.after, Course.goesOn]
    obtain loop | ⟨assignment, -⟩ := kind
    · obtain rfl := Option.some.inj (planned.symm.trans loop)
      have probe : moment.runtime.after program (.starts execution other) =
          moment.runtime.probeForBody other := by
        simp [Runtime.after, planned]
      have waits : (moment.course.after program (.starts execution other)).waiting other = false := by
        simp [Course.after, Course.goesOn]
      obtain ⟨told, reached⟩ := undisturbed.1 planned
      refine ⟨?_, ?_, fun _ => entered, ?_, ?_, fun empty => .inl ?_, fun _ => waits⟩
      · simp [Moment.after, probe, waits, Runtime.probeForBody]
      · simp [Moment.after, probe, waits, Runtime.probeForBody, Runtime.setLoopState]
      · rw [Moment.after, probe]
        simpa [Runtime.probeForBody, Runtime.setLoopState, Course.after, Course.goesOn] using kept.skipped
      · rw [Moment.after, probe, entered]
        obtain waiting | hit := reached
        · simp [Runtime.probeForBody, Runtime.setLoopState, kept.state.mpr waiting]
        · simp [Runtime.probeForBody, Runtime.setLoopState, hit]
      · simp [Moment.after, probe, Runtime.probeForBody, Runtime.setLoopState, told empty]
    · obtain rfl := Option.some.inj (planned.symm.trans assignment)
      have probe : moment.runtime.after program (.starts execution other) =
          moment.runtime.probeEvaluationStarted other := by
        simp [Runtime.after, planned]
      have unanswered : (moment.course.after program (.starts execution other)).unanswered other =
          (moment.course.unanswered other).erase execution := by
        simp [Course.after, Course.goesOn]
      refine ⟨?_, ?_, ?_, fun empty => ?_, fun one home ran => ?_, fun ended => ?_⟩
      · rw [Moment.after, unanswered, probe]
        obtain hit | count := kept.count
        · exact .inl (by simp [Runtime.probeEvaluationStarted, hit])
        · obtain listed | hit := undisturbed.2 planned
          · refine .inr ?_
            have some_ := List.length_pos_of_mem listed
            simp only [Runtime.probeEvaluationStarted, Runtime.arrivals_hit, Function.update_self,
              List.length_erase_of_mem listed]
            omega
          · exact .inl (by simp [Runtime.probeEvaluationStarted, hit])
      · rw [Moment.after, probe]
        simpa [Runtime.probeEvaluationStarted, Course.after, Course.goesOn] using kept.skipped
      · rw [Moment.after, probe, entered]
        simp [Runtime.probeEvaluationStarted]
      · obtain hit | ⟨one, ended⟩ := kept.untold empty
        · exact .inl (by simp [Moment.after, probe, Runtime.probeEvaluationStarted, hit])
        · exact .inr ⟨one, still ended⟩
      · obtain ⟨apart, ran⟩ := ran_before ran
        rw [Moment.after, unanswered]
        exact (List.mem_erase_of_ne apart).mpr (kept.listed one home ran)
      · exact absurd (going.symm.trans ended) Bool.false_ne_true
  · refine (holds other whose planned').same _ (moment.runtime.same_starts execution here) ?_
    refine ⟨rfl, ?_, rfl, ?_, ?_, fun one home ran => ⟨home, (ran_before ran).2⟩, fun one => still,
      Course.ended_goesOn⟩
    · simp [Moment.after, Course.after, Course.goesOn, here]
    · simp [Moment.after, Course.after, Course.goesOn, here]
    · simp [Moment.after, Course.after, Course.goesOn, here]

theorem Holds.done (holds : Holds program moment) (fits : Fits program moment (.done execution))
    (undisturbed : Undisturbed program moment (.done execution)) :
    Holds program (moment.after program (.done execution)) := by
  obtain ⟨open_, home, home_eq, kind⟩ := fits
  have home_eq : moment.course.home execution = some home := home_eq
  have past (one : Nat) (before : moment.course.past one = true) :
      (moment.course.after program (.done execution)).past one = true := by
    by_cases own : one = execution
    · simp [Course.after, Course.finish, own]
    · simpa [Course.after, Course.finish, own] using before
  have still {one : Nat} {at_ : Place} (ended : moment.course.EndedEmpty one at_) :
      (moment.course.after program (.done execution)).EndedEmpty one at_ :=
    ⟨ended.home, ended.ran, past one ended.past⟩
  intro other whose planned
  have kept := holds other whose planned
  by_cases here : other = home
  · subst here
    have empty : (moment.course.after program (.done execution)).empty other =
        (moment.course.empty other || !moment.course.ran execution) := by
      simp [Course.after, Course.finish, home_eq]
    obtain loop | assignment := kind
    · obtain rfl := Option.some.inj (Eq.trans (Eq.symm planned) loop)
      refine ⟨kept.pending, kept.state, kept.reached, fun hit => ?_, kept.taken, fun now => ?_, kept.ended⟩
      · rw [Moment.after, empty, kept.skipped hit, Bool.true_or]
      · rw [Moment.after, empty] at now
        obtain before | none_ := Bool.or_eq_true_iff.mp now
        · exact kept.untold before
        · exact (undisturbed (by simpa using none_) other home_eq loop).symm
    · obtain rfl := Option.some.inj (Eq.trans (Eq.symm planned) assignment)
      refine ⟨kept.count, fun hit => ?_, kept.taken, fun now => ?_, kept.listed, kept.ended⟩
      · rw [Moment.after, empty, kept.skipped hit, Bool.true_or]
      · rw [Moment.after, empty] at now
        obtain before | none_ := Bool.or_eq_true_iff.mp now
        · exact (kept.untold before).imp_right fun ⟨one, ended⟩ => ⟨one, still ended⟩
        · have ran : moment.course.ran execution = false := by simpa using none_
          exact .inr ⟨execution, home_eq, ran, by simp [Moment.after, Course.after, Course.finish]⟩
  · refine kept.same (moment.after program (.done execution)) ⟨rfl, rfl, rfl, rfl⟩ ⟨?_, rfl, rfl, rfl, rfl, fun _ home ran => ⟨home, ran⟩,
      fun _ => still, id⟩
    simp [Moment.after, Course.after, Course.finish, home_eq, Ne.symm here]

theorem Holds.leave (holds : Holds program moment) (execution : Nat) :
    Holds program (moment.after program (.leave execution)) := by
  intro other whose planned
  refine (holds other whose planned).same (moment.after program (.leave execution)) ⟨rfl, rfl, rfl, rfl⟩
    ⟨rfl, rfl, rfl, rfl, rfl,
    fun _ home ran => ⟨home, ran⟩, fun one ended => ⟨ended.home, ended.ran, ?_⟩, id⟩
  by_cases own : one = execution
  · simp [Moment.after, Course.after, own]
  · simpa [Moment.after, Course.after, own] using ended.past

theorem Holds.reads (holds : Holds program moment) {truthy : Bool}
    (fits : Fits program moment (.reads place truthy)) :
    Holds program (moment.after program (.reads place truthy)) := by
  obtain ⟨op, logical⟩ := fits
  intro other whose planned
  have kept := holds other whose planned
  by_cases here : other = place
  · subst here
    obtain rfl := Option.some.inj (Eq.trans (Eq.symm planned) logical)
    have probe : moment.runtime.after program (.reads other truthy) =
        moment.runtime.probeLogical op other truthy := by
      simp [Runtime.after, logical]
    have skips_eq : skips program other truthy = if op = .or then truthy else !truthy := by
      cases op <;> simp [skips, logical]
    refine ⟨?_, ?_, ?_⟩
    · rw [Moment.after, probe]
      exact kept.settled
    · have skipped := kept.skipped
      cases short : skips program other truthy with
      | true => simp [Moment.after, probe, Runtime.probeLogical, ← skips_eq, short, Course.after,
          Course.goesOn]
      | false => simpa [Moment.after, probe, Runtime.probeLogical, ← skips_eq, short, Course.after,
          Course.goesOn] using skipped
    · have taken := kept.taken
      cases short : skips program other truthy with
      | true => simpa [Moment.after, probe, Runtime.probeLogical, ← skips_eq, short, Course.after,
          Course.goesOn] using taken
      | false => simp [Moment.after, probe, Runtime.probeLogical, ← skips_eq, short, Course.after,
          Course.goesOn]
  · refine kept.same _ (moment.runtime.same_reads here truthy) ?_
    simp only [Moment.after, Course.after]
    split
    · exact ⟨by simp [Course.goesOn, here], rfl, rfl, rfl, rfl, fun _ home ran => ⟨home, ran⟩,
        fun _ ended => ⟨ended.home, ended.ran, ended.past⟩, Course.ended_goesOn⟩
    · exact ⟨rfl, by simp [Course.goesOn, here], rfl, rfl, rfl, fun _ home ran => ⟨home, ran⟩,
        fun _ ended => ⟨ended.home, ended.ran, ended.past⟩, Course.ended_goesOn⟩

theorem Holds.ends (holds : Holds program moment) {context : Nat}
    (undisturbed : Undisturbed program moment (.ends context)) :
    Holds program (moment.after program (.ends context)) := by
  intro other whose planned
  have kept := holds other whose planned
  by_cases here : other.1 = context
  · subst here
    obtain ⟨loop, assignment⟩ := undisturbed other rfl
    have planned : program[other.2]? = some whose := planned
    have hits (which : Alternative) :
        (moment.runtime.after program (.ends other.1)).hits other which =
          (moment.runtime.hits other which ||
            (moment.runtime.unsettled other && decide (which = .shortCircuit)) ||
            (moment.runtime.pendingLoops other && decide (which = .zero))) := by
      simp [Runtime.after, Runtime.settle, Runtime.settleLoops, Runtime.settleArrivals]
    have pending : (moment.runtime.after program (.ends other.1)).pendingLoops other = false := by
      simp [Runtime.after, Runtime.settle, Runtime.settleLoops, Runtime.settleArrivals]
    have state : (moment.runtime.after program (.ends other.1)).loopState other =
        if moment.runtime.pendingLoops other then some .settled else moment.runtime.loopState other := by
      simp [Runtime.after, Runtime.settle, Runtime.settleLoops, Runtime.settleArrivals]
    have waiting : (moment.course.after program (.ends other.1)).waiting other = false := by
      simp [Course.after]
    cases whose with
    | whileLoop until_ =>
      refine ⟨pending, ?_, ?_, ?_, kept.last⟩
      · rw [Moment.after, state, kept.pending]
        exact kept.state
      · rw [Moment.after, hits, kept.pending]
        simpa [Course.after] using kept.skipped
      · rw [Moment.after, hits, kept.pending]
        simpa [Course.after] using kept.taken
    | forLoop =>
      refine ⟨?_, ?_, ?_, ?_, ?_, fun empty => ?_, fun _ => waiting⟩
      · rw [Moment.after, pending, waiting]
      · rw [Moment.after, state, waiting, kept.pending]
        have state_waiting := kept.state
        cases now : moment.course.waiting other with
        | true => simp
        | false => simpa [now] using state_waiting
      · rw [Moment.after, state, kept.pending]
        cases now : moment.course.waiting other with
        | true => simp
        | false => simpa [Course.after] using kept.reached
      · rw [Moment.after, hits, kept.pending]
        intro hit
        obtain hit | now : moment.runtime.hits other .zero = true ∨ moment.course.waiting other = true := by
          simpa using hit
        · exact kept.skipped hit
        · exact loop planned now
      · rw [Moment.after, hits, kept.pending]
        simpa [Course.after] using kept.taken
      · rw [Moment.after, hits, kept.pending]
        obtain hit | now := kept.untold empty
        · exact .inl (by simp [hit])
        · exact .inl (by simp [now])
    | arrival =>
      refine ⟨?_, ?_, ?_, fun empty => ?_, kept.listed, fun _ unanswered => ?_⟩
      · rw [Moment.after, hits]
        exact kept.count.imp_left fun hit => by simp [hit]
      · rw [Moment.after, hits]
        intro hit
        obtain hit | unsettled : moment.runtime.hits other .shortCircuit = true ∨
            moment.runtime.unsettled other = true := by
          simpa using hit
        · exact kept.skipped hit
        · exact kept.empty_of_unsettled (assignment planned) unsettled
      · rw [Moment.after, hits]
        simpa [Course.after] using kept.taken
      · rw [Moment.after, hits]
        exact (kept.untold empty).imp (fun hit => by simp [hit])
          (Exists.imp fun one ended => ⟨ended.home, ended.ran, ended.past⟩)
      · rw [Moment.after, hits]
        obtain hit | count := kept.count
        · simp [hit]
        · have some_ : 0 < (moment.course.unanswered other).length := List.length_pos_of_ne_nil unanswered
          have unsettled : moment.runtime.unsettled other = true := by
            simp only [Runtime.unsettled, count, decide_eq_true_eq]
            exact Nat.lt_add_of_pos_right some_
          simp [unsettled]
    | logical op =>
      refine ⟨kept.settled, ?_, ?_⟩
      · rw [Moment.after, hits, kept.settled]
        simpa [Course.after] using kept.skipped
      · rw [Moment.after, hits]
        simpa [Course.after] using kept.taken
  · refine kept.same (moment.after program (.ends context)) ⟨?_, ?_, rfl, ?_⟩ ⟨rfl, rfl, rfl, ?_, rfl, fun _ home ran => ⟨home, ran⟩,
      fun _ ended => ⟨ended.home, ended.ran, ended.past⟩, ?_⟩
    · simp [Moment.after, Runtime.after, Runtime.settle, Runtime.settleLoops, Runtime.settleArrivals, here]
    · simp [Moment.after, Runtime.after, Runtime.settle, Runtime.settleLoops, Runtime.settleArrivals, here]
    · funext which
      simp [Moment.after, Runtime.after, Runtime.settle, Runtime.settleLoops, Runtime.settleArrivals, here]
    · simp [Moment.after, Course.after, here]
    · simp [Moment.after, Course.after, here]

/-- A `while` loop expects a first predicate where its last one did not enter the body. -/
theorem probeWhile_eq (kept : WhileKept moment place) (until_ truthy : Bool) :
    moment.runtime.probeWhile until_ place truthy =
      if (if until_ then !truthy else truthy) then
        (moment.runtime.hitIf (!moment.course.lastEntered place) place .entered).setLoopState place
          (.expecting false)
      else
        (moment.runtime.hitIf (!moment.course.lastEntered place) place .zero).setLoopState place
          (.expecting true) := by
  obtain state | ⟨state, last⟩ := kept.state
  · simp only [Runtime.probeWhile, state]
  · simp only [Runtime.probeWhile, state, last, Bool.not_false]

theorem Holds.predicate (holds : Holds program moment) {truthy : Bool}
    (fits : Fits program moment (.predicate execution place truthy))
    (undisturbed : Undisturbed program moment (.predicate execution place truthy)) :
    Holds program (moment.after program (.predicate execution place truthy)) := by
  obtain ⟨open_, ⟨home, home_eq, same_loop⟩, until_, loop⟩ := fits
  have home_eq : moment.course.home execution = some home := home_eq
  have enters_eq : enters program place truthy = if until_ then !truthy else truthy := by
    cases until_ <;> simp [enters, loop]
  have probe : moment.runtime.after program (.predicate execution place truthy) =
      moment.runtime.probeWhile until_ place truthy := by
    simp [Runtime.after, loop]
  have still {one : Nat} {at_ : Place} (ended : moment.course.EndedEmpty one at_) :
      (moment.course.after program (.predicate execution place truthy)).EndedEmpty one at_ := by
    have apart : one ≠ execution := fun same => by simpa [same, open_] using ended.past
    simp only [Course.after]
    split
    · exact ⟨ended.home, by simpa [Course.goesOn, apart] using ended.ran, ended.past⟩
    · exact ⟨ended.home, ended.ran, by simpa [Course.goesOn, Course.finish, apart] using ended.past⟩
  intro other whose planned
  have kept := holds other whose planned
  by_cases here : other = place
  · subst here
    obtain rfl := Option.some.inj (Eq.trans (Eq.symm planned) loop)
    have kept : WhileKept moment other := kept
    have probe := probe.trans (probeWhile_eq kept until_ truthy)
    rw [← enters_eq] at probe
    cases into : enters program other truthy with
    | true =>
      rw [into, if_pos rfl] at probe
      have entered := kept.taken
      have last := kept.last
      refine ⟨?_, .inl ?_, ?_, ?_, fun _ => ?_⟩
      · simpa [Moment.after, probe, Runtime.setLoopState] using kept.pending
      · simp [Moment.after, probe, Runtime.setLoopState, Course.after, into, Course.goesOn]
      · simpa [Moment.after, probe, Runtime.setLoopState, Course.after, into, Course.goesOn]
          using kept.skipped
      · cases before : moment.course.lastEntered other with
        | true =>
          simp [Moment.after, probe, Runtime.setLoopState, Course.after, into, Course.goesOn,
            entered.mpr (last before)]
        | false =>
          simp [Moment.after, probe, Runtime.setLoopState, Course.after, into, Course.goesOn, before]
      · simp [Moment.after, Course.after, into, Course.goesOn]
    | false =>
      have probe := probe
      rw [into, if_neg Bool.false_ne_true] at probe
      have disturbed := undisturbed into
      refine ⟨?_, .inl ?_, ?_, ?_, fun last => ?_⟩
      · simpa [Moment.after, probe, Runtime.setLoopState] using kept.pending
      · simp [Moment.after, probe, Runtime.setLoopState, Course.after, into, Course.goesOn, Course.finish]
      · have zero : (moment.after program (.predicate execution other truthy)).runtime.hits other .zero =
            (moment.runtime.hits other .zero || !moment.course.lastEntered other) := by
          simp [Moment.after, probe, Runtime.setLoopState]
        have empty : (moment.after program (.predicate execution other truthy)).course.empty other =
            (moment.course.empty other || (!moment.course.ran execution && decide (home = other))) := by
          simp [Moment.after, Course.after, into, Course.goesOn, Course.finish, home_eq]
        have skipped : moment.runtime.hits other .zero = moment.course.empty other :=
          Bool.eq_iff_iff.mpr kept.skipped
        rw [zero, empty, skipped]
        by_cases ran : moment.course.ran execution = true
        · rw [if_pos ran] at disturbed
          rw [ran, Bool.not_true, Bool.false_and, Bool.or_false]
          obtain last | already := disturbed
          · rw [last, Bool.not_true, Bool.or_false]
          · rw [already, Bool.true_or]
        · rw [if_neg ran] at disturbed
          rw [Bool.eq_false_iff.mpr ran, Bool.not_false, Bool.true_and]
          obtain ⟨own, last | hit⟩ | ⟨⟨begun, begun_eq, hit⟩, last | already⟩ := disturbed
          · obtain rfl := Option.some.inj (home_eq.symm.trans own)
            simp [last]
          · rw [← skipped, hit, Bool.true_or, Bool.true_or]
          · obtain rfl := Option.some.inj (home_eq.symm.trans begun_eq)
            rw [last, Bool.not_true, Bool.or_false]
            by_cases own : home = other
            · subst own
              rw [← skipped, hit, Bool.true_or]
            · simp [own]
          · rw [already, Bool.true_or, Bool.true_or]
      · simpa [Moment.after, probe, Runtime.setLoopState, Course.after, into, Course.goesOn,
          Course.finish] using kept.taken
      · simp [Moment.after, Course.after, into, Course.goesOn, Course.finish] at last
  · have recorded : moment.runtime.Same
        (moment.runtime.after program (.predicate execution place truthy)) other :=
      moment.runtime.same_predicate execution here truthy
    have entered : (moment.course.after program (.predicate execution place truthy)).entered other =
        moment.course.entered other := by
      simp only [Course.after]
      split <;> simp [Course.goesOn, Course.finish, here]
    have last : (moment.course.after program (.predicate execution place truthy)).lastEntered other =
        moment.course.lastEntered other := by
      simp only [Course.after]
      split <;> simp [Course.goesOn, Course.finish, here]
    by_cases lone : enters program place truthy = false ∧ moment.course.ran execution = false ∧ home = other
    · -- The execution began in another phase, which has been told of an empty one.
      obtain ⟨into, ran, rfl⟩ := lone
      obtain rfl := Option.some.inj (Eq.trans (Eq.symm planned) (same_loop ▸ loop))
      have kept : WhileKept moment home := kept
      have disturbed := undisturbed into
      rw [if_neg (by simp [ran])] at disturbed
      have hit : moment.runtime.hits home .zero = true := by
        obtain ⟨own, -⟩ | ⟨⟨begun, begun_eq, hit⟩, -⟩ := disturbed
        · exact absurd (Option.some.inj (home_eq.symm.trans own)) here
        · exact Option.some.inj (home_eq.symm.trans begun_eq) ▸ hit
      refine ⟨?_, ?_, ?_, ?_, ?_⟩
      · exact recorded.pendingLoops.trans kept.pending
      · rw [Moment.after, recorded.loopState, last]
        exact kept.state
      · rw [Moment.after, recorded.hits]
        simp [hit, Course.after, into, Course.goesOn, Course.finish, home_eq, ran]
      · rw [Moment.after, recorded.hits, entered]
        exact kept.taken
      · rw [Moment.after, last, entered]
        exact kept.last
    · refine kept.same _ recorded ⟨?_, entered, last, ?_, ?_, fun one home ran => ?_, fun _ => still, ?_⟩
      · simp only [Moment.after, Course.after]
        split
        · rfl
        · rename_i exits
          cases ran : moment.course.ran execution with
          | true => simp [Course.goesOn, Course.finish, ran]
          | false =>
            have apart : home ≠ other := fun same =>
              lone ⟨Bool.eq_false_iff.mpr exits, ran, same⟩
            simp [Course.goesOn, Course.finish, home_eq, apart]
      · simp only [Moment.after, Course.after]
        split <;> rfl
      · simp only [Moment.after, Course.after]
        split <;> rfl
      · simp only [Moment.after, Course.after] at home ran
        split at ran
        · rename_i into
          rw [if_pos into] at home
          by_cases own : one = execution
          · simp [Course.goesOn, own] at ran
          · exact ⟨home, by simpa [Course.goesOn, own] using ran⟩
        · rename_i exits
          rw [if_neg exits] at home
          exact ⟨home, ran⟩
      · simp only [Moment.after, Course.after]
        split
        · exact Course.ended_goesOn
        · exact Course.ended_goesOn

theorem Holds.after (holds : Holds program moment) {event : Event}
    (fits : Fits program moment event) (undisturbed : Undisturbed program moment event) :
    Holds program (moment.after program event) := by
  cases event with
  | begins execution place => exact holds.begins fits undisturbed
  | predicate execution place truthy => exact holds.predicate fits undisturbed
  | starts execution place => exact holds.starts fits undisturbed
  | done execution => exact holds.done fits undisturbed
  | leave execution => exact holds.leave execution
  | reads place truthy => exact holds.reads fits
  | ends context => exact holds.ends undisturbed

theorem Holds.exact (holds : Holds program moment) : Exact program moment := by
  intro place construct planned
  have kept := holds place construct planned
  cases construct with
  | whileLoop until_ => exact ⟨kept.skipped.mp, kept.taken, fun _ => kept.skipped.mpr⟩
  | forLoop =>
    refine ⟨kept.skipped, kept.taken, fun ended empty => (kept.untold empty).resolve_right ?_⟩
    rw [kept.ended ended]
    exact Bool.false_ne_true
  | arrival =>
    refine ⟨kept.skipped, kept.taken, fun ended empty => (kept.untold empty).elim id fun ⟨one, empty⟩ => ?_⟩
    exact kept.ended ended (List.ne_nil_of_mem (kept.listed one empty.home empty.ran))
  | logical op => exact ⟨kept.skipped.mp, kept.taken, fun _ => kept.skipped.mpr⟩

end Steps

/-- In a run that nothing disturbs, a phase records of its loops and assignments what happened. -/
theorem executions_recorded (program : Program) (events : List Event)
    (fits : Along (Moment.after program) (Fits program) {} events)
    (undisturbed : Along (Moment.after program) (Undisturbed program) {} events) :
    Exact program (run (Moment.after program) {} events) :=
  ((fits.and undisturbed).keeps (fun _ _ holds good => holds.after good.1 good.2) Holds.first).exact

/-- A `while`, a `for`, an assignment to an index and one to a variable. -/
def constructs : Program := [.whileLoop false, .forLoop, .arrival, .logical .or]

/-- The `while` runs once, and then not at all; the others are empty; the phase ends. -/
def sequential : List Event :=
  [.begins 0 (0, 0), .predicate 0 (0, 0) true, .predicate 0 (0, 0) false, .begins 1 (0, 0),
    .predicate 1 (0, 0) false, .begins 2 (0, 1), .done 2, .begins 3 (0, 2), .done 3,
    .reads (0, 3) true, .ends 0]

theorem executions_recorded_sequential :
    (Along (Moment.after constructs) (Fits constructs) {} sequential ∧
      Along (Moment.after constructs) (Undisturbed constructs) {} sequential) ∧
      Exact constructs (run (Moment.after constructs) {} sequential) := by
  have fits : Along (Moment.after constructs) (Fits constructs) {} sequential := by
    simp [sequential, constructs, Along, Fits, Course.Fits, Moment.after, Course.after, Course.goesOn,
      Course.finish, enters]
  have undisturbed : Along (Moment.after constructs) (Undisturbed constructs) {} sequential := by
    simp [sequential, constructs, Along, Undisturbed, Settled, Moment.after, Course.after, Course.goesOn,
      Course.finish, enters, skips]
    rintro context construct rfl
    match construct with
    | 0 | 1 | 2 | 3 => simp
    | construct + 4 => simp
  exact ⟨⟨fits, undisturbed⟩, executions_recorded constructs sequential fits undisturbed⟩

/-- The body of the `while` breaks; the loop is reached again, and its body does not run. -/
def broken : List Event :=
  [.begins 0 (0, 0), .predicate 0 (0, 0) true, .leave 0, .begins 1 (0, 0), .predicate 1 (0, 0) false,
    .ends 0]

theorem not_executions_recorded_broken : ¬ ∀ (program : Program) (events : List Event),
    Along (Moment.after program) (Fits program) {} events →
      Exact program (run (Moment.after program) {} events) := by
  intro every
  have fits : Along (Moment.after constructs) (Fits constructs) {} broken := by
    simp [broken, constructs, Along, Fits, Course.Fits, Moment.after, Course.after, Course.goesOn,
      enters]
  have records := every constructs broken fits (0, 0) (.whileLoop false) rfl
  exact absurd (records.told (by decide) (by decide)) (by decide)

end Supercov.Ruby.Loops
