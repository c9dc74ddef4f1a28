import Mathlib.Data.List.Basic
import Mathlib.Tactic.Common

/-!
# Completions

A statement completes normally, by a jump, by returning, by an exception, or not at all: it may be
cut off, and then nothing runs any more.  What a statement does is told by its behaviour, the states
it leads from and to with the completion and the events between, and the behaviours of compound
statements are made from those of their parts.  A simulation of the parts is one of the whole.
-/

namespace Completions

inductive Completion (Label Value : Type) where
  | normal
  | broken (label : Option Label)
  | continued (label : Option Label)
  | returned (value : Value)
  | threw (value : Value)
  | cut

namespace Completion

variable {Label Value : Type}

/-- A loop goes on behind its body: the jump is to this loop. -/
def Continues (labels : List Label) : Completion Label Value → Prop
  | normal | continued none => True
  | continued (some label) => label ∈ labels
  | _ => False

/-- A jump out of the innermost loop ends there. -/
def unbroken : Completion Label Value → Completion Label Value
  | broken none => normal
  | completion => completion

end Completion

abbrev Behaviour (Label Value State Event : Type) :=
  State → Completion Label Value → State → List Event → Prop

section Behaviours

variable {Label Value State Event : Type}

def Skip : Behaviour Label Value State Event := fun state completion after events =>
  completion = .normal ∧ after = state ∧ events = []

inductive Seq (first second : Behaviour Label Value State Event) :
    Behaviour Label Value State Event where
  | next {state between after : State} {completion : Completion Label Value}
      {events more : List Event} (one : first state .normal between events)
      (two : second between completion after more) :
      Seq first second state completion after (events ++ more)
  | stop {state after : State} {completion : Completion Label Value} {events : List Event}
      (one : first state completion after events) (abrupt : completion ≠ .normal) :
      Seq first second state completion after events

inductive Finally (body last : Behaviour Label Value State Event) :
    Behaviour Label Value State Event where
  | cut {state after : State} {events : List Event} (one : body state .cut after events) :
      Finally body last state .cut after events
  | normal {state between after : State} {completion : Completion Label Value}
      {events more : List Event} (one : body state completion between events)
      (goes : completion ≠ .cut) (two : last between .normal after more) :
      Finally body last state completion after (events ++ more)
  | abrupt {state between after : State} {completion other : Completion Label Value}
      {events more : List Event} (one : body state completion between events)
      (goes : completion ≠ .cut) (two : last between other after more) (abrupt : other ≠ .normal) :
      Finally body last state other after (events ++ more)

inductive Labelled (label : Label) (body : Behaviour Label Value State Event) :
    Behaviour Label Value State Event where
  | broken {state after : State} {events : List Event}
      (one : body state (.broken (some label)) after events) :
      Labelled label body state .normal after events
  | through {state after : State} {completion : Completion Label Value} {events : List Event}
      (one : body state completion after events) (passes : completion ≠ .broken (some label)) :
      Labelled label body state completion after events

/-- What is done next. -/
inductive Decision (Label Value : Type) where
  | part (index : Nat)
  | finish (completion : Completion Label Value)

/-- A statement that runs its parts as it decides, told how the last of them completed. -/
inductive Compound (decides : Completion Label Value → State → Decision Label Value → State → Prop)
    (parts : Nat → Behaviour Label Value State Event) :
    Completion Label Value → Behaviour Label Value State Event where
  | finish {last completion : Completion Label Value} {state after : State}
      (decided : decides last state (.finish completion) after) :
      Compound decides parts last state completion after []
  | cut {last : Completion Label Value} {index : Nat} {state between after : State}
      {events : List Event} (decided : decides last state (.part index) between)
      (one : parts index between .cut after events) :
      Compound decides parts last state .cut after events
  | next {last completion other : Completion Label Value} {index : Nat}
      {state between later after : State} {events more : List Event}
      (decided : decides last state (.part index) between)
      (one : parts index between completion later events) (goes : completion ≠ .cut)
      (rest : Compound decides parts completion later other after more) :
      Compound decides parts last state other after (events ++ more)

theorem seq_skip (body : Behaviour Label Value State Event) : Seq body Skip = body := by
  funext state completion after events
  apply propext
  constructor
  · intro runs
    cases runs with
    | next one two =>
      obtain ⟨rfl, rfl, rfl⟩ := two
      rw [List.append_nil]
      exact one
    | stop one _ => exact one
  · intro runs
    by_cases normal : completion = .normal
    · subst normal
      rw [← List.append_nil events]
      exact .next runs ⟨rfl, rfl, rfl⟩
    · exact .stop runs normal

theorem finally_skip (body : Behaviour Label Value State Event) : Finally body Skip = body := by
  funext state completion after events
  apply propext
  constructor
  · intro runs
    cases runs with
    | cut one => exact one
    | normal one _ two =>
      obtain ⟨_, rfl, rfl⟩ := two
      rw [List.append_nil]
      exact one
    | abrupt _ _ two abrupt => exact absurd two.1 abrupt
  · intro runs
    by_cases goes : completion = .cut
    · subst goes
      exact .cut runs
    · rw [← List.append_nil events]
      exact .normal runs goes ⟨rfl, rfl, rfl⟩

end Behaviours

section Simulations

variable {Label Value State State' Event Event' : Type}

/-- How a target is read as a source: its states, those of its events that the source has as well,
and what is to hold of every run of it. -/
structure Reading (State State' Event Event' : Type) where
  state : State' → State
  seen : Event' → Option Event
  Good : State' → List Event' → State' → Prop
  refl (state' : State') : Good state' [] state'
  trans {first second third : State'} {events more : List Event'} :
    Good first events second → Good second more third → Good first (events ++ more) third

/-- The target's runs are the source's, and good. -/
structure Simulates (reading : Reading State State' Event Event')
    (source : Behaviour Label Value State Event) (target : Behaviour Label Value State' Event') :
    Prop where
  sound {state after : State'} {completion : Completion Label Value} {events : List Event'} :
    target state completion after events →
      source (reading.state state) completion (reading.state after)
        (events.filterMap reading.seen) ∧ reading.Good state events after
  complete (state : State') {after : State} {completion : Completion Label Value}
    {events : List Event} : source (reading.state state) completion after events →
      ∃ after' events', target state completion after' events' ∧ reading.state after' = after ∧
        events'.filterMap reading.seen = events

variable {reading : Reading State State' Event Event'}
  {source source' : Behaviour Label Value State Event}
  {target target' : Behaviour Label Value State' Event'}

theorem Simulates.skip : Simulates reading (Skip : Behaviour Label Value State Event) Skip where
  sound := by
    rintro _ state _ _ ⟨rfl, rfl, rfl⟩
    exact ⟨⟨rfl, rfl, rfl⟩, reading.refl state⟩
  complete := by
    rintro state _ _ _ ⟨rfl, rfl, rfl⟩
    exact ⟨state, [], ⟨rfl, rfl, rfl⟩, rfl, rfl⟩

theorem Simulates.seq (first : Simulates reading source target)
    (second : Simulates reading source' target') :
    Simulates reading (Seq source source') (Seq target target') where
  sound := by
    intro state after completion events runs
    cases runs with
    | next one two =>
      obtain ⟨one, good⟩ := first.sound one
      obtain ⟨two, later⟩ := second.sound two
      rw [List.filterMap_append]
      exact ⟨.next one two, reading.trans good later⟩
    | stop one abrupt =>
      obtain ⟨one, good⟩ := first.sound one
      exact ⟨.stop one abrupt, good⟩
  complete := by
    intro state after completion events runs
    cases runs with
    | next one two =>
      obtain ⟨between, begun, did, rfl, rfl⟩ := first.complete _ one
      obtain ⟨last, more, ended, rfl, rfl⟩ := second.complete _ two
      exact ⟨last, begun ++ more, .next did ended, rfl, List.filterMap_append ..⟩
    | stop one abrupt =>
      obtain ⟨last, begun, did, rfl, rfl⟩ := first.complete _ one
      exact ⟨last, begun, .stop did abrupt, rfl, rfl⟩

theorem Simulates.finally (body : Simulates reading source target)
    (last : Simulates reading source' target') :
    Simulates reading (Finally source source') (Finally target target') where
  sound := by
    intro state after completion events runs
    cases runs with
    | cut one =>
      obtain ⟨one, good⟩ := body.sound one
      exact ⟨.cut one, good⟩
    | normal one goes two =>
      obtain ⟨one, good⟩ := body.sound one
      obtain ⟨two, later⟩ := last.sound two
      rw [List.filterMap_append]
      exact ⟨.normal one goes two, reading.trans good later⟩
    | abrupt one goes two abrupt =>
      obtain ⟨one, good⟩ := body.sound one
      obtain ⟨two, later⟩ := last.sound two
      rw [List.filterMap_append]
      exact ⟨.abrupt one goes two abrupt, reading.trans good later⟩
  complete := by
    intro state after completion events runs
    cases runs with
    | cut one =>
      obtain ⟨end_, begun, did, rfl, rfl⟩ := body.complete _ one
      exact ⟨end_, begun, .cut did, rfl, rfl⟩
    | normal one goes two =>
      obtain ⟨between, begun, did, rfl, rfl⟩ := body.complete _ one
      obtain ⟨end_, more, ended, rfl, rfl⟩ := last.complete _ two
      exact ⟨end_, begun ++ more, .normal did goes ended, rfl, List.filterMap_append ..⟩
    | abrupt one goes two abrupt =>
      obtain ⟨between, begun, did, rfl, rfl⟩ := body.complete _ one
      obtain ⟨end_, more, ended, rfl, rfl⟩ := last.complete _ two
      exact ⟨end_, begun ++ more, .abrupt did goes ended abrupt, rfl, List.filterMap_append ..⟩

theorem Simulates.labelled (label : Label) (body : Simulates reading source target) :
    Simulates reading (Labelled label source) (Labelled label target) where
  sound := by
    intro state after completion events runs
    cases runs with
    | broken one =>
      obtain ⟨one, good⟩ := body.sound one
      exact ⟨.broken one, good⟩
    | through one passes =>
      obtain ⟨one, good⟩ := body.sound one
      exact ⟨.through one passes, good⟩
  complete := by
    intro state after completion events runs
    cases runs with
    | broken one =>
      obtain ⟨end_, begun, did, rfl, rfl⟩ := body.complete _ one
      exact ⟨end_, begun, .broken did, rfl, rfl⟩
    | through one passes =>
      obtain ⟨end_, begun, did, rfl, rfl⟩ := body.complete _ one
      exact ⟨end_, begun, .through did passes, rfl, rfl⟩

/-- What a statement decides it decides in both, and it changes nothing else of the target. -/
theorem Simulates.compound
    {decides : Completion Label Value → State → Decision Label Value → State → Prop}
    {decides' : Completion Label Value → State' → Decision Label Value → State' → Prop}
    {parts : Nat → Behaviour Label Value State Event}
    {parts' : Nat → Behaviour Label Value State' Event'}
    (keeps : ∀ {last state decision after}, decides' last state decision after →
      decides last (reading.state state) decision (reading.state after) ∧
        reading.Good state [] after)
    (follows : ∀ {last state decision after}, decides last (reading.state state) decision after →
      ∃ after', decides' last state decision after' ∧ reading.state after' = after)
    (each : ∀ index, Simulates reading (parts index) (parts' index))
    (last : Completion Label Value) :
    Simulates reading (Compound decides parts last) (Compound decides' parts' last) where
  sound := by
    intro state after completion events runs
    induction runs with
    | finish decided =>
      obtain ⟨decided, good⟩ := keeps decided
      exact ⟨.finish decided, good⟩
    | cut decided one =>
      obtain ⟨decided, good⟩ := keeps decided
      obtain ⟨one, later⟩ := (each _).sound one
      exact ⟨.cut decided one, reading.trans good later⟩
    | next decided one goes _ ih =>
      obtain ⟨decided, good⟩ := keeps decided
      obtain ⟨one, later⟩ := (each _).sound one
      rw [List.filterMap_append]
      exact ⟨.next decided one goes ih.1, reading.trans (reading.trans good later) ih.2⟩
  complete := by
    intro state after completion events runs
    generalize here : reading.state state = begun at runs
    induction runs generalizing state with
    | finish decided =>
      subst here
      obtain ⟨last, did, rfl⟩ := follows decided
      exact ⟨last, [], .finish did, rfl, rfl⟩
    | cut decided one =>
      subst here
      obtain ⟨between, did, rfl⟩ := follows decided
      obtain ⟨last, more, ran, rfl, rfl⟩ := (each _).complete _ one
      exact ⟨last, more, .cut did ran, rfl, rfl⟩
    | next decided one goes _ ih =>
      subst here
      obtain ⟨between, did, rfl⟩ := follows decided
      obtain ⟨later, more, ran, rfl, rfl⟩ := (each _).complete _ one
      obtain ⟨last, others, ended, rfl, rfl⟩ := ih _ rfl
      exact ⟨last, more ++ others, .next did ran goes ended, rfl, List.filterMap_append ..⟩

end Simulations

end Completions
