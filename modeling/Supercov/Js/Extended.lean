import Supercov.Library.Completions
import Mathlib.Logic.Function.Basic

/-!
# The outcomes of loops and tries

An enumeration loop's zero iterations, and a try that completes without its catch, are told in a
`finally` from a flag of the construct's own, which its body or its catch sets.  Statements are told
apart from what the model does not look into: other syntax runs its parts as it decides.  Each
activation of a function has flags of its own.
-/

namespace Supercov.Js.Extended

open Completions

abbrev Span := Nat × Nat

abbrev Label := String

abbrev Ending (Value : Type) := Completion Label Value

section Syntax

/-- A loop's head: its right side up to the iterator, what asks the iterator for an item, the
pattern an item is bound to, and what closes the iterator. -/
structure Enumeration (Code : Type) where
  start : Code
  next : Code
  bind : Code
  close : Code

inductive Statement (Code Value Probe : Type) where
  | other (code : Code) (parts : List (Statement Code Value Probe))
  | block (body : List (Statement Code Value Probe))
  | labelled (label : Label) (body : Statement Code Value Probe)
  | enumeration (span : Span) (head : Enumeration Code) (body : Statement Code Value Probe)
  | tryCatch (span : Span) (block : List (Statement Code Value Probe)) (param : Value → Code)
      (handler : List (Statement Code Value Probe))
  | tryCatchFinally (span : Span) (block : List (Statement Code Value Probe))
      (param : Value → Code) (handler finalizer : List (Statement Code Value Probe))
  | tryFinally (block finalizer : List (Statement Code Value Probe))
  | probe (probe : Probe)

/-- `T = 0`, `T || (T = 1, hit)` and `T || hit`. -/
inductive ExtendedProbe where
  | reset (flag : Nat)
  | firstTime (flag index : Nat)
  | otherwise (flag index : Nat)

/-- The first of a construct's two points, where it has them. -/
structure ExtendedTargets where
  tries : Span → Option Nat
  loops : Span → Option Nat

inductive Wrap where
  | «try» (first : Nat)
  | loop (first : Nat)

end Syntax

section Transformer

variable {Code Value Probe : Type}

abbrev Source (Code Value : Type) := Statement Code Value Empty

abbrev Instrumented (Code Value : Type) := Statement Code Value ExtendedProbe

def unlabelled : Statement Code Value Probe → Statement Code Value Probe
  | .labelled _ body => unlabelled body
  | other => other

def isBlock : Statement Code Value Probe → Bool
  | .block _ => true
  | _ => false

def prepend (entry : ExtendedProbe) (isBlock : Bool) :
    Instrumented Code Value → Instrumented Code Value
  | .block body => if isBlock then .block (.probe entry :: body) else .block [.probe entry, .block body]
  | body => .block [.probe entry, body]

variable (targets : ExtendedTargets)

def wrapOf (statement : Statement Code Value Probe) : Option Wrap :=
  match unlabelled statement with
  | .enumeration span .. => (targets.loops span).map .loop
  | .tryCatch span .. | .tryCatchFinally span .. => (targets.tries span).map .try
  | _ => none

/-- What goes around a statement once it is walked; its flag is named before those inside it. -/
def wrapped (wrap : Option Wrap) (names : Nat)
    (walk : Option (Nat × Nat) → Nat → Instrumented Code Value × Nat) :
    Instrumented Code Value × Nat :=
  match wrap with
  | none => walk none names
  | some (.try first) =>
    let (statement, later) := walk (some (names, first)) (names + 1)
    (.block [.probe (.reset names), statement], later)
  | some (.loop first) =>
    let (statement, later) := walk (some (names, first)) (names + 1)
    (.block [.probe (.reset names), .tryFinally [statement] [.probe (.otherwise names first)]], later)

mutual

/-- A statement with what is instrumented in it; under its labels, the construct of the flag and
the first point given. -/
def walk (site : Option (Nat × Nat)) : Source Code Value → Nat → Instrumented Code Value × Nat
  | .other code parts, names =>
    let (parts, names) := walkAll parts names
    (.other code parts, names)
  | .block body, names =>
    let (body, names) := walkAll body names
    (.block body, names)
  | .labelled label body, names =>
    let (body, names) := walk site body names
    (.labelled label body, names)
  | .enumeration span head body, names =>
    let (walked, names) := wrapped (wrapOf targets body) names fun site names => walk site body names
    match site with
    | none => (.enumeration span head walked, names)
    | some (flag, first) =>
      (.enumeration span head (prepend (.firstTime flag (first + 1)) (isBlock body) walked), names)
  | .tryCatch span block param handler, names =>
    let (block, names) := walkAll block names
    let (handler, names) := walkAll handler names
    match site with
    | none => (.tryCatch span block param handler, names)
    | some (flag, first) =>
      (.tryCatchFinally span block param (.probe (.firstTime flag (first + 1)) :: handler)
        [.probe (.otherwise flag first)], names)
  | .tryCatchFinally span block param handler finalizer, names =>
    let (block, names) := walkAll block names
    let (handler, names) := walkAll handler names
    let (finalizer, names) := walkAll finalizer names
    match site with
    | none => (.tryCatchFinally span block param handler finalizer, names)
    | some (flag, first) =>
      (.tryCatchFinally span block param (.probe (.firstTime flag (first + 1)) :: handler)
        (.probe (.otherwise flag first) :: finalizer), names)
  | .tryFinally block finalizer, names =>
    let (block, names) := walkAll block names
    let (finalizer, names) := walkAll finalizer names
    (.tryFinally block finalizer, names)

def walkAll : List (Source Code Value) → Nat → List (Instrumented Code Value) × Nat
  | [], names => ([], names)
  | statement :: statements, names =>
    let (first, names) :=
      wrapped (wrapOf targets statement) names fun site names => walk site statement names
    let (rest, names) := walkAll statements names
    (first :: rest, names)

end

def visitStatement (statement : Source Code Value) (names : Nat) : Instrumented Code Value × Nat :=
  wrapped (wrapOf targets statement) names fun site names => walk targets site statement names

end Transformer

section Runs

/-- How far a loop came. -/
inductive Progress where
  | fresh | begun | entered
  deriving DecidableEq

/-- What happens to a construct: a loop's body is entered for the first time, a loop is left, the
body of a catch is entered, an exception reaches a catch whose pattern it leaves again, or none
reaches it. -/
inductive Event where
  | entered (span : Span)
  | left (span : Span) (progress : Progress) (threw : Bool)
  | caught (span : Span)
  | unbound (span : Span)
  | completed (span : Span)
  deriving DecidableEq

/-- What an expression comes to. -/
inductive Result (Value : Type) where
  | value (value : Value)
  | abrupt (completion : Ending Value)

/-- What code does: expressions, and how other syntax goes on. -/
structure Setting (Code Value Probe State Happening : Type) where
  evaluates : Code → State → Result Value → State → Prop
  decides : Code → Ending Value → State → Decision Label Value → State → Prop
  truthy : Value → Bool
  emit : Event → Happening
  probes : Probe → Behaviour Label Value State Happening

variable {Code Value Probe State Happening : Type}

/-- Closing an iterator does not take the place of an exception. -/
def closing (completion : Ending Value) : Result Value → Ending Value
  | .abrupt .cut => .cut
  | .value _ => completion
  | .abrupt other =>
    match completion with
    | .threw value => .threw value
    | _ => other

/-- A loop that is left says how, where anything is done after it. -/
def ends (span : Span) (progress : Progress) : Ending Value → List Event
  | .cut => []
  | .threw _ => [.left span progress true]
  | _ => [.left span progress false]

/-- A construct that completes says so, where anything is done after it. -/
def completes (event : Event) : Ending Value → List Event
  | .cut => []
  | _ => [event]

def enters (span : Span) (entered : Bool) : List Event := if entered then [] else [.entered span]

def progress (entered begun : Bool) : Progress :=
  if entered then .entered else if begun then .begun else .fresh

variable (setting : Setting Code Value Probe State Happening)

inductive Closes (close : Code) : Ending Value → State → Ending Value → State → Prop where
  | cut (state : State) : Closes close .cut state .cut state
  | close {completion : Ending Value} {result : Result Value} {state after : State}
      (goes : completion ≠ .cut) (closed : setting.evaluates close state result after) :
      Closes close completion state (closing completion result) after

/-- The iterations of a loop from one on, its body entered before or not. -/
inductive Iterates (labels : List Label) (span : Span) (head : Enumeration Code)
    (body : Behaviour Label Value State Happening) :
    Bool → Behaviour Label Value State Happening where
  | nextAbrupt {entered : Bool} {state after : State} {completion : Ending Value}
      (asked : setting.evaluates head.next state (.abrupt completion) after) :
      Iterates labels span head body entered state completion after
        ((ends span (progress entered false) completion).map setting.emit)
  | done {entered : Bool} {state after : State} {value : Value}
      (asked : setting.evaluates head.next state (.value value) after)
      (none : setting.truthy value = false) :
      Iterates labels span head body entered state .normal after
        [setting.emit (.left span (progress entered false) false)]
  | bindAbrupt {entered : Bool} {state between later after : State} {value : Value}
      {completion last : Ending Value}
      (asked : setting.evaluates head.next state (.value value) between)
      (item : setting.truthy value = true)
      (bound : setting.evaluates head.bind between (.abrupt completion) later)
      (closes : Closes setting head.close completion later last after) :
      Iterates labels span head body entered state last after
        ((ends span (progress entered true) last).map setting.emit)
  | stop {entered : Bool} {state between inside later after : State} {value bound_ : Value}
      {completion last : Ending Value} {events : List Happening}
      (asked : setting.evaluates head.next state (.value value) between)
      (item : setting.truthy value = true)
      (bound : setting.evaluates head.bind between (.value bound_) inside)
      (one : body inside completion later events) (leaves : ¬ completion.Continues labels)
      (closes : Closes setting head.close completion later last after) :
      Iterates labels span head body entered state last.unbroken after
        ((enters span entered).map setting.emit ++ events ++
          (ends span .entered last).map setting.emit)
  | again {entered : Bool} {state between inside later after : State} {value bound_ : Value}
      {completion last : Ending Value} {events more : List Happening}
      (asked : setting.evaluates head.next state (.value value) between)
      (item : setting.truthy value = true)
      (bound : setting.evaluates head.bind between (.value bound_) inside)
      (one : body inside completion later events) (stays : completion.Continues labels)
      (rest : Iterates labels span head body true later last after more) :
      Iterates labels span head body entered state last after
        ((enters span entered).map setting.emit ++ events ++ more)

inductive Enumerates (labels : List Label) (span : Span) (head : Enumeration Code)
    (body : Behaviour Label Value State Happening) : Behaviour Label Value State Happening where
  | abrupt {state after : State} {completion : Ending Value}
      (started : setting.evaluates head.start state (.abrupt completion) after) :
      Enumerates labels span head body state completion after
        ((ends span .fresh completion).map setting.emit)
  | loop {state between after : State} {value : Value} {completion : Ending Value}
      {events : List Happening}
      (started : setting.evaluates head.start state (.value value) between)
      (rest : Iterates setting labels span head body false between completion after events) :
      Enumerates labels span head body state completion after events

inductive Catches (span : Span) (block : Behaviour Label Value State Happening)
    (param : Value → Code) (handler : Behaviour Label Value State Happening) :
    Behaviour Label Value State Happening where
  | through {state after : State} {completion : Ending Value} {events : List Happening}
      (one : block state completion after events) (passes : ∀ value, completion ≠ .threw value) :
      Catches span block param handler state completion after
        (events ++ (completes (.completed span) completion).map setting.emit)
  | unbound {state between after : State} {value : Value} {completion : Ending Value}
      {events : List Happening} (one : block state (.threw value) between events)
      (bound : setting.evaluates (param value) between (.abrupt completion) after) :
      Catches span block param handler state completion after
        (events ++ (completes (.unbound span) completion).map setting.emit)
  | caught {state between inside after : State} {value bound_ : Value} {completion : Ending Value}
      {events more : List Happening} (one : block state (.threw value) between events)
      (bound : setting.evaluates (param value) between (.value bound_) inside)
      (two : handler inside completion after more) :
      Catches span block param handler state completion after
        (events ++ setting.emit (.caught span) :: more)

mutual

/-- What a statement does that stands under the labels. -/
def runs (labels : List Label) : Statement Code Value Probe → Behaviour Label Value State Happening
  | .other code parts =>
    Compound (setting.decides code) (fun index => (runsEach parts).getD index Skip) .normal
  | .block body => runsAll body
  | .labelled label body => Labelled label (runs (label :: labels) body)
  | .enumeration span head body => Enumerates setting labels span head (runs [] body)
  | .tryCatch span block param handler =>
    Catches setting span (runsAll block) param (runsAll handler)
  | .tryCatchFinally span block param handler finalizer =>
    Finally (Catches setting span (runsAll block) param (runsAll handler)) (runsAll finalizer)
  | .tryFinally block finalizer => Finally (runsAll block) (runsAll finalizer)
  | .probe probe => setting.probes probe

def runsAll : List (Statement Code Value Probe) → Behaviour Label Value State Happening
  | [] => Skip
  | statement :: statements => Seq (runs [] statement) (runsAll statements)

def runsEach : List (Statement Code Value Probe) → List (Behaviour Label Value State Happening)
  | [] => []
  | statement :: statements => runs [] statement :: runsEach statements

end

end Runs

section Readings

variable {Code Value Memory : Type}

abbrev Flags := Nat → Bool

inductive Happening where
  | event (event : Event)
  | hit (point : Nat)
  deriving DecidableEq

def Happening.seen : Happening → Option Event
  | .event happened => some happened
  | .hit _ => none

def Happening.point : Happening → Option Nat
  | .event _ => none
  | .hit index => some index

/-- What the probes do to the flags and hit. -/
def ExtendedProbe.step (flags : Flags) : ExtendedProbe → Flags × List Happening
  | .reset flag => (Function.update flags flag false, [])
  | .firstTime flag index =>
    (Function.update flags flag true, if flags flag then [] else [.hit index])
  | .otherwise flag index => (flags, if flags flag then [] else [.hit index])

structure Language (Code Value Memory : Type) where
  evaluates : Code → Memory → Result Value → Memory → Prop
  decides : Code → Ending Value → Memory → Decision Label Value → Memory → Prop
  truthy : Value → Bool

namespace Language

variable (language : Language Code Value Memory)

def source : Setting Code Value Empty Memory Event where
  evaluates := language.evaluates
  decides := language.decides
  truthy := language.truthy
  emit := id
  probes := nofun

/-- Code does not come to the flags. -/
def instrumented : Setting Code Value ExtendedProbe (Memory × Flags) Happening where
  evaluates := fun code state result after =>
    language.evaluates code state.1 result after.1 ∧ after.2 = state.2
  decides := fun code last state decision after =>
    language.decides code last state.1 decision after.1 ∧ after.2 = state.2
  truthy := language.truthy
  emit := .event
  probes := fun probe state completion after happenings =>
    completion = .normal ∧ after.1 = state.1 ∧ (after.2, happenings) = probe.step state.2

end Language

end Readings

end Supercov.Js.Extended
