import Mathlib
import Supercov.Library.Suspended

/-!
# Decisions in the Python runtime

A decision of several conditions has one state in each slot, shared by whatever evaluates it
there.  A vector is a byte of the decision's region in the slot, or a record where the
decision is too wide for a region.
-/

namespace Supercov.Python

/-- One multi-condition decision's evaluation in one context, and those it interrupted. -/
structure DecisionState where
  mask : Nat := 0
  last : Int := -1
  saved : List (Nat × Int) := []

def maxRegionWidth : Nat := 6

def regionBytes (width : Nat) : Nat := if width = 1 then 2 else 2 * 3 ^ width

/-- The first byte of each decision's region, where it has one. -/
def regions (cursor : Nat) : List Nat → List (Option Nat)
  | [] => []
  | width :: widths =>
    if maxRegionWidth < width then
      none :: regions cursor widths
    else
      some cursor :: regions (cursor + regionBytes width) widths

structure Region where
  start : Nat
  width : Nat
  decision : Nat

/-- The decisions that have a region, as the layout names them to the reader. -/
def regionTable (cursor decision : Nat) : List Nat → List Region
  | [] => []
  | width :: widths =>
    if maxRegionWidth < width then
      regionTable cursor (decision + 1) widths
    else
      ⟨cursor, width, decision⟩ :: regionTable (cursor + regionBytes width) (decision + 1) widths

/-- A base-3 evaluation mask as digits: 0 not evaluated, 1 false, 2 true. -/
def digits (mask : Nat) : Nat → List Nat
  | 0 => []
  | width + 1 => mask % 3 :: digits (mask / 3) width

structure DecisionVector where
  decision : Nat
  digits : List Nat
  outcome : Bool
  deriving DecidableEq

/-- The vector a region byte stands for. -/
def Region.vector (region : Region) (offset : Nat) : DecisionVector :=
  if region.width = 1 then
    { decision := region.decision
      digits := [if offset = 1 then 2 else 1]
      outcome := offset = 1 }
  else
    { decision := region.decision
      digits := digits (offset / 2) region.width
      outcome := offset % 2 = 1 }

/-- The plan: the slots' bytes before the regions, and the decisions' widths. -/
structure PlanIndex where
  cursor : Nat
  widths : List Nat
  /-- Whether a condition of a decision stands under `not`. -/
  inverted : Nat → Nat → Bool

def PlanIndex.width (index : PlanIndex) (decision : Nat) : Nat := index.widths.getD decision 0

def PlanIndex.region (index : PlanIndex) (decision : Nat) : Option Nat :=
  ((regions index.cursor index.widths)[decision]?).join

/-- What the reader takes a byte for: the last region that starts at it or before. -/
def PlanIndex.decode (index : PlanIndex) (byte : Nat) : Option DecisionVector :=
  let table := regionTable index.cursor 0 index.widths
  let at_ := (table.takeWhile (·.start ≤ byte)).length
  (table[at_ - 1]?).map fun region => region.vector (byte - region.start)

/-- The slots' contexts and decision states, the bytes stored so far with the context their slot
had, and the vectors recorded at once. -/
structure Runtime where
  context : Nat → Nat := fun _ => 0
  states : Nat × Nat → Option DecisionState := fun _ => none
  bytes : List (Nat × Nat) := []
  vectors : List (Nat × DecisionVector) := []

namespace DecisionState

def condition (state : DecisionState) (index : Nat) (value inverted : Bool) : DecisionState :=
  -- An index at or before the last one seen is a nested evaluation of the decision.
  let state := if (index : Int) ≤ state.last then
    { state with saved := (state.mask, state.last) :: state.saved, mask := 0 } else state
  { state with
    last := index
    mask := state.mask + (if value != inverted then 2 else 1) * 3 ^ index }

def close (state : DecisionState) : DecisionState :=
  match state.saved with
  | (mask, last) :: saved => { mask, last, saved }
  | [] => { state with mask := 0, last := -1 }

end DecisionState

namespace Runtime

variable (index : PlanIndex)

def conditionProbe (slot decision : Nat) (position : Nat) (value inverted : Bool)
    (runtime : Runtime) : Runtime :=
  let state := (runtime.states (slot, decision)).getD {}
  { runtime with
    states := Function.update runtime.states (slot, decision)
      (some (state.condition position value inverted)) }

/-- A vector of a decision too wide for a region, recorded once for each context. -/
def wideVector (context decision mask : Nat) (outcome : Bool) (runtime : Runtime) : Runtime :=
  let digits := digits mask (index.width decision)
  if runtime.vectors.any fun seen =>
      seen.1 = context && seen.2.decision = decision && seen.2.digits = digits then
    runtime
  else
    { runtime with vectors := runtime.vectors ++ [(context, ⟨decision, digits, outcome⟩)] }

def decisionProbe (slot decision : Nat) (outcome : Bool) (runtime : Runtime) : Runtime :=
  match runtime.states (slot, decision) with
  | none => runtime
  | some state =>
    let runtime := { runtime with
      states := Function.update runtime.states (slot, decision) (some state.close) }
    match index.region decision with
    | some start =>
      { runtime with
        bytes := runtime.bytes ++
          [(runtime.context slot, start + 2 * state.mask + outcome.toNat)] }
    | none => runtime.wideVector index (runtime.context slot) decision state.mask outcome

def allocateHits (slot context : Nat) (runtime : Runtime) : Runtime :=
  { runtime with
    context := Function.update runtime.context slot context
    states := fun place => if place.1 = slot then none else runtime.states place }

end Runtime

/-- What happens to the decisions of a process: a condition of an evaluation has its truth, as
written; an evaluation comes to its outcome, or an exception leaves it; a slot is handed on.  The
slot of a probe is that of the context it runs in. -/
inductive Event where
  | condition (evaluation slot decision position : Nat) (truth : Bool)
  | outcome (evaluation slot decision : Nat) (value : Bool)
  | leave (evaluation : Nat)
  | hand (slot context : Nat)

def Event.course : Event → Suspended.Event (Nat × Nat)
  | condition evaluation slot decision position truth =>
    .condition evaluation (slot, decision) position truth
  | outcome evaluation slot decision value => .outcome evaluation (slot, decision) value
  | leave evaluation => .leave evaluation
  | hand slot _ => .reset fun place => place.1 = slot

def Runtime.after (index : PlanIndex) (runtime : Runtime) : Event → Runtime
  | .condition _ slot decision position truth =>
    let inverted := index.inverted decision position
    runtime.conditionProbe slot decision position (truth != inverted) inverted
  | .outcome _ slot decision value => runtime.decisionProbe index slot decision value
  | .leave _ => runtime
  | .hand slot context => runtime.allocateHits slot context

/-- The runtime, and what the evaluations really did. -/
structure Moment where
  runtime : Runtime := {}
  course : Suspended.Course (Nat × Nat) := {}

def Moment.after (index : PlanIndex) (moment : Moment) (event : Event) : Moment where
  runtime := moment.runtime.after index event
  course := moment.course.after event.course

def Event.Planned (index : PlanIndex) : Event → Prop
  | condition _ _ decision position _ => 2 ≤ index.width decision ∧ position < index.width decision
  | outcome _ _ decision _ => 2 ≤ index.width decision
  | leave _ => True
  | hand _ _ => True

/-- What an evaluation can do. -/
def Fits (index : PlanIndex) (moment : Moment) (event : Event) : Prop :=
  event.Planned index ∧ moment.course.Fits event.course

def vectorOf (index : PlanIndex) (evaluation : Suspended.Completed (Nat × Nat)) : DecisionVector where
  decision := evaluation.place.2
  digits := (List.range (index.width evaluation.place.2)).map fun position =>
    match evaluation.seen.lookup position with
    | none => 0
    | some false => 1
    | some true => 2
  outcome := evaluation.outcome

/-- What the reader finds. -/
def Runtime.Recorded (index : PlanIndex) (runtime : Runtime) (vector : DecisionVector) : Prop :=
  (∃ stored ∈ runtime.bytes, index.decode stored.2 = some vector) ∨
    ∃ recorded ∈ runtime.vectors, recorded.2 = vector

def Exact (index : PlanIndex) (moment : Moment) : Prop :=
  ∀ vector, moment.runtime.Recorded index vector ↔
    ∃ evaluation ∈ moment.course.completed, vectorOf index evaluation = vector

end Supercov.Python
