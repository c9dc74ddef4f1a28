import Mathlib.Data.List.Basic
import Mathlib.Logic.Function.Basic

/-!
# Decisions in the Ruby runtime

The instrumenter gives every condition of a predicate a probe, and the predicate itself one.  The
runtime keeps the evaluations in progress on a stack for each phase and decision, and holds each
completed one against the tree of its conditions.
-/

namespace Supercov.Ruby.Decisions

inductive Operator where
  | and
  | or
  deriving DecidableEq

/-- A predicate, with the negations over each of its parts. -/
inductive Predicate where
  | condition (not : Nat)
  | logical (op : Operator) (left right : Predicate) (not : Nat)

inductive ConditionTree where
  | leaf (index : Nat)
  | node (op : Operator) (items : List ConditionTree) (negate : Bool)

structure DerivedLogical where
  previousLeaves : List Nat
  operandLeaves : List Nat

/-- What the instrumenter plans for a decision. -/
structure Target where
  width : Nat
  not : List Bool
  tree : ConditionTree
  logical : List DerivedLogical

namespace Predicate

def leaves : Predicate → List Nat
  | condition not => [not]
  | logical _ left right _ => left.leaves ++ right.leaves

def width (predicate : Predicate) : Nat := predicate.leaves.length

/-- The tree over leaves numbered from `first` on. -/
def tree (first : Nat) : Predicate → ConditionTree
  | condition _ => .leaf first
  | logical op left right not =>
    .node op [left.tree first, right.tree (first + left.width)] (not % 2 == 1)

/-- The operators, each behind those of its sides. -/
def logicals (first : Nat) : Predicate → List DerivedLogical
  | condition _ => []
  | logical _ left right _ =>
    let middle := first + left.width
    left.logicals first ++ right.logicals middle ++
      [⟨List.range' first left.width, List.range' middle right.width⟩]

def probeDecision (predicate : Predicate) : Target where
  width := predicate.width
  not := predicate.leaves.map (· % 2 == 1)
  tree := predicate.tree 0
  logical := predicate.logicals 0

end Predicate

def maxOpenEvaluations : Nat := 64

/-- An evaluation in progress, as far as its probes were seen. -/
structure OpenFrame where
  values : List (Option Bool)
  last : Int

/-- What a completed evaluation proves besides its vector. -/
inductive Hit where
  | outcome (value : Bool)
  | logical (operator : Nat) (evaluated : Bool)
  deriving DecidableEq

structure DecisionVector where
  context : Nat
  decision : Nat
  digits : List Nat
  outcome : Bool
  deriving DecidableEq

/-- The evaluations in progress in each context at each decision, the last one first, and what is
recorded. -/
structure Runtime where
  opens : Nat × Nat → List OpenFrame := fun _ => []
  vectors : List DecisionVector := []
  hits : List (Nat × Nat × Hit) := []
  inconsistent : List Nat := []

def Operator.stops (op : Operator) (result : Bool) : Bool :=
  (op = .and && result = false) || (op = .or && result = true)

mutual

def evaluateTree (values : List (Option Bool)) : ConditionTree → Option Bool
  | .leaf index => values.getD index none
  | .node op items negate => (evaluateItems values op none items).map (· != negate)

def evaluateItems (values : List (Option Bool)) (op : Operator) (result : Option Bool) :
    List ConditionTree → Option Bool
  | [] => result
  | item :: items =>
    match evaluateTree values item with
    | none => none
    | some result => if op.stops result then some result else evaluateItems values op (some result) items

end

def digit : Option Bool → Nat
  | none => 0
  | some false => 1
  | some true => 2

/-- The conditions as written, each under its own negations. -/
def negated (target : Target) (values : List (Option Bool)) : List (Option Bool) :=
  values.zipWith (fun value not => value.map (· != not)) target.not

def DerivedLogical.alternative (values : List (Option Bool)) (logical : DerivedLogical) : Option Bool :=
  let seen (leaves : List Nat) := leaves.any fun index => (values.getD index none).isSome
  if seen logical.operandLeaves then some true
  else if seen logical.previousLeaves then some false
  else none

/-- The alternative each operator took, where it was reached. -/
def alternatives (target : Target) (values : List (Option Bool)) : List Hit :=
  target.logical.zipIdx.filterMap fun logical =>
    (DerivedLogical.alternative values logical.1).map (.logical logical.2)

namespace Runtime

def probeCondition (target : Target) (context key index : Nat) (value : Bool) (runtime : Runtime) :
    Runtime :=
  let fresh : OpenFrame := ⟨List.replicate target.width none, -1⟩
  let stack := runtime.opens (context, key)
  let stack := match stack with
    | [] => [fresh]
    | last :: outer =>
      if (index : Int) ≤ last.last then
        -- The oldest evaluation goes where there are too many.
        fresh :: if maxOpenEvaluations ≤ stack.length then (last :: outer).dropLast else last :: outer
      else
        last :: outer
  let stack := stack.modifyHead fun last => ⟨last.values.set index (some value), index⟩
  { runtime with opens := Function.update runtime.opens (context, key) stack }

def vector (recorded : DecisionVector) (runtime : Runtime) : Runtime :=
  if runtime.vectors.any fun seen => seen.context = recorded.context &&
      seen.decision = recorded.decision && seen.digits = recorded.digits then
    runtime
  else
    { runtime with vectors := runtime.vectors ++ [recorded] }

def finishDecision (target : Target) (context key : Nat) (values : List (Option Bool)) (outcome : Bool)
    (runtime : Runtime) : Runtime :=
  let values := negated target values
  if evaluateTree values target.tree = some outcome then
    let runtime := runtime.vector ⟨context, key, values.map digit, outcome⟩
    { runtime with
      hits := runtime.hits ++
        ((.outcome outcome :: alternatives target values).map fun hit => (context, key, hit)) }
  else
    { runtime with inconsistent := key :: runtime.inconsistent }

def probeDecision (target : Target) (context key : Nat) (value : Bool) (runtime : Runtime) : Runtime :=
  let stack := runtime.opens (context, key)
  let values := match stack with
    | frame :: _ => frame.values
    | [] =>
      if target.width = 1 then
        -- A lone condition has no probe: its value is read back from the outcome.
        [some (if target.not.getD 0 false then !value else value)]
      else
        List.replicate target.width none
  finishDecision target context key values value
    { runtime with opens := Function.update runtime.opens (context, key) stack.tail }

end Runtime

end Supercov.Ruby.Decisions
