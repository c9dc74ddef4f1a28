import Mathlib.Tactic.Common
import Mathlib.Data.List.Basic

/-!
# Selections

A tree of `||`, `&&` and `??` used for its value, what the runtime's helpers hit for it, and the tables
of steps and choices the named form reads.
-/

namespace Supercov.Js

inductive Operator where
  | or
  | and
  | coalesce
  deriving DecidableEq

def Operator.kind : Operator → Nat
  | .or => 0
  | .and => 1
  | .coalesce => 2

/-- What the operators and the helpers look at in a value. -/
inductive Value where
  | nullish
  | falsy
  | truthy
  deriving DecidableEq

def Value.isTruthy : Value → Bool
  | .truthy => true
  | _ => false

def Value.isNullish : Value → Bool
  | .nullish => true
  | _ => false

/-- The left side's value is the selection's. -/
def Operator.short (operator : Operator) (value : Value) : Bool :=
  match operator with
  | .or => value.isTruthy
  | .and => !value.isTruthy
  | .coalesce => !value.isNullish

/-- The test `selectShortV2` and `selectPathV2` make for a kind of selection. -/
def short (kind : Nat) (value : Value) : Bool :=
  if kind = 0 then value.isTruthy
  else if kind = 1 then !value.isTruthy
  else !value.isNullish

@[simp] theorem short_kind (operator : Operator) (value : Value) :
    short operator.kind value = operator.short value := by
  cases operator <;> rfl

/-! ### The runtime's helpers, as the points they hit -/

def selectShortV2 (first : Nat) (value : Value) (kind : Nat) : List Nat :=
  if short kind value then [if value.isTruthy then first + 1 else first] else []

def selectRightV2 (first : Nat) (value : Value) : List Nat :=
  [if value.isTruthy then first + 3 else first + 2]

def selectPathV2 (value : Value) : List Nat → List Nat
  | [] => []
  | step :: steps =>
    let code := step % 4
    let first := (step - code) / 4
    if code = 3 then (if value.isTruthy then first + 3 else first + 2) :: selectPathV2 value steps
    else if short code value then
      (if value.isTruthy then first + 1 else first) :: selectPathV2 value steps
    else []

/-- `right` is the tree's frame, as a condition. -/
def selectEnd2V2 (first : Nat) (value : Value) (right : Bool) : List Nat :=
  [first + (if right then 2 else 0) + (if value.isTruthy then 1 else 0)]

/-- A tree's entry in the file's table: the steps of each leaf, and for each leaf the points each leaf
before it has decided by then. -/
structure SelectionTable where
  steps : List (List Nat)
  choices : List (List (List Nat))

/-- `none` is the error of reading the steps of no leaf. -/
def selectEndV2 (tables : List SelectionTable) (tree : Nat) (value : Value) (leaf : Option Nat) :
    Option (List Nat) := do
  let steps ← (← tables[tree]?).steps[← leaf]?
  return selectPathV2 value steps

def selectNextV2 (tables : List SelectionTable) (tree : Nat) (source : Option Nat) (to_ : Nat) :
    List Nat :=
  (do (← (← tables[tree]?).choices[to_]?)[← source]?).getD []

/-! ### Shapes -/

/-- A tree over its leaves, each selection with the parentheses around it and the first of its points. -/
inductive Tree (α : Type) where
  | leaf (value : α)
  | selection (parentheses : Nat) (operator : Operator) (first : Nat) (left right : Tree α)

inductive SelectionShape where
  | leaf (leaf : Nat)
  | selection (first kind : Nat) (left right : SelectionShape)

namespace SelectionShape

def leftmost : SelectionShape → Nat
  | leaf number => number
  | selection _ _ left _ => left.leftmost

/-- A value that is truthy or not, nullish or not, cuts the selection short. -/
def cuts (kind : Nat) (truthy nullish : Bool) : Bool :=
  if kind = 0 then truthy else if kind = 1 then !truthy else !nullish

/-- The leaves whose value can be the tree's when that is truthy or not, each with its points. -/
def deciders (truthy nullish : Bool) : SelectionShape → List (Nat × List Nat)
  | leaf number => [(number, [])]
  | selection first kind left right =>
    (if cuts kind truthy nullish then
      (left.deciders truthy nullish).map fun (decider, hits) => (decider, hits ++ [first + truthy.toNat])
    else []) ++
    (right.deciders truthy nullish).map fun (decider, hits) =>
      (decider, hits ++ [first + 2 + truthy.toNat])

/-- For each leaf but the first, the leaves that can come just before it. -/
def before : SelectionShape → List (List (Nat × List Nat)) → List (List (Nat × List Nat))
  | leaf _, entries => entries
  | selection _ kind left right, entries =>
    right.before (left.before
      (entries.set right.leftmost (left.deciders (decide (kind = 1)) (decide (kind = 2)))))

end SelectionShape

/-- The shape of a tree, its leaves numbered behind those of `leaves`, and each leaf's steps. -/
def shape {α : Type} (path : List Nat) :
    Tree α → List (List Nat) → SelectionShape × List (List Nat)
  | .leaf _, leaves => (.leaf leaves.length, leaves ++ [path])
  | .selection _ operator first left right, leaves =>
    let leftShape := shape ((first * 4 + operator.kind) :: path) left leaves
    let rightShape := shape ((first * 4 + 3) :: path) right leftShape.2
    (.selection first operator.kind leftShape.1 rightShape.1, rightShape.2)

/-- `Vec::resize`, which never shortens here. -/
def resize (entries : List (List Nat)) (length : Nat) : List (List Nat) :=
  entries ++ List.replicate (length - entries.length) []

/-- A row of the table for `selectNextV2`, by the leaf before. -/
def byLeaf (deciders : List (Nat × List Nat)) : List (List Nat) :=
  if deciders.length > 1 then
    deciders.foldl (fun row (decider, points) => (resize row (decider + 1)).set decider points) []
  else []

/-- What a leaf records of the leaf before it: points that are known, or the table's. -/
inductive Recorded where
  | hits (points : List Nat)
  | next (tree frame leaf : Nat)

/-- Where several leaves can come before, the tree has a table. -/
def recordedBefore (frame : Nat) (tree : Option Nat) (leaf : Nat) (deciders : List (Nat × List Nat)) :
    Option Recorded :=
  if deciders.all fun (_, points) => points.isEmpty then none
  else match deciders with
    | [(_, points)] => some (.hits points)
    | _ => tree.map fun tree => .next tree frame leaf

/-- The points it hits, `read` giving what a frame holds. -/
def Recorded.points (tables : List SelectionTable) (read : Nat → Option Nat) : Recorded → List Nat
  | hits points => points
  | next tree frame leaf => selectNextV2 tables tree (read frame) leaf

inductive Helper where
  | selectEnd2V2
  | selectEndV2

/-- The helper that records a named tree's value, the selection or the table entry it records for, and
the tree's frame. -/
structure SelectionSite where
  helper : Helper
  index : Nat
  frame : Nat

/-- The points the call of a tree's helper hits. -/
def SelectionSite.record (site : SelectionSite) (tables : List SelectionTable) (value : Value)
    (leaf : Option Nat) : Option (List Nat) :=
  match site.helper with
  | .selectEnd2V2 => some (selectEnd2V2 site.index value (decide (leaf.getD 0 ≠ 0)))
  | .selectEndV2 => selectEndV2 tables site.index value leaf

end Supercov.Js
