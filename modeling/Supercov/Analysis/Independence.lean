import Mathlib.Data.List.Basic
import Mathlib.Tactic.Common

/-!
# Independence pairs

Masking MC/DC asks, of two evaluations of one decision, whether the outcome
differs because of one condition: both evaluated it, to different values, and
no other condition both evaluated tells them apart.
-/

namespace Supercov.Analysis

/-- One evaluation of a decision. A condition that short-circuiting skipped is
`none`, which is not the same as false. -/
structure McdcVector where
  values : List (Option Bool)
  outcome : Bool
  deriving DecidableEq, Repr

structure WitnessIndexes where
  first : Nat
  second : Nat
  deriving DecidableEq, Repr

inductive AnalysisError where
  | emptyDecision (decision : Nat)
  | inconsistentVectorWidth (vector expected actual : Nat)
  deriving DecidableEq, Repr

def McdcVector.value (vector : McdcVector) (condition : Nat) : Option Bool :=
  vector.values[condition]?.join

def isIndependencePair (first second : McdcVector) (condition : Nat) : Bool :=
  if first.values.length ≠ second.values.length ∨ condition ≥ first.values.length then
    false
  else
    match first.value condition, second.value condition with
    | some firstTarget, some secondTarget =>
        if firstTarget = secondTarget ∨ first.outcome = second.outcome then
          false
        else
          (first.values.zip second.values).zipIdx.all fun ((left, right), index) =>
            index == condition || left.isNone || right.isNone || left == right
    | _, _ => false

theorem McdcVector.value_eq_some {vector : McdcVector} {condition : Nat} {value : Bool} :
    vector.value condition = some value ↔ vector.values[condition]? = some (some value) := by
  simp [McdcVector.value, Option.join_eq_some_iff]

theorem McdcVector.lt_of_value_eq_some {vector : McdcVector} {condition : Nat} {value : Bool}
    (h : vector.value condition = some value) : condition < vector.values.length :=
  (List.getElem?_eq_some_iff.mp (value_eq_some.mp h)).1

/-- No condition but `condition` tells the two vectors apart. -/
def AgreeElsewhere (first second : McdcVector) (condition : Nat) : Prop :=
  ∀ index value, index ≠ condition → first.value index = some value →
    second.value index ≠ some (!value)

theorem all_masked_iff {first second : McdcVector} {condition : Nat} :
    ((first.values.zip second.values).zipIdx.all fun ((left, right), index) =>
        index == condition || left.isNone || right.isNone || left == right) = true ↔
      AgreeElsewhere first second condition := by
  simp only [List.all_eq_true, Prod.forall, List.mem_zipIdx_iff_getElem?,
    List.getElem?_zip_eq_some, AgreeElsewhere, McdcVector.value_eq_some]
  constructor
  · intro masked index value other here opposite
    have := masked (some value) (some (!value)) index
      ⟨here, McdcVector.value_eq_some.mp opposite⟩
    simp [other] at this
  · rintro agree left right index ⟨here, there⟩
    cases left with
    | none => simp
    | some left =>
      cases right with
      | none => simp
      | some right =>
        by_cases other : index = condition
        · simp [other]
        · have := agree index left other here
          rw [ne_eq, McdcVector.value_eq_some, there] at this
          revert this
          cases left <;> cases right <;> simp

/-- What `isIndependencePair` asks, of two vectors of one width. -/
theorem isIndependencePair_iff {first second : McdcVector} {condition : Nat}
    (same : first.values.length = second.values.length) :
    isIndependencePair first second condition = true ↔
      ∃ target, first.value condition = some target ∧
        second.value condition = some (!target) ∧
        second.outcome = !first.outcome ∧ AgreeElsewhere first second condition := by
  unfold isIndependencePair
  by_cases outside : condition ≥ first.values.length
  · simp only [outside, or_true, ↓reduceIte, Bool.false_eq_true, false_iff]
    rintro ⟨target, here, -⟩
    exact absurd (McdcVector.lt_of_value_eq_some here) (by omega)
  · rw [if_neg (by omega)]
    cases firstValue : first.value condition with
    | none => simp
    | some firstTarget =>
      cases secondValue : second.value condition with
      | none => simp
      | some secondTarget =>
        have masked := @all_masked_iff first second condition
        simp only [Option.some.injEq, exists_eq_left']
        rw [← masked]
        cases firstTarget <;> cases secondTarget <;> cases first.outcome <;>
          cases second.outcome <;> simp

/-- `vectors[i]` and `vectors[j]`, in that order, are an independence pair. -/
def PairAt (vectors : List McdcVector) (condition i j : Nat) : Prop :=
  i < j ∧ ∃ first second, vectors[i]? = some first ∧ vectors[j]? = some second ∧
    isIndependencePair first second condition = true

/-- The pair a scan of all pairs, by first and then by second index, meets first. -/
def FirstPairAt (vectors : List McdcVector) (condition i j : Nat) : Prop :=
  PairAt vectors condition i j ∧
    ∀ i' j', PairAt vectors condition i' j' → i < i' ∨ i = i' ∧ j ≤ j'

end Supercov.Analysis
