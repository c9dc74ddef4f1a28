import Supercov.Analysis.Witnesses
import Mathlib.Algebra.Order.Round
import Mathlib.Data.Rat.Floor

/-!
# Structural coverage arithmetic

`analyzeCore` turns obligations and observed vectors into counts. Percentages
are exact rationals rounded to two decimals, where the program rounds a
double.
-/

namespace Supercov.Analysis

inductive PointKind where
  | statement
  | function
  deriving DecidableEq, Repr

structure PointCoverage where
  kind : PointKind
  covered : Bool

structure BranchCoverage where
  kind : String
  alternatives : List Bool

structure DecisionCoverage where
  conditionCount : Nat
  vectors : List McdcVector

structure CoverageCoreInput where
  decisions : List DecisionCoverage
  points : List PointCoverage
  branches : List BranchCoverage
  lines : List Bool

structure CoverageCount where
  covered : Nat
  total : Nat
  percentage : ℚ

structure CoverageSummary where
  decisions : Nat
  executedDecisions : Nat
  coveredDecisions : Nat
  conditions : Nat
  coveredConditions : Nat
  conditionCoveragePct : ℚ
  lines : CoverageCount
  statements : CoverageCount
  functions : CoverageCount
  branches : CoverageCount
  decisionOutcomes : CoverageCount
  conditionOutcomes : CoverageCount
  valueSelections : CoverageCount
  coverageComplete : Bool
  completenessBlocked : Option Bool
  /-- Obligations no frontend measured exactly: in none of the counts above. -/
  unmeasuredObligations : Option Nat
  exactFractionPct : Option ℚ

structure CoverageCoreOutput where
  witnesses : List (List (Option WitnessIndexes))
  summary : CoverageSummary

/-- A share of a total in percent, to two decimals. All of nothing is covered. -/
def percentage (covered total : Nat) : ℚ :=
  if total = 0 then 100 else (round ((covered : ℚ) / total * 10000) : ℚ) / 100

def count (covered total : Nat) : CoverageCount where
  covered := covered
  total := total
  percentage := percentage covered total

def DecisionCoverage.outcomesCovered (coverage : DecisionCoverage) : Nat :=
  (coverage.vectors.any fun vector => !vector.outcome).toNat +
    (coverage.vectors.any fun vector => vector.outcome).toNat

def DecisionCoverage.valuesCovered (coverage : DecisionCoverage) (condition : Nat) : Nat :=
  (coverage.vectors.any fun vector => vector.value condition == some false).toNat +
    (coverage.vectors.any fun vector => vector.value condition == some true).toNat

def DecisionCoverage.conditionOutcomesCovered (coverage : DecisionCoverage) : Nat :=
  ((List.range coverage.conditionCount).map coverage.valuesCovered).sum

def decisionWitnesses : DecisionCoverage × Nat →
    Except AnalysisError (List (Option WitnessIndexes))
  | (coverage, decision) =>
      if coverage.conditionCount = 0 then
        .error (.emptyDecision decision)
      else
        findWitnessesForConditions coverage.vectors coverage.conditionCount

def findAllWitnesses (decisions : List DecisionCoverage) :
    Except AnalysisError (List (List (Option WitnessIndexes))) :=
  decisions.zipIdx.mapM decisionWitnesses

def summarize (input : CoverageCoreInput) (witnesses : List (List (Option WitnessIndexes))) :
    CoverageSummary :=
  let conditions := (witnesses.map List.length).sum
  let coveredConditions := (witnesses.flatten.filter Option.isSome).length
  let executedDecisions :=
    (input.decisions.filter fun coverage => !coverage.vectors.isEmpty).length
  let coveredDecisions := (witnesses.filter fun conditions => conditions.all Option.isSome).length
  let decisionOutcomeCovered := (input.decisions.map (·.outcomesCovered)).sum
  let conditionOutcomeCovered := (input.decisions.map (·.conditionOutcomesCovered)).sum
  let alternatives := input.branches.flatMap (·.alternatives)
  let valueAlternatives :=
    (input.branches.filter (·.kind = "logical-value")).flatMap (·.alternatives)
  let statements := input.points.filter (·.kind = .statement)
  let functions := input.points.filter (·.kind = .function)
  let lines := count (input.lines.filter id).length input.lines.length
  let statements := count (statements.filter (·.covered)).length statements.length
  let functions := count (functions.filter (·.covered)).length functions.length
  -- A decision's outcomes are branches of their own beside it.
  let branches := count (alternatives.filter id).length alternatives.length
  let decisionOutcomes := count decisionOutcomeCovered (input.decisions.length * 2)
  let conditionOutcomes := count conditionOutcomeCovered (conditions * 2)
  let valueSelections := count (valueAlternatives.filter id).length valueAlternatives.length
  let conditionCoveragePct := percentage coveredConditions conditions
  { decisions := input.decisions.length
    executedDecisions
    coveredDecisions
    conditions
    coveredConditions
    conditionCoveragePct
    lines
    statements
    functions
    branches
    decisionOutcomes
    conditionOutcomes
    valueSelections
    coverageComplete :=
      lines.percentage = 100 ∧ statements.percentage = 100 ∧ functions.percentage = 100 ∧
        branches.percentage = 100 ∧ conditionOutcomes.percentage = 100 ∧
        conditionCoveragePct = 100
    completenessBlocked := none
    unmeasuredObligations := none
    exactFractionPct := none }

def analyzeCore (input : CoverageCoreInput) : Except AnalysisError CoverageCoreOutput := do
  let witnesses ← findAllWitnesses input.decisions
  return { witnesses, summary := summarize input witnesses }

end Supercov.Analysis
