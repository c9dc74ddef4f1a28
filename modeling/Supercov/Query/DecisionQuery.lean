import Supercov.Library.Text
import Supercov.Query.Decision
import Supercov.Query.Test

/-!
# Asking for a decision

A query for one decision finds it by its id, or by the place a listing prints, and answers with
what the selected tests saw of it, a page at a time.
-/

namespace Supercov.Query

open Analysis (McdcVector)
open Report
open Index

structure DecisionDetailRecord where
  id : String
  executed : Bool
  covered : Bool
  confidence : CoverageConfidence
  tests : List String
  observationsOffset : Nat
  observationsCount : Nat
  conditionsOffset : Nat
  conditionsCount : Nat

structure DecisionIndex where
  index : CoverageIndex
  details : List (CoverageViewId × DecisionDetailRecord)
  observations : List VectorObservation
  conditions : List ConditionResult

def range {Value : Type} (values : List Value) (offset count : Nat) (label : String) :
    Outcome CoverageIndexError (List Value) := do
  Outcome.refuseIf (offset + count > values.length) (.invalidRecord label)
  return (values.drop offset).take count

namespace DecisionIndex

variable (index : DecisionIndex)

def decisionDetail (metadata : List DecisionMeta) (record : DecisionDetailRecord) :
    Outcome CoverageIndexError DecisionResult := do
  Outcome.refuseIf (record.covered ∧ ¬record.executed) (.invalidRecord "covered unexecuted decision")
  let observations ← range index.observations record.observationsOffset record.observationsCount
    "decision observation range"
  let conditions ← range index.conditions record.conditionsOffset record.conditionsCount
    "decision condition range"
  -- The last of several decisions of one id.
  match metadata.reverse.find? (·.id = record.id) with
  | none => .refused (.invalidRecord "missing decision metadata")
  | some decision =>
    Outcome.refuseIf
      ((conditions.map fun condition => (condition.source, condition.index)) ≠
        decision.conditions.zipIdx)
      (.invalidRecord "decision condition denominator")
    return {
      decision
      executed := record.executed
      covered := record.covered
      vectors := observations.map (·.vector)
      vectorObservations := observations
      conditions
      tests := record.tests
      confidence := record.confidence }

def decisionDetails (view : CoverageViewId) : Outcome CoverageIndexError (List DecisionResult) :=
  Outcome.collect (index.decisionDetail (index.index.decisionMetadataOf view))
    (CoverageIndex.ofView view index.details)

end DecisionIndex

abbrev CoverageDecisionQueryOptions := CoverageTestQueryOptions

structure CoverageDecisionMatch where
  id : String
  file : String
  line : Nat
  column : Nat
  source : String

structure CoverageDecisionCondition where
  index : Nat
  source : String
  covered : Bool
  witness : Option (McdcVector × McdcVector)
  witnessTests : Option (List String × List String)
  missingOutcomes : Option (List String)

structure CoverageDecisionTotals where
  conditions : Nat
  vectorObservations : Nat
  tests : Nat

structure CoverageSelectedDecision where
  decision : DecisionMeta
  executed : Bool
  covered : Bool
  vectors : List McdcVector
  vectorObservations : List VectorObservation
  conditions : List CoverageDecisionCondition
  tests : List String
  confidence : CoverageConfidence
  totals : CoverageDecisionTotals

inductive CoverageDecisionData where
  | matching (run : String) (filters : CoverageQueryFilters)
    (decisions : List CoverageDecisionMatch)
  | detail (run : String) (filters : CoverageQueryFilters) (paginationAppliesTo : String)
    (decisions : List CoverageSelectedDecision)

inductive DecisionQueryError where
  | query (error : QueryError)
  | decisionNotFound (selector : String)

def rsplitOnce (c : Char) (text : List Char) : Option (List Char × List Char) :=
  (Text.splitOnce c text.reverse).map fun (last, before) => (before.reverse, last.reverse)

/-- `file:line`, or `file:line:column` as a listing of a line's decisions prints each one. -/
def selectorLocation (selector : List Char) : Option (List Char × Nat × Option Nat) := do
  let (front, last) ← rsplitOnce ':' selector
  let last ← Text.unsigned 64 last
  let placed := do
    let (file, line) ← rsplitOnce ':' front
    let line ← Text.unsigned 64 line
    return (file, line, some last)
  return placed.getD (front, last, none)

/-- The values a condition was never seen to take. -/
def missingOutcomes (index : Nat) (observed : List McdcVector) : List String :=
  ([true, false].filter fun value =>
    !observed.any fun vector => (vector.values[index]?).join = some value).map toString

def decisionCondition (observed : List McdcVector) (condition : ConditionResult) :
    CoverageDecisionCondition where
  index := condition.index
  source := condition.source
  covered := condition.covered
  witness := condition.witness
  witnessTests := condition.witnessTests
  missingOutcomes := if condition.covered then none else missingOutcomes condition.index observed

/-- All that the selected tests saw of the one decision selected. -/
def decisionDetailData (options : CoverageDecisionQueryOptions) (filtered : DecisionResult) :
    CoverageDecisionData × AgentPagination :=
  let totals : CoverageDecisionTotals :=
    { conditions := filtered.conditions.length
      vectorObservations := filtered.vectorObservations.length
      tests := filtered.tests.length }
  let observations := page options filtered.vectorObservations
  let conditions := (page options filtered.conditions).map
    (decisionCondition (filtered.vectorObservations.map (·.vector)))
  let tests := page options filtered.tests
  (.detail options.run (queryFilters options)
      "conditions, vectorObservations, and tests independently within each decision"
      [{ decision := filtered.decision
         executed := filtered.executed
         covered := filtered.covered
         vectors := observations.map (·.vector)
         vectorObservations := observations
         conditions
         tests
         confidence := filtered.confidence
         totals }],
    pagination options.offset options.limit
      (max (max observations.length conditions.length) tests.length)
      (max (max totals.conditions totals.vectorObservations) totals.tests))

def isPlacedAt (place : List Char × Nat × Option Nat) (decision : DecisionMeta) : Bool :=
  decision.file.toList = place.1 && decision.line = place.2.1 &&
    place.2.2.all fun column => decision.column = column

/-- The decisions of the id, or, if there are none, of the place that the selector names. -/
def matchingDecisions (decisions : List DecisionResult) (selector : String) : List DecisionResult :=
  match decisions.filter fun decision => decision.decision.id = selector with
  | [] =>
    match selectorLocation selector.toList with
    | none => []
    | some place => decisions.filter fun decision => isPlacedAt place decision.decision
  | found => found

/-- What the index or the filters refuse, as this query says it. -/
def asking {Value : Type} : Outcome QueryError Value → Outcome DecisionQueryError Value
  | .ok value => .ok value
  | .refused error => .refused (.query error)
  | .crashed => .crashed

def coverageDecisionQuery (index : DecisionIndex) (options : CoverageDecisionQueryOptions) :
    Outcome DecisionQueryError (CoverageDecisionData × AgentPagination) := do
  Outcome.refuseIf (options.limit = 0) (.query .invalidPagination)
  let tests := index.index.testSummariesOf options.view
  let selected ← asking (selectedTestIds tests options.kind options.runner)
  let decisions ← asking (reading (index.decisionDetails options.view))
  match matchingDecisions decisions options.selector with
  | [] => .refused (.decisionNotFound options.selector)
  | [decision] => .ok (decisionDetailData options (selectedDecision decision selected))
  | several =>
    let shown := (page options several).map fun decision : DecisionResult =>
      { id := decision.decision.id
        file := decision.decision.file
        line := decision.decision.line
        column := decision.decision.column
        source := decision.decision.source : CoverageDecisionMatch }
    .ok (.matching options.run (queryFilters options) shown,
      pagination options.offset options.limit shown.length several.length)

end Supercov.Query
