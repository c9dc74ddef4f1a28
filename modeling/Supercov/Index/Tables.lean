import Supercov.Library.Outcome
import Supercov.Report.View

/-!
# What the index keeps of tests

The index's tables of tests and of what they reached, a record after the other for
every view.  A vector is kept once for each use and referred to by its number.
-/

namespace Supercov.Index

open Analysis (McdcVector)
open Report

inductive CoverageViewId where
  | all
  | passed
  | failed
  deriving DecidableEq

inductive CoverageIndexError where
  | invalidRecord (what : String)
  deriving DecidableEq

structure IndexedTestSummary where
  id : String
  name : String
  file : Option String
  title : Option String
  outcome : String
  role : String
  attribution : String
  provenance : TestProvenance

structure IndexedTestDetail where
  summary : IndexedTestSummary
  retries : List Nat
  attempts : List TestAttempt
  hits : List String
  decisions : List TestDecisionResult
  lines : List SourceLine

structure IndexedHitMetadata where
  id : String
  obligation : String
  branchKind : Option String
  file : String
  line : Nat
  column : Nat
  label : Option String
  alternative : Option String
  parentId : Option String
  source : String
  tests : List String

structure IndexedPhaseSummary where
  id : String
  kind : String
  operation : String
  source : Option String
  test : String
  status : Option String
  causedByPhaseId : Option String
  lines : Nat
  decisions : Nat

structure TestRelation (Value : Type) where
  view : CoverageViewId
  test : String
  value : Value

structure TestDecisionRecord where
  id : String
  vectorsOffset : Nat
  vectorsCount : Nat

structure CoverageIndex where
  testSummaries : List (CoverageViewId × IndexedTestSummary)
  testRetries : List (TestRelation Nat)
  testAttempts : List (TestRelation TestAttempt)
  testLines : List (TestRelation SourceLine)
  testHits : List (TestRelation String)
  testDecisions : List (TestRelation TestDecisionRecord)
  testVectors : List McdcVector
  phaseSummaries : List (CoverageViewId × IndexedPhaseSummary)
  decisionMetadata : List (CoverageViewId × DecisionMeta)
  hitMetadata : List (CoverageViewId × IndexedHitMetadata)

def CoverageIndex.empty : CoverageIndex where
  testSummaries := []
  testRetries := []
  testAttempts := []
  testLines := []
  testHits := []
  testDecisions := []
  testVectors := []
  phaseSummaries := []
  decisionMetadata := []
  hitMetadata := []

def testSummary (test : TestCoverageResult) : IndexedTestSummary where
  id := test.id
  name := test.name
  file := test.file
  title := test.title
  outcome := test.outcome
  role := test.role
  attribution := test.attribution
  provenance := test.provenance

def testRoles : List String := ["test", "setup", "background"]

def testAttributions : List String :=
  [attributionExact, attributionRunWide, attributionPartial, attributionByTime]

def testOutcomes : List String :=
  ["passed", "failed", "flaky", "skipped", "timedOut", "interrupted", "unknown", "unstarted",
    "todo"]

def phaseSummary (phase : PhaseResult) : IndexedPhaseSummary where
  id := phase.phase.id
  kind := phase.phase.kind
  operation := phase.phase.operation
  source := phase.phase.source
  test := phase.test
  status := phase.phase.status
  causedByPhaseId := phase.phase.causedByPhaseId
  lines := phase.lines.length
  decisions := (phase.decisions.map (·.vectors.length)).sum

def alternativeMetadata (branch : BranchMeta) (alternative : AlternativeResult) :
    IndexedHitMetadata where
  id := alternative.id
  obligation := "branch"
  branchKind := some branch.kind
  file := branch.file
  line := branch.line
  column := branch.column
  label := none
  alternative := some alternative.label
  parentId := some branch.id
  source := branch.source
  tests := alternative.tests

def pointMetadata (point : PointResult) : IndexedHitMetadata where
  id := point.point.id
  obligation :=
    match point.point.kind with
    | .statement => "statement"
    | .function => "function"
  branchKind := none
  file := point.point.file
  line := point.point.line
  column := point.point.column
  label := point.point.label
  alternative := none
  parentId := none
  source := point.point.source
  tests := point.tests

section Writing

variable (view : CoverageViewId)

def testDecisionRecord (test : String) (index : CoverageIndex) (decision : TestDecisionResult) :
    TestRelation TestDecisionRecord where
  view := view
  test := test
  value :=
    { id := decision.id
      vectorsOffset := index.testVectors.length
      vectorsCount := decision.vectors.length }

def writeTestDecision (test : String) (index : CoverageIndex) (decision : TestDecisionResult) :
    CoverageIndex :=
  { index with
    testDecisions := index.testDecisions ++ [testDecisionRecord view test index decision]
    testVectors := index.testVectors ++ decision.vectors }

def writeTest (index : CoverageIndex) (test : TestCoverageResult) :
    Outcome CoverageIndexError CoverageIndex := do
  Outcome.refuseIf (test.role ∉ testRoles) (.invalidRecord "test role")
  Outcome.refuseIf (test.attribution ∉ testAttributions) (.invalidRecord "test attribution")
  Outcome.refuseIf (test.outcome ∉ testOutcomes) (.invalidRecord "test outcome")
  let related {Value : Type} (values : List Value) : List (TestRelation Value) :=
    values.map fun value => { view, test := test.id, value }
  return test.decisions.foldl (writeTestDecision view test.id)
    { index with
      testSummaries := index.testSummaries ++ [(view, testSummary test)]
      testRetries := index.testRetries ++ related test.retries
      testAttempts := index.testAttempts ++ related test.attempts
      testLines := index.testLines ++ related test.lines
      testHits := index.testHits ++ related test.hits }

/-- A decision of the view: the vectors observed of it, and those of its witnesses. -/
def writeDecision (index : CoverageIndex) (result : DecisionResult) : CoverageIndex :=
  let witnesses := result.conditions.flatMap fun condition =>
    match condition.witness with
    | some (first, second) => [first, second]
    | none => []
  { index with
    testVectors := index.testVectors ++ result.vectorObservations.map (·.vector) ++ witnesses
    decisionMetadata := index.decisionMetadata ++ [(view, result.decision)] }

/-- What the records assume of a view: each vector of a decision gives each of its
conditions a value. -/
def checkView (view : CoverageView) : Outcome CoverageIndexError PUnit :=
  Outcome.forEach (fun result => do
    let width := result.decision.conditions.length
    Outcome.refuseIf (width = 0) (.invalidRecord "decision without conditions")
    Outcome.refuseIf
      (∃ vector ∈ result.vectors ++ result.vectorObservations.map (·.vector),
        vector.values.length ≠ width)
      (.invalidRecord "MC/DC vector width"))
    view.decisions

def writeView (index : CoverageIndex) (item : CoverageViewId × CoverageView) :
    Outcome CoverageIndexError CoverageIndex := do
  let (id, view) := item
  checkView view
  let tested ← view.tests.foldlM (writeTest id) index
  let phased :=
    { tested with
      phaseSummaries :=
        tested.phaseSummaries ++ view.phases.map fun phase => (id, phaseSummary phase) }
  let decided := view.decisions.foldl (writeDecision id) phased
  let alternatives := view.branches.flatMap fun branch =>
    branch.alternatives.map (alternativeMetadata branch.branch)
  .ok
    { decided with
      hitMetadata :=
        decided.hitMetadata ++
          (alternatives ++ view.points.map pointMetadata).map fun metadata => (id, metadata) }

end Writing

def coverageIndexSections (views : List (CoverageViewId × CoverageView)) :
    Outcome CoverageIndexError CoverageIndex := do
  let index ← views.foldlM writeView .empty
  Outcome.refuseIf (∀ item ∈ views, item.1 ≠ .all) (.invalidRecord "no view of every test")
  return index

namespace CoverageIndex

variable (index : CoverageIndex)

def ofView {Value : Type} (view : CoverageViewId) (records : List (CoverageViewId × Value)) :
    List Value :=
  (records.filter (·.1 = view)).map (·.2)

def testSummariesOf (view : CoverageViewId) : List IndexedTestSummary :=
  ofView view index.testSummaries

def decisionMetadataOf (view : CoverageViewId) : List DecisionMeta :=
  ofView view index.decisionMetadata

def hitMetadataOf (view : CoverageViewId) : List IndexedHitMetadata :=
  ofView view index.hitMetadata

def phaseSummariesOf (view : CoverageViewId) : List IndexedPhaseSummary :=
  ofView view index.phaseSummaries

/-- One record of a table, taken into its test's details where it is of the view. -/
def relate {Stored Value : Type} (view : CoverageViewId)
    (decode : Stored → Outcome CoverageIndexError Value)
    (change : Value → IndexedTestDetail → IndexedTestDetail) (details : List IndexedTestDetail)
    (record : TestRelation Stored) : Outcome CoverageIndexError (List IndexedTestDetail) :=
  if record.view ≠ view then .ok details
  else if details.all (·.summary.id ≠ record.test) then
    .refused (.invalidRecord "unknown test relation")
  else do
    let value ← decode record.value
    return details.map fun detail =>
      if detail.summary.id = record.test then change value detail else detail

def testDecision (record : TestDecisionRecord) : Outcome CoverageIndexError TestDecisionResult := do
  let stop := record.vectorsOffset + record.vectorsCount
  Outcome.refuseIf (stop > index.testVectors.length) (.invalidRecord "test vector range")
  .ok
    { id := record.id
      vectors := (index.testVectors.drop record.vectorsOffset).take record.vectorsCount }

def testDetails (view : CoverageViewId) : Outcome CoverageIndexError (List IndexedTestDetail) := do
  let summaries := index.testSummariesOf view
  Outcome.refuseIf (¬ (summaries.map (·.id)).Nodup) (.invalidRecord "duplicate test summary")
  let details : List IndexedTestDetail := summaries.map fun summary =>
    { summary, retries := [], attempts := [], hits := [], decisions := [], lines := [] }
  let details ← index.testRetries.foldlM
    (relate view .ok fun retry detail => { detail with retries := detail.retries ++ [retry] })
    details
  let details ← index.testAttempts.foldlM
    (relate view .ok fun attempt detail =>
      { detail with attempts := detail.attempts ++ [attempt] })
    details
  let details ← index.testLines.foldlM
    (relate view .ok fun line detail => { detail with lines := detail.lines ++ [line] }) details
  let details ← index.testHits.foldlM
    (relate view .ok fun hit detail => { detail with hits := detail.hits ++ [hit] }) details
  index.testDecisions.foldlM
    (relate view index.testDecision fun decision detail =>
      { detail with decisions := detail.decisions ++ [decision] })
    details

end CoverageIndex

end Supercov.Index
