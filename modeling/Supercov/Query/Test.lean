import Supercov.Index.Tables

/-!
# Asking for a test

A query for one test answers with all that the test reached, a page at a time.  Of a
decision it shows what the view has of it, by an access that the view is trusted to answer.
-/

namespace Supercov.Query

open Analysis (McdcVector)
open Report
open Index

inductive QueryError where
  | index (error : CoverageIndexError)
  | invalidPagination
  | testFilterEmpty (kind runner : Option String)
  | testNotFound (selector : String)
  | testNotInView (selector : String)
  deriving DecidableEq

structure CoverageQueryFilters where
  outcome : String
  kind : Option String
  runner : Option String

structure AgentPagination where
  offset : Nat
  limit : Nat
  returned : Nat
  total : Nat
  hasMore : Bool
  nextOffset : Option Nat

structure CoverageTestMatch where
  id : String
  name : String
  outcome : String
  provenance : TestProvenance

structure CoverageHitDetail where
  id : String
  obligation : String
  branchKind : Option String
  file : Option String
  line : Option Nat
  column : Option Nat
  label : Option String
  alternative : Option String

structure CoverageTestDecision where
  id : String
  vectors : List McdcVector
  decision : DecisionMeta

structure CoverageTestPhase where
  id : String
  kind : String
  operation : String
  source : Option String
  status : Option String
  causedByPhaseId : Option String
  lines : Nat
  decisions : Nat

structure CoverageTestTotals where
  lines : Nat
  hits : Nat
  decisions : Nat
  phases : Nat

structure CoverageSelectedTest where
  summary : IndexedTestSummary
  retries : List Nat
  attempts : List TestAttempt
  hits : List String
  decisions : List CoverageTestDecision
  lines : List SourceLine
  hitDetails : List CoverageHitDetail
  phases : List CoverageTestPhase
  totals : CoverageTestTotals

inductive CoverageTestData where
  | matching (run : String) (filters : CoverageQueryFilters) (tests : List CoverageTestMatch)
  | detail (run : String) (filters : CoverageQueryFilters) (paginationAppliesTo : String)
    (test : CoverageSelectedTest)

structure CoverageTestQueryOptions where
  run : String
  view : CoverageViewId
  kind : Option String
  runner : Option String
  selector : String
  offset : Nat
  limit : Nat

def pagination (offset limit returned total : Nat) : AgentPagination :=
  let next := offset + returned
  let hasMore : Bool := returned > 0 ∧ next < total
  { offset, limit, returned, total, hasMore, nextOffset := if hasMore then some next else none }

def viewName : CoverageViewId → String
  | .all => "all"
  | .passed => "passed"
  | .failed => "failed"

def queryFilters (options : CoverageTestQueryOptions) : CoverageQueryFilters where
  outcome := viewName options.view
  kind := options.kind
  runner := options.runner

def ofDimension (kind runner : Option String) (provenance : TestProvenance) : Bool :=
  (kind.all fun kind => provenance.kind = kind) &&
    runner.all fun runner => provenance.runner = runner

def testsSelected (tests : List IndexedTestSummary) (kind runner : Option String) :
    Option (List String) :=
  if kind.isNone ∧ runner.isNone then none
  else some ((tests.filter fun test => ofDimension kind runner test.provenance).map (·.id))

def selectedTestIds (tests : List IndexedTestSummary) (kind runner : Option String) :
    Outcome QueryError (Option (List String)) := do
  let selected := testsSelected tests kind runner
  Outcome.refuseIf (selected = some []) (.testFilterEmpty kind runner)
  return selected

def hitDetail (id : String) : Option IndexedHitMetadata → CoverageHitDetail
  | some metadata =>
    { id
      obligation := metadata.obligation
      branchKind := metadata.branchKind
      file := some metadata.file
      line := some metadata.line
      column := some metadata.column
      label := metadata.label
      alternative := metadata.alternative }
  | none =>
    { id
      obligation := "unknown"
      branchKind := none
      file := none
      line := none
      column := none
      label := none
      alternative := none }

def testPhase (phase : IndexedPhaseSummary) : CoverageTestPhase where
  id := phase.id
  kind := phase.kind
  operation := phase.operation
  source := phase.source
  status := phase.status
  causedByPhaseId := phase.causedByPhaseId
  lines := phase.lines
  decisions := phase.decisions

def reading {Value : Type} : Outcome CoverageIndexError Value → Outcome QueryError Value
  | .ok value => .ok value
  | .refused error => .refused (.index error)
  | .crashed => .crashed

def page {Value : Type} (options : CoverageTestQueryOptions) (items : List Value) : List Value :=
  (items.drop options.offset).take options.limit

def shownDecision (decisions : List DecisionMeta) (decision : TestDecisionResult) :
    Outcome QueryError CoverageTestDecision :=
  -- The last of several decisions of one id.
  match decisions.reverse.find? (·.id = decision.id) with
  | some found => .ok { id := decision.id, vectors := decision.vectors, decision := found }
  | none => .crashed

section Query

variable (toLowercase : String → String)

def names (selector : String) (test : IndexedTestSummary) : Bool :=
  test.id = toLowercase selector ∨
    (toLowercase selector).toList <:+: (toLowercase test.name).toList

/-- All that the one test selected reached. -/
def testDetail (index : CoverageIndex) (options : CoverageTestQueryOptions)
    (test : IndexedTestDetail) : Outcome QueryError (CoverageTestData × AgentPagination) := do
  let metadata := index.hitMetadataOf options.view
  let phases := ((index.phaseSummariesOf options.view).filter (·.test = test.summary.id)).map
    testPhase
  let totals : CoverageTestTotals :=
    { lines := test.lines.length
      hits := test.hits.length
      decisions := test.decisions.length
      phases := phases.length }
  let hits := page options test.hits
  let shown ← Outcome.collect (shownDecision (index.decisionMetadataOf options.view))
    (page options test.decisions)
  let selected : CoverageSelectedTest :=
    { summary := test.summary
      retries := test.retries
      attempts := test.attempts
      hits
      decisions := shown
      lines := page options test.lines
      hitDetails := hits.map fun id => hitDetail id (metadata.reverse.find? (·.id = id))
      phases := page options phases
      totals }
  let returned := max (max (max selected.lines.length hits.length) shown.length)
    selected.phases.length
  let total := max (max (max totals.lines totals.hits) totals.decisions) totals.phases
  return (.detail options.run (queryFilters options)
      "lines, hits/hitDetails, decisions, and phases independently within the test" selected,
    pagination options.offset options.limit returned total)

def matchingTests (tests : List IndexedTestDetail) (selected : Option (List String))
    (selector : String) : List IndexedTestDetail :=
  (tests.filter fun test => selected.all (test.summary.id ∈ ·)).filter fun test =>
    names toLowercase selector test.summary

def coverageTestQuery (index : CoverageIndex) (options : CoverageTestQueryOptions) :
    Outcome QueryError (CoverageTestData × AgentPagination) := do
  Outcome.refuseIf (options.limit = 0) .invalidPagination
  let tests ← reading (index.testDetails options.view)
  let selected ← selectedTestIds (tests.map (·.summary)) options.kind options.runner
  match matchingTests toLowercase tests selected options.selector with
  | [] =>
    let narrowed := options.view ≠ .all ∨ options.kind.isSome ∨ options.runner.isSome
    if narrowed then
      let all ← reading (index.testDetails .all)
      if all.any fun test => names toLowercase options.selector test.summary then
        .refused (.testNotInView options.selector)
      else
        .refused (.testNotFound options.selector)
    else
      .refused (.testNotFound options.selector)
  | [test] => testDetail index options test
  | several =>
    let shown := (page options several).map fun test : IndexedTestDetail =>
      { id := test.summary.id
        name := test.summary.name
        outcome := test.summary.outcome
        provenance := test.summary.provenance : CoverageTestMatch }
    .ok (.matching options.run (queryFilters options) shown,
      pagination options.offset options.limit shown.length several.length)

end Query

end Supercov.Query
