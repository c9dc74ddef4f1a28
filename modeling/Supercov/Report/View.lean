import Supercov.Library.Ordered
import Supercov.Report.Evidence
import Supercov.Report.Ingest
import Mathlib.Data.Prod.Lex

/-!
# Declined obligations

A frontend declines an obligation by its id, and a file by a limitation that says
it could not be measured at all.

What a report shows of a manifest and its evidence: which test reached each
obligation, what was covered, and the counts of all that was measured.
-/

namespace Supercov.Report

def outcomeId (decision : String) : String := decision ++ ":outcome"

def outcomeAlternative (decision : String) (outcome : Bool) : String :=
  outcomeId decision ++ if outcome then ":true" else ":false"

def isWholeFile (limitation : JsonValue) : Bool := (limitation.get "wholeFile").asBool = some true

/-- The files no frontend could measure, each with why. -/
def wholeFileReasons (manifest : CoverageManifest) : List (String × String) :=
  Ordered.mapOf <| (manifest.limitations.filter isWholeFile).filterMap fun limitation => do
    let file ← (limitation.get "file").asStr
    let reason ← (limitation.get "reason").asStr
    return (file, reason)

/-- Every obligation of these files.  A decision goes with the outcome branch the
report makes for one declared without it. -/
def obligationsOf (manifest : CoverageManifest) (declines : String → Bool) : List String :=
  (manifest.points.filter fun point => declines point.file).map (·.id) ++
    (manifest.decisions.filter fun decision => declines decision.file).flatMap (fun decision =>
      [decision.id, outcomeAlternative decision.id true, outcomeAlternative decision.id false,
        outcomeId decision.id]) ++
    (manifest.branches.filter fun branch => declines branch.file).flatMap fun branch =>
      branch.id :: branch.alternatives.map (·.id)

/-- The notes that stay: a whole file's own, which blocks, and those of other files. -/
def settleLimitation (declines : String → Bool) (limitation : JsonValue) : Option JsonValue :=
  if isWholeFile limitation then
    some (limitation.insert "blocking" (.bool true))
  else
    match (limitation.get "file").asStr with
    | none => some limitation
    | some file => if declines file then none else some limitation

/-- The scope's entries with these files left out of it, each for its reason. -/
def excludeEntries (unlisted : List (String × String)) : List JsonValue → List JsonValue
  | [] => unlisted.map fun (file, reason) =>
      .object [("file", .string file), ("status", .string "excluded"), ("reason", .string reason)]
  | entry :: entries =>
    match (entry.get "file").asStr with
    | none => entry :: excludeEntries unlisted entries
    | some file =>
      match unlisted.lookup file with
      | none => entry :: excludeEntries unlisted entries
      | some reason =>
        (entry.insert "status" (.string "excluded")).insert "reason" (.string reason) ::
          excludeEntries (unlisted.filter (·.1 ≠ file)) entries

def wholeFilesUnmeasured (manifest : CoverageManifest) : Option CoverageManifest :=
  let reasons := wholeFileReasons manifest
  let declines (file : String) : Bool := (reasons.lookup file).isSome
  if reasons.isEmpty then
    none
  else
    some
      { manifest with
        unmeasured := Ordered.setOf (manifest.unmeasured ++ obligationsOf manifest declines)
        limitations := manifest.limitations.filterMap (settleLimitation declines)
        scope := manifest.scope.map fun scope =>
          match (scope.get "entries").asArray with
          | some entries => scope.insert "entries" (.array (excludeEntries reasons entries))
          | none => scope }

def settled (manifest : CoverageManifest) : CoverageManifest :=
  (wholeFilesUnmeasured manifest).getD manifest

theorem decisions_settled (manifest : CoverageManifest) :
    (settled manifest).decisions = manifest.decisions := by
  unfold settled wholeFilesUnmeasured
  dsimp only
  split <;> rfl

def declineBranch (declined : List String) (branch : BranchMeta) : List String :=
  if branch.alternatives ≠ [] ∧ ∀ alternative ∈ branch.alternatives, alternative.id ∈ declined then
    branch.id :: declined
  else
    declined

def declinedOf (manifest : CoverageManifest) : List String :=
  manifest.branches.foldl declineBranch manifest.unmeasured

open Analysis (McdcVector WitnessIndexes CoverageSummary CoverageCoreInput findWitnessesForConditions
  analyzeCore)
open Ordered (put setOf)

structure CoverageConfidence where
  level : String
  setupOnly : Bool
  backgroundOnly : Bool
  tests : List String
  runners : List String
  kinds : List String
  e2e : Bool

structure VectorObservation where
  vector : McdcVector
  tests : List String
  phases : List String
  explicitPhases : List String
  confidence : CoverageConfidence

structure ConditionResult where
  index : Nat
  source : String
  covered : Bool
  witness : Option (McdcVector × McdcVector)
  witnessTests : Option (List String × List String)

structure DecisionResult where
  decision : DecisionMeta
  executed : Bool
  covered : Bool
  vectors : List McdcVector
  vectorObservations : List VectorObservation
  conditions : List ConditionResult
  tests : List String
  confidence : CoverageConfidence

structure PointResult where
  point : PointMeta
  covered : Bool
  measured : Bool
  tests : List String
  phases : List String
  confidence : CoverageConfidence

structure AlternativeResult where
  id : String
  label : String
  covered : Bool
  tests : List String
  phases : List String
  confidence : CoverageConfidence

structure BranchResult where
  branch : BranchMeta
  covered : Bool
  alternatives : List AlternativeResult

/-- A file and a line of it, in the order files and lines come in. -/
abbrev SourceLine := String ×ₗ Nat

/-- One line's share of the points on it. -/
structure LineAggregate where
  covered : Bool
  measured : Bool
  tests : List String
  phases : List String
  explicitPhases : List String

structure LineResult where
  location : SourceLine
  covered : Bool
  measured : Bool
  tests : List String
  runners : List String
  kinds : List String
  exclusiveKind : Option String
  phases : List String
  confidence : CoverageConfidence

structure TestDecisionResult where
  id : String
  vectors : List McdcVector

structure TestCoverageResult where
  id : String
  name : String
  file : Option String
  title : Option String
  retries : List Nat
  attempts : List TestAttempt
  outcome : String
  provenance : TestProvenance
  role : String
  attribution : String
  hits : List String
  decisions : List TestDecisionResult
  lines : List SourceLine

structure TestFileResult where
  file : String
  tests : List String
  runners : List String
  kinds : List String
  lines : List SourceLine

structure PhaseResult where
  phase : CoveragePhase
  test : String
  hits : List String
  decisions : List TestDecisionResult
  lines : List SourceLine
  browserEvents : Nat
  serverEvents : Nat
  explicitEvents : Nat
  inferredEvents : Nat
  explicitBrowserEvents : Nat
  inferredBrowserEvents : Nat
  explicitServerEvents : Nat
  inferredServerEvents : Nat

structure DimensionCoverage where
  kind : Option String
  runner : Option String
  tests : Nat
  setups : Nat
  attributed : Nat
  summary : CoverageSummary

structure CoverageModelDeclaration where
  language : String
  variant : String
  name : String
  completenessMeaning : String
  measured : List String
  notMeasured : List String

structure CoverageView where
  generatedAt : String
  scope : Option JsonValue
  model : CoverageModelDeclaration
  limitations : List JsonValue
  summary : CoverageSummary
  coverageByKind : List DimensionCoverage
  coverageByRunner : List DimensionCoverage
  decisions : List DecisionResult
  points : List PointResult
  branches : List BranchResult
  tests : List TestCoverageResult
  testFiles : List TestFileResult
  phases : List PhaseResult
  lines : List LineResult

namespace Ingest

variable (ingest : Ingest)

def recordOf (test : String) : Option MutableTest := ingest.tests.lookup test

/-- How tests and phases say something was reached. -/
def confidence (tests phases explicit : List String) : CoverageConfidence :=
  let traits := tests.filterMap ingest.recordOf
  let kinds := setOf (traits.map (·.provenance.kind))
  let phaseKinds (names : List String) : List String :=
    names.filterMap fun name => (ingest.phases.lookup name).map (·.phase.kind)
  let only (role : String) : Bool :=
    if phases.isEmpty then !tests.isEmpty && traits.all (·.role = role)
    else (phaseKinds phases).all (· = role)
  { level :=
      if tests.isEmpty then "unexecuted"
      else if "action" ∈ phaseKinds explicit then "action"
      else "executed"
    setupOnly := only "setup"
    backgroundOnly := only "background"
    tests
    runners := setOf (traits.map (·.provenance.runner))
    kinds
    e2e := decide ("e2e" ∈ kinds) }

def vectorObservation (observation : MutableObservation) : VectorObservation :=
  let tests := setOf observation.tests
  let phases := setOf observation.phases
  let explicit := setOf observation.explicitPhases
  { vector := observation.vector
    tests
    phases
    explicitPhases := explicit
    confidence := ingest.confidence tests phases explicit }

/-- One outcome of a decision, from the vectors that ended in it. -/
def outcomeResult (decision : DecisionMeta) (outcome : Bool) : AlternativeResult :=
  let observed := (ingest.observations decision.id).filter (·.vector.outcome = outcome)
  let tests := setOf (observed.flatMap (·.tests))
  let phases := setOf (observed.flatMap (·.phases))
  let explicit := setOf (observed.flatMap (·.explicitPhases))
  { id := outcomeAlternative decision.id outcome
    label := if outcome then "true" else "false"
    covered := !tests.isEmpty
    tests
    phases
    confidence := ingest.confidence tests phases explicit }

/-- The branch made for a decision declared without one. -/
def outcomeBranch (decision : DecisionMeta) : BranchResult :=
  let alternatives := [true, false].map (ingest.outcomeResult decision)
  { branch :=
      { id := outcomeId decision.id
        kind := decision.kind
        file := decision.file
        line := decision.line
        column := decision.column
        source := decision.source
        alternatives := alternatives.map fun alternative =>
          { id := alternative.id, label := alternative.label } }
    covered := alternatives.all (·.covered)
    alternatives }

def conditionResult (observations : List VectorObservation) (source : String) (index : Nat)
    (witness : Option WitnessIndexes) : ConditionResult where
  index := index
  source := source
  covered := witness.isSome
  witness := do
    let witness ← witness
    let first ← observations[witness.first]?
    let second ← observations[witness.second]?
    return (first.vector, second.vector)
  witnessTests := do
    let witness ← witness
    let first ← observations[witness.first]?
    let second ← observations[witness.second]?
    return (first.tests, second.tests)

def decisionResult (decision : DecisionMeta) : Outcome ReportError DecisionResult :=
  let observations := (ingest.observations decision.id).map ingest.vectorObservation
  let vectors := observations.map (·.vector)
  match findWitnessesForConditions vectors decision.conditions.length with
  | .error error => .refused (.decisionAnalysis decision.id error)
  | .ok witnesses =>
    let conditions := (decision.conditions.zip witnesses).mapIdx fun index (source, witness) =>
      conditionResult observations source index witness
    let tests := setOf (ingest.testsByDecision decision.id)
    .ok
      { decision
        executed := !vectors.isEmpty
        covered := conditions.all (·.covered)
        vectors
        vectorObservations := observations
        conditions
        tests
        confidence :=
          ingest.confidence tests (setOf (observations.flatMap (·.phases)))
            (setOf (observations.flatMap (·.explicitPhases))) }

def without (decision : String) : Ingest :=
  { ingest with
    observations := Function.update ingest.observations decision []
    testsByDecision := Function.update ingest.testsByDecision decision [] }

/-- The results of the decisions in turn, and the outcome branches made for them. -/
def decisionResults (declaredBranches : List String) (ingest : Ingest) :
    List DecisionMeta → Outcome ReportError (List DecisionResult × List BranchResult)
  | [] => .ok ([], [])
  | decision :: rest => do
    let result ← ingest.decisionResult decision
    let (results, branches) ←
      decisionResults declaredBranches (ingest.without decision.id) rest
    if outcomeId decision.id ∈ declaredBranches then
      return (result :: results, branches)
    else
      return (result :: results, ingest.outcomeBranch decision :: branches)

def pointResult (declined : List String) (point : PointMeta) : PointResult :=
  let tests := setOf (ingest.testsByHit point.id)
  let phases := setOf (ingest.phasesByHit point.id)
  { point
    covered := !(ingest.testsByHit point.id).isEmpty
    measured := point.id ∉ declined
    tests
    phases
    confidence :=
      ingest.confidence tests phases (setOf (ingest.explicitPhasesByHit point.id)) }

def alternativeResult (alternative : BranchAlternativeMeta) : AlternativeResult :=
  let tests := setOf (ingest.testsByHit alternative.id)
  let phases := setOf (ingest.phasesByHit alternative.id)
  { id := alternative.id
    label := alternative.label
    covered := !(ingest.testsByHit alternative.id).isEmpty
    tests
    phases
    confidence :=
      ingest.confidence tests phases (setOf (ingest.explicitPhasesByHit alternative.id)) }

def branchResult (declined : List String) (branch : BranchMeta) : BranchResult :=
  let kept := branch.alternatives.filter (·.id ∉ declined)
  let alternatives := kept.map ingest.alternativeResult
  { branch := { branch with alternatives := kept }
    covered := alternatives.all (·.covered)
    alternatives }

/-- The line with one more point on it: a declined one makes it no more than listed. -/
def foldPoint (declined : List String) (lines : List (SourceLine × LineAggregate))
    (result : PointResult) : List (SourceLine × LineAggregate) :=
  let location : SourceLine := toLex (result.point.file, result.point.line)
  let held := (Ordered.find location lines).getD
    { covered := false, measured := false, tests := [], phases := [], explicitPhases := [] }
  let aggregate : LineAggregate :=
    if result.point.id ∈ declined then held
    else
      { covered := held.covered || result.covered
        measured := true
        tests := held.tests ++ ingest.testsByHit result.point.id
        phases := held.phases ++ ingest.phasesByHit result.point.id
        explicitPhases := held.explicitPhases ++ ingest.explicitPhasesByHit result.point.id }
  put location aggregate lines

def lineResult (line : SourceLine × LineAggregate) : LineResult :=
  let tests := setOf line.2.tests
  let phases := setOf line.2.phases
  let traits := tests.filterMap ingest.recordOf
  let kinds := setOf (traits.map (·.provenance.kind))
  { location := line.1
    covered := line.2.covered
    measured := line.2.measured
    tests
    runners := setOf (traits.map (·.provenance.runner))
    kinds
    exclusiveKind := if kinds.length = 1 then kinds.head? else none
    phases
    confidence := ingest.confidence tests phases (setOf line.2.explicitPhases) }

end Ingest

/-- Where the points reached are, each place once. -/
def linesOf (points : List PointMeta) (hits : List String) : List SourceLine :=
  setOf <| hits.filterMap fun hit =>
    -- The last of several points of one id.
    (points.reverse.find? (·.id = hit)).map fun point => toLex (point.file, point.line)

def testResult (points : List PointMeta) (test : MutableTest) : TestCoverageResult where
  id := test.id
  name := test.name
  file := test.file
  title := test.title
  retries := test.retries
  attempts := test.attempts.map (·.2)
  outcome := testOutcome test
  provenance := test.provenance
  role := test.role
  attribution := test.attribution
  hits := setOf test.hits
  decisions := test.decisions.map fun (id, vectors) => { id, vectors }
  lines := linesOf points test.hits

def Ingest.testResults (ingest : Ingest) (points : List PointMeta) : List TestCoverageResult :=
  ((ingest.testOrder.filterMap ingest.recordOf).insertionSort (·.name ≤ ·.name)).map
    (testResult points)

def addToFile (files : List (String × TestFileResult)) (test : TestCoverageResult) :
    List (String × TestFileResult) :=
  let file := test.file.getD "(unknown test file)"
  let held := (files.lookup file).getD { file, tests := [], runners := [], kinds := [], lines := [] }
  put file
    { held with
      tests := setOf (held.tests ++ [test.id])
      runners := setOf (held.runners ++ [test.provenance.runner])
      kinds := setOf (held.kinds ++ [test.provenance.kind])
      lines := setOf (held.lines ++ test.lines) }
    files

def testFileResults (tests : List TestCoverageResult) : List TestFileResult :=
  (tests.foldl addToFile []).map (·.2)

def phaseResult (points : List PointMeta) (phase : MutablePhase) : PhaseResult where
  phase := phase.phase
  test := phase.test
  hits := setOf phase.hits
  decisions := phase.decisions.map fun (id, vectors) => { id, vectors }
  lines := linesOf points phase.hits
  browserEvents := phase.browserEvents
  serverEvents := phase.serverEvents
  explicitEvents := phase.explicitEvents
  inferredEvents := phase.inferredEvents
  explicitBrowserEvents := phase.explicitBrowserEvents
  inferredBrowserEvents := phase.inferredBrowserEvents
  explicitServerEvents := phase.explicitServerEvents
  inferredServerEvents := phase.inferredServerEvents

def Ingest.phaseResults (ingest : Ingest) (points : List PointMeta) : List PhaseResult :=
  ((ingest.phases.map (·.2)).insertionSort fun left right =>
      toLex (left.phase.startedAtMs, left.phase.id) ≤
        toLex (right.phase.startedAtMs, right.phase.id)).map
    (phaseResult points)

/-- What a summary counts: everything, or what these tests reached. -/
def coreInput (decisions : List DecisionResult) (points : List PointResult)
    (branches : List BranchResult) (lines : List LineResult) (testIds : Option (List String)) :
    CoverageCoreInput :=
  let includes (tests : List String) (covered : Bool) : Bool :=
    match testIds with
    | none => covered
    | some selected => tests.any (· ∈ selected)
  { decisions := decisions.map fun decision =>
      { conditionCount := decision.decision.conditions.length
        vectors :=
          (decision.vectorObservations.filter fun observation =>
            includes observation.tests true).map (·.vector) }
    points := points.map fun point =>
      { kind := point.point.kind, covered := includes point.tests point.covered }
    branches := branches.map fun branch =>
      { kind := branch.branch.kind
        alternatives := branch.alternatives.map fun alternative =>
          includes alternative.tests alternative.covered }
    -- A line that was declined whole is not in the total.
    lines := (lines.filter (·.measured)).map fun line => includes line.tests line.covered }

def summaryForResults (decisions : List DecisionResult) (points : List PointResult)
    (branches : List BranchResult) (lines : List LineResult) (testIds : Option (List String)) :
    Outcome ReportError CoverageSummary :=
  match analyzeCore (coreInput decisions points branches lines testIds) with
  | .ok output => .ok output.summary
  | .error error => .refused (.analysis error)

/-- Says nothing of blocking: blocks. -/
def blockingLimitation (limitation : JsonValue) : Bool :=
  (limitation.get "blocking").asBool.getD true

/-- The rows of a dimension, a row for each value that a test has of it. -/
def dimensionCoverage (value : TestProvenance → String)
    (row : String → Option String × Option String) (tests : List TestCoverageResult)
    (summaryOf : List String → Outcome ReportError CoverageSummary) :
    Outcome ReportError (List DimensionCoverage) :=
  Outcome.collect (fun own => do
    let inDimension := tests.filter fun test => value test.provenance = own
    let selected := setOf ((inDimension.filter (coverageIsItsOwn ·.attribution)).map (·.id))
    let counted := inDimension.map (·.id)
    let among (ids : List String) (role : String) : Nat :=
      (tests.filter fun test => test.id ∈ ids ∧ test.role = role).length
    let summary ←
      match summaryOf selected with
      | .ok summary => Outcome.ok summary
      -- "summarised whole above"
      | _ => .crashed
    .ok
      { kind := (row own).1
        runner := (row own).2
        tests := among counted "test"
        setups := among counted "setup"
        attributed := among selected "test"
        summary })
    (setOf (tests.map (value ·.provenance)))

def decisionOrder (left right : DecisionMeta) : Prop :=
  toLex (left.file, toLex (left.line, left.column)) ≤
    toLex (right.file, toLex (right.line, right.column))

instance : DecidableRel decisionOrder := fun _ _ =>
  inferInstanceAs (Decidable (_ ≤ _))

/-- The counts of a view, with what was declined beside them. -/
def viewSummary (manifest : CoverageManifest) (total measured : Nat) (summary : CoverageSummary) :
    CoverageSummary :=
  let blocked := manifest.limitations.any blockingLimitation
  { summary with
    unmeasuredObligations := if total > measured then some (total - measured) else none
    exactFractionPct := if total > measured then some ((measured : ℚ) * 100 / total) else none
    coverageComplete := summary.coverageComplete && !blocked
    completenessBlocked := if blocked then some true else summary.completenessBlocked }

def createCoverageView (declared : CoverageManifest) (rawResults : List RawTestResult)
    (generatedAt : String) (model : CoverageModelDeclaration) : Outcome ReportError CoverageView := do
  let manifest := settled declared
  let ingest ← ingestResults manifest rawResults
  let declined := declinedOf manifest
  let (decisions, outcomeBranches) ←
    ingest.decisionResults (manifest.branches.map (·.id))
      (manifest.decisions.insertionSort decisionOrder)
  let points := manifest.points.map (ingest.pointResult declined)
  let branches := manifest.branches.map (ingest.branchResult declined) ++ outcomeBranches
  let lines := (points.foldl (ingest.foldPoint declined) []).map ingest.lineResult
  let tests := ingest.testResults manifest.points
  let total := decisions.length + points.length + branches.length
  let decisions := decisions.filter (·.decision.id ∉ declined)
  let points := points.filter (·.point.id ∉ declined)
  let branches := branches.filter (·.branch.id ∉ declined)
  let measured := decisions.length + points.length + branches.length
  let summary ← summaryForResults decisions points branches lines none
  let summaryOf (selected : List String) :=
    summaryForResults decisions points branches lines (some selected)
  let coverageByKind ←
    dimensionCoverage (·.kind) (fun own => (some own, none)) tests summaryOf
  let coverageByRunner ←
    dimensionCoverage (·.runner) (fun own => (none, some own)) tests summaryOf
  .ok
    { generatedAt
      scope := manifest.scope
      model
      limitations := manifest.limitations
      summary := viewSummary manifest total measured summary
      coverageByKind
      coverageByRunner
      decisions
      points
      branches
      tests
      testFiles := testFileResults tests
      phases := ingest.phaseResults manifest.points
      lines }

end Supercov.Report
