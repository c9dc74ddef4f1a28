import Supercov.Analysis.Core
import Supercov.Library.JsonValue

/-!
# Obligations and evidence

The manifest a frontend writes and the records its processes do, as the report
reads them.
-/

namespace Supercov.Report

open Analysis (McdcVector PointKind)

structure DecisionMeta where
  id : String
  file : String
  line : Nat
  column : Nat
  source : String
  conditions : List String
  kind : String
  deriving DecidableEq

structure PointMeta where
  id : String
  kind : PointKind
  file : String
  line : Nat
  column : Nat
  source : String
  label : Option String
  deriving DecidableEq

structure BranchAlternativeMeta where
  id : String
  label : String
  deriving DecidableEq

structure BranchMeta where
  id : String
  kind : String
  file : String
  line : Nat
  column : Nat
  source : String
  alternatives : List BranchAlternativeMeta
  deriving DecidableEq

structure CoverageManifest where
  decisions : List DecisionMeta
  points : List PointMeta
  branches : List BranchMeta
  limitations : List JsonValue
  /-- The obligations the frontend declined to measure. -/
  unmeasured : List String
  scope : Option JsonValue

structure DecisionSnapshot where
  id : String
  vectors : List McdcVector
  deriving DecidableEq

structure RuntimeEvent where
  eventType : String
  id : String
  vector : Option McdcVector
  timestampMs : Int
  phaseId : Option String
  environment : String
  deriving DecidableEq

structure RuntimeSnapshot where
  decisions : List DecisionSnapshot
  hits : List String
  events : List RuntimeEvent
  /-- The phase that all of it happened in, where the frontend says one. -/
  phaseId : Option String
  deriving DecidableEq

structure ExecutionScope where
  version : Nat
  runId : String
  workerId : String
  testId : String
  testKey : String
  retry : Nat
  attemptId : String
  deriving DecidableEq

structure ServerRecord where
  recordType : String
  vector : Option McdcVector
  id : Option String
  timestampMs : Option Int
  phaseId : Option String
  scope : Option ExecutionScope
  /-- The request it was made for, where that named no test. -/
  request : Option Nat
  deriving DecidableEq

structure CoveragePhase where
  id : String
  kind : String
  operation : String
  source : Option String
  causedByPhaseId : Option String
  startedAtMs : Int
  endedAtMs : Option Int
  status : Option String
  error : Option String
  deriving DecidableEq

structure TestProvenance where
  runner : String
  kind : String
  project : Option String
  source : String
  tags : List String
  deriving DecidableEq

structure RawTestResult where
  testId : Option String
  scope : Option ExecutionScope
  test : String
  testFile : Option String
  title : Option String
  retry : Option Nat
  status : Option String
  expectedStatus : Option String
  flaky : Bool
  provenance : TestProvenance
  role : String
  attribution : String
  phases : List CoveragePhase
  runtime : List RuntimeSnapshot
  browser : List RuntimeSnapshot
  server : List ServerRecord
  span : Option (Int × Int)
  deriving DecidableEq

def attributionExact : String := "exact"
def attributionRunWide : String := "run-wide"
def attributionPartial : String := "partial"
def attributionByTime : String := "by-time"

def rawTestId (raw : RawTestResult) : String := raw.testId.getD raw.test

/-- Of two attributions for one test, the one that claims less. -/
def leastExact (left right : String) : String :=
  let rank (attribution : String) : Nat :=
    if attribution = attributionRunWide then 3
    else if attribution = attributionPartial then 2
    else if attribution = attributionByTime then 1
    else 0
  if rank right > rank left then right else left

def coverageIsItsOwn (attribution : String) : Bool := attribution ≠ attributionRunWide

end Supercov.Report
