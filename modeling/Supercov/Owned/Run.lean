import Supercov.Owned.Evidence
import Supercov.Report.Evidence

/-!
# One result for each test

A test's result holds what its record reached and evaluated; the background
result holds the probes of the run's totals that no test's record claims.
Digests are a parameter.
-/

namespace Supercov.Owned

open Analysis (McdcVector)
open Merge (FrontendRunDeclaration)
open Ordered (setOf)
open Supercov.Report
open Supercov.Runtime

inductive GoProbeTarget where
  | statement (id : String)
  | function (id : String)
  | alternative (branch alternative : String)
  deriving DecidableEq, Repr

def GoProbeTarget.obligation : GoProbeTarget → String
  | .statement id => id
  | .function id => id
  | .alternative _ id => id

structure CoverageReportRequest (Model : Type) where
  runId : String
  manifest : CoverageManifest
  rawResults : List RawTestResult
  generatedAt : String
  coverageModel : Option Model
  testExitCode : Option Int

/-- Everything a report needs about one run of one owned frontend, which
declares a runner and names each limitation. -/
structure OwnedRunInputs (Detail Model : Type) where
  declaration : FrontendRunDeclaration Detail
  environment : String
  manifest : CoverageManifest
  probes : List (Word × GoProbeTarget)
  evidence : OwnedEvidence
  outcomes : List OwnedTestOutcome
  runId : String
  generatedAt : String
  testExitCode : Int
  coverageModel : Model
  declares : declaration.runners ≠ []
  named : ∀ limitation ∈ manifest.limitations, (limitation.get "id").asStr.isSome

theorem nil_named : ∀ limitation ∈ ([] : List JsonValue), (limitation.get "id").asStr.isSome := by
  simp

structure OwnedFrontendRun (Detail Model : Type) where
  declaration : FrontendRunDeclaration Detail
  request : CoverageReportRequest Model
  tests : Nat

def testPhase (testId : String) : String := testId ++ "#call"

/-- The obligation a probe answers for: probes are numbered in 64 bits and
recorded in 32, and the last of those with one record's number counts. -/
def obligations (probes : List (Word × GoProbeTarget)) (probe : Index) : Option String :=
  (probes.reverse.find? fun entry => entry.1.setWidth 32 = probe).map (·.2.obligation)

def keysOf (vectors : List PackedVector) (decision : Index) : List Word :=
  (vectors.filter fun vector => vector.decision = decision).map (·.key)

/-- What the keys say of one decision, a vector's width being eight bits. -/
def observed (decision : DecisionMeta) (keys : List Word) : DecisionSnapshot where
  id := decision.id
  vectors := keys.map fun key => unpackVector key (decision.conditions.length % 256)

def observedDecisions (manifest : CoverageManifest) (vectors : List PackedVector) :
    List DecisionSnapshot :=
  manifest.decisions.zipIdx.filterMap fun entry =>
    match keysOf vectors (.ofNat 32 entry.2) with
    | [] => none
    | keys => some (observed entry.1 keys)

def observedHits (byProbe : Index → Option String) (probes : List (Index × BitVec 32)) :
    List String :=
  setOf (probes.filterMap fun hit => byProbe hit.1)

def snapshot (environment : String) (evidence : OwnedTestEvidence) (manifest : CoverageManifest)
    (byProbe : Index → Option String) (phase : String) : RuntimeSnapshot :=
  let hits := observedHits byProbe evidence.probes
  let decisions := observedDecisions manifest evidence.vectors
  let hit (id : String) (clock : Int) : RuntimeEvent :=
    { eventType := "hit", id, vector := none, timestampMs := clock, phaseId := some phase,
      environment }
  let decision (id : String) (vector : McdcVector) (clock : Int) : RuntimeEvent :=
    { eventType := "decision", id, vector := some vector, timestampMs := clock,
      phaseId := some phase, environment }
  let events :=
    hits.map hit ++ decisions.flatMap fun seen => seen.vectors.map (decision seen.id)
  -- One clock counts every event, of hits and then of decisions.
  { decisions, hits, events := events.zipIdx.map fun event => event.1 event.2, phaseId := none }

/-- The kind a tag names, as `@e2e` does. -/
def fromTags (tags : List String) : Option String :=
  tags.findSome? fun tag =>
    ["unit", "component", "integration", "e2e"].find? fun kind =>
      (tag.toList.dropWhile (· = '@')).map Char.toLower = kind.toList

section Build

variable {Detail Model : Type} (digest : List String → String)

def stableId (label : String) (values : List String) : String := label ++ ":" ++ digest values

variable (inputs : OwnedRunInputs Detail Model)

def OwnedRunInputs.byProbe : Index → Option String := obligations inputs.probes

def OwnedRunInputs.defaultRunner : String :=
  (inputs.declaration.runners.head inputs.declares).runner

def recorded (tests : List OwnedTestEvidence) (name : String) : Option OwnedTestEvidence :=
  tests.reverse.find? fun test => test.name = name

/-- The record an outcome's result is made from; an empty one for a test nothing
could be credited to. -/
def OwnedRunInputs.recordOf (outcome : OwnedTestOutcome) : OwnedTestEvidence :=
  if outcome.attributed then (recorded inputs.evidence.tests outcome.name).getD .empty else .empty

def OwnedRunInputs.testProvenance (outcome : OwnedTestOutcome) : TestProvenance where
  runner :=
    if outcome.runner ∈ inputs.declaration.runners.map (·.runner) then outcome.runner
    else inputs.defaultRunner
  kind := (fromTags (inputs.recordOf outcome).tags).getD "unit"
  project := some outcome.package
  source := inputs.declaration.frontendVersion
  tags := (inputs.recordOf outcome).tags

def OwnedRunInputs.testResult (outcome : OwnedTestOutcome) : RawTestResult :=
  let testId := outcome.package ++ "::" ++ outcome.name
  let phase := testPhase testId
  { testId := some testId
    scope := some
      { version := 1
        runId := inputs.runId
        workerId := outcome.package
        testId
        testKey := stableId digest "owned-test" [outcome.package, outcome.name]
        retry := 0
        attemptId :=
          stableId digest "owned-attempt" [inputs.runId, outcome.package, outcome.name, "0"] }
    test := outcome.name
    testFile := outcome.file
    title := none
    retry := some 0
    status := some outcome.status
    expectedStatus := none
    flaky := false
    provenance := inputs.testProvenance outcome
    role := "test"
    attribution := if outcome.attributed then attributionExact else attributionRunWide
    phases :=
      [{ id := phase
         kind := "test"
         operation := (inputs.testProvenance outcome).runner ++ " " ++ outcome.name
         source := outcome.file
         causedByPhaseId := none
         startedAtMs := 0
         endedAtMs := none
         status := some outcome.status
         error := none }]
    runtime :=
      [snapshot inputs.environment (inputs.recordOf outcome) inputs.manifest inputs.byProbe phase]
    browser := []
    server := []
    span := none }

/-- The probes of every record something could be credited to. -/
def claimed (tests : List OwnedTestEvidence) : List Index :=
  (tests.filter fun test => !test.unattributed).flatMap fun test => test.probes.map (·.1)

/-- The probes the run reached that no record claims. -/
def unclaimed (evidence : OwnedEvidence) : List (Index × BitVec 32) :=
  evidence.global.zipIdx.filterMap fun (mask, index) =>
    if mask ≠ 0 ∧ BitVec.ofNat 32 index ∉ claimed evidence.tests then
      some (.ofNat 32 index, mask)
    else
      none

def OwnedRunInputs.background : RawTestResult :=
  let status := if inputs.testExitCode = 0 then "passed" else "failed"
  let testId := inputs.declaration.language ++ "::background"
  let phase := testPhase testId
  let background : OwnedTestEvidence :=
    { name := "background"
      status := "unknown"
      runner := ""
      tags := []
      unattributed := false
      probes := unclaimed inputs.evidence
      vectors := [] }
  { testId := some testId
    scope := some
      { version := 1
        runId := inputs.runId
        workerId := "background"
        testId
        testKey := stableId digest "owned-background" [inputs.runId]
        retry := 0
        attemptId := stableId digest "owned-background-attempt" [inputs.runId] }
    test := "execution no test could be credited with"
    testFile := none
    title := none
    retry := some 0
    status := some status
    expectedStatus := none
    flaky := false
    provenance :=
      { runner := inputs.defaultRunner
        kind := "background"
        project := none
        source := inputs.declaration.frontendVersion
        tags := [] }
    role := "background"
    attribution := attributionExact
    phases :=
      [{ id := phase
         kind := "background"
         operation := "execution outside any test"
         source := none
         causedByPhaseId := none
         startedAtMs := 0
         endedAtMs := some 0
         status := some status
         error := none }]
    runtime := [snapshot inputs.environment background inputs.manifest inputs.byProbe phase]
    browser := []
    server := []
    span := none }

def OwnedRunInputs.rawResults : List RawTestResult :=
  inputs.outcomes.map (inputs.testResult digest) ++
    if unclaimed inputs.evidence = [] then [] else [inputs.background digest]

/-- The run names what its manifest could not measure, and the runners it
observed. -/
def buildFrontendRun : OwnedFrontendRun Detail Model :=
  let rawResults := inputs.rawResults digest
  let runners := rawResults.map (·.provenance.runner)
  { declaration :=
      { inputs.declaration with
        structuralLimitations := setOf (inputs.manifest.limitations.filterMap fun limitation =>
          (limitation.get "id").asStr)
        runners := inputs.declaration.runners.filter fun runner => runner.runner ∈ runners }
    request :=
      { runId := inputs.runId
        manifest := inputs.manifest
        rawResults
        generatedAt := inputs.generatedAt
        coverageModel := some inputs.coverageModel
        testExitCode := some inputs.testExitCode }
    tests := rawResults.length }

end Build

/-- A package of a Go run, or a module of a JVM one, whose process wrote what it
recorded. -/
structure Package where
  directory : String
  declaredIn : String → Option String
  evidence : OwnedEvidence

def Package.outcome (package : Package) (test : OwnedTestEvidence) : OwnedTestOutcome where
  name := test.name
  package := package.directory
  file := package.declaredIn test.name
  status := test.status
  runner := test.runner
  attributed := !test.unattributed

/-- What a run hands over of the processes that wrote something: every record's
outcome, and all they wrote as one. -/
def OwnedRunInputs.ofPackages {Detail Model : Type} (inputs : OwnedRunInputs Detail Model)
    (packages : List Package) : OwnedRunInputs Detail Model :=
  { inputs with
    outcomes := packages.flatMap fun package => package.evidence.tests.map package.outcome
    evidence := mergeEvidence (packages.map (·.evidence)) }

end Supercov.Owned
