import Supercov.Request.Phases

/-!
# What a request has to satisfy

A frontend's evidence against its declaration: limitations and runners that agree,
identities that are there where they are declared exact, and phases each declared
once, in the result that refers to them.
-/

namespace Supercov.Request

open Outcome
open Report (RawTestResult CoverageManifest CoveragePhase)

def present (value : String) : Bool := !isBlank value && !(value.toList.any isControl)

def addManifestLimitation (ids : List String) (limitation : JsonValue) :
    Outcome FrontendProtocolError (List String) :=
  match (limitation.get "id").asStr with
  | none => .refused .invalidManifestLimitation
  | some id => do
    refuseIf (id = "") .invalidManifestLimitation
    refuseIf (id ∈ ids) (.duplicateManifestLimitation id)
    return ids ++ [id]

def manifestLimitationIds (manifest : CoverageManifest) :
    Outcome FrontendProtocolError (List String) :=
  manifest.limitations.foldlM addManifestLimitation []

def hasAttributableObservations (raw : RawTestResult) : Bool :=
  !raw.phases.isEmpty || !raw.server.isEmpty ||
    (raw.runtime ++ raw.browser).any fun snapshot =>
      !snapshot.decisions.isEmpty || !snapshot.hits.isEmpty || !snapshot.events.isEmpty

def missing (runner : RunnerDeclaration) (axis : String) : FrontendProtocolError :=
  .missingExactIdentity runner.runner axis

/-- The scope of a result, or what it lacks without one. -/
def requireScope (runner : RunnerDeclaration) (raw : RawTestResult) (runId : String) :
    Outcome FrontendProtocolError PUnit :=
  let attribution := runner.detail.attribution
  match raw.scope with
  | some scope => do
    refuseIf (scope.runId ≠ runId) (.scopeRunMismatch runId scope.runId)
    refuseIf (attribution.worker = .exact ∧ present scope.workerId = false)
      (missing runner "worker")
    refuseIf (attribution.test = .exact ∧
        (present scope.testId = false ∨ raw.testId ≠ some scope.testId))
      (missing runner "test")
    if attribution.retry = .exact then
      match raw.retry with
      | none => .refused (missing runner "retry")
      | some retry =>
        refuseIf (retry ≠ scope.retry) (.retryMismatch runner.runner retry scope.retry)
    else
      .ok ⟨⟩
  | none => do
    refuseIf (attribution.worker = .exact ∧ hasAttributableObservations raw)
      (missing runner "worker")
    refuseIf (attribution.retry = .exact ∧ raw.retry = none ∧ raw.status ≠ some "unstarted")
      (missing runner "retry")

def phaseKinds : List String := ["setup", "test", "action", "assertion", "teardown", "background"]

/-- One phase of a result more: the ids of those before it, here and anywhere. -/
def requirePhase (runner : RunnerDeclaration) (held : List String × List String)
    (phase : CoveragePhase) : Outcome FrontendProtocolError (List String × List String) := do
  refuseIf (phase.kind ∉ phaseKinds) (.invalidPhaseKind phase.kind)
  refuseIf (runner.detail.attribution.phase = .exact ∧ present phase.id = false)
    (missing runner "phase")
  refuseIf (phase.id ∈ held.1) (.duplicatePhase phase.id)
  refuseIf (phase.id ∈ held.2) (.duplicatePhase phase.id)
  return (held.1 ++ [phase.id], held.2 ++ [phase.id])

def requireReference (own : List String) (reference : Option String) :
    Outcome FrontendProtocolError PUnit :=
  match reference with
  | none => .ok ⟨⟩
  | some id => refuseIf (present id = false ∨ id ∉ own) (.unknownPhaseReference id)

def causesOf (raw : RawTestResult) : List (String × String) :=
  raw.phases.foldl (fun causes phase =>
    match phase.causedByPhaseId with
    | some cause => Ordered.put phase.id cause causes
    | none => causes) []

/-- Whether following the causes comes to one again: the fuel is one more than the
causes there are, so it is not used up. -/
def comesBack (causes : List (String × String)) : Nat → List String → String → Bool
  | 0, _, _ => true
  | fuel + 1, visited, current =>
    if current ∈ visited then true
    else
      match causes.lookup current with
      | none => false
      | some next => comesBack causes fuel (current :: visited) next

def requireAcyclic (causes : List (String × String)) : Outcome FrontendProtocolError PUnit :=
  forEach (fun start =>
    refuseIf (comesBack causes (causes.length + 1) [] start = true) (.cyclicPhaseReference start))
    (causes.map (·.1))

/-- What a result's evidence says it is of, in the order it is checked. -/
def referencesOf (raw : RawTestResult) : List (Option String) :=
  ((raw.runtime ++ raw.browser).flatMap fun snapshot =>
    snapshot.events.map (·.phaseId) ++ [snapshot.phaseId]) ++ raw.server.map (·.phaseId)

/-- `require_exact_identities`: the phases declared by now, with the result's. -/
def requireExactIdentities (runner : RunnerDeclaration) (runId : String)
    (globalPhases : List String) (raw : RawTestResult) :
    Outcome FrontendProtocolError (List String) := do
  refuseIf (runner.detail.attribution.test = .exact ∧ raw.testId.any present = false)
    (missing runner "test")
  refuseIf (raw.status = some "unstarted" ∧
      (raw.role ≠ "test" ∨ raw.scope.isSome ∨ raw.retry.isSome ∨ raw.flaky ∨
        hasAttributableObservations raw))
    (.invalidUnstartedResult
      "it must be a test with no scope, retry, flaky verdict, phase, or observation")
  requireScope runner raw runId
  let (own, all) ← raw.phases.foldlM (requirePhase runner) ([], globalPhases)
  forEach (fun phase : CoveragePhase => requireReference own phase.causedByPhaseId) raw.phases
  requireAcyclic (causesOf raw)
  forEach (requireReference own) (referencesOf raw)
  return all

def requireResult (runners : List RunnerDeclaration) (runId : String) (globalPhases : List String)
    (raw : RawTestResult) : Outcome FrontendProtocolError (List String) :=
  match runners.reverse.find? fun runner => runner.runner = raw.provenance.runner with
  | none => .refused (.undeclaredRunner raw.provenance.runner)
  | some runner => requireExactIdentities runner runId globalPhases raw

def declaredRunners (declaration : RunDeclaration) : List String :=
  Ordered.setOf (declaration.runners.map (·.runner))

def validateFrontendReportRequest (declaration : RunDeclaration) (manifest : CoverageManifest)
    (runId : String) (rawResults : List RawTestResult) : Outcome FrontendProtocolError PUnit := do
  match validateFrontendRunDeclaration declaration with
  | .refused error => .refused (.declaration error)
  | .crashed => .crashed
  | .ok _ => do
    let ids ← manifestLimitationIds manifest
    let declared := Ordered.setOf declaration.structuralLimitations
    refuseIf (declared ≠ Ordered.setOf ids)
      (.structuralLimitationMismatch declared (Ordered.setOf ids))
    let _ ← rawResults.foldlM (requireResult declaration.runners runId) []
    match (declaredRunners declaration).find? fun runner =>
        runner ∉ rawResults.map (·.provenance.runner) ∧ rawResults ≠ [] with
    | some runner => .refused (.unobservedRunner runner)
    | none => .ok ⟨⟩

end Supercov.Request
