import Supercov.Owned.Conservation
import Supercov.Owned.Transport
import Supercov.Request.Protocol

/-!
# A server that a browser suite drove

The runtime of such a server sweeps its probes into windows.  What a window holds is the one
test's whose span it overlaps, where only one's does, and otherwise no test's; the run is then
built of a record for each attempt, as an owned suite's is.
-/

namespace Supercov.Owned

open Merge (FrontendRunDeclaration)
open Report
open Request (RunDeclaration RunnerDetail FrontendProtocolError validateFrontendReportRequest)
open Supercov.Runtime

/-- One sweep of a server's probes, in 64-bit numbers. -/
structure ServerWindow where
  start : Int
  stop : Int
  /-- Pairs of a probe and a mask. -/
  probes : List Word
  /-- Pairs of a decision and a packed vector. -/
  vectors : List Word

/-- What the browser runner reported of one attempt. -/
structure ServedTest where
  worker : String
  name : String
  title : String
  file : String
  status : String
  expectedStatus : String
  provenance : TestProvenance
  /-- The attempt's first and last moment. -/
  window : Option (Int × Int)

/-- `chunks_exact(2)`. -/
def pairs : List Word → List (Word × Word)
  | first :: second :: rest => (first, second) :: pairs rest
  | _ => []

def ServedTest.overlaps (test : ServedTest) (window : ServerWindow) : Bool :=
  test.window.any fun (start, stop) => start ≤ window.stop ∧ window.start ≤ stop

section Credit

variable (served : List ServedTest)

def running (window : ServerWindow) : List Nat :=
  (served.zipIdx.filter fun (test, _) => test.overlaps window).map Prod.snd

def ownerOf : List Nat → Option Nat
  | [index] => some index
  | _ => none

/-- What has been credited by now: the run's totals, each attempt's own, and the attempts that
ran beside others while there was work. -/
structure Credit where
  global : List (BitVec 32)
  decisionVectors : List (List Word)
  byTest : List (Nat × OwnedTestEvidence)
  overlapped : List Nat

def Credit.ofTest (credit : Credit) (index : Nat) : OwnedTestEvidence :=
  (credit.byTest.lookup index).getD .empty

def noteProbe (evidence : OwnedTestEvidence) (pair : Word × Word) : OwnedTestEvidence :=
  let probe : Index := pair.1.setWidth 32
  { evidence with
    probes := Ordered.put probe ((evidence.probes.lookup probe).getD 0 ||| pair.2.setWidth 32)
      evidence.probes }

def noteVector (evidence : OwnedTestEvidence) (pair : Word × Word) : OwnedTestEvidence :=
  let vector : PackedVector := { decision := pair.1.setWidth 32, key := pair.2 }
  { evidence with
    vectors := if vector ∈ evidence.vectors then evidence.vectors else evidence.vectors ++ [vector] }

def Credit.give (credit : Credit) (owner : Option Nat)
    (note : OwnedTestEvidence → OwnedTestEvidence) : List (Nat × OwnedTestEvidence) :=
  match owner with
  | some owner => Ordered.put owner (note (credit.ofTest owner)) credit.byTest
  | none => credit.byTest

def creditProbe (owner : Option Nat) (credit : Credit) (pair : Word × Word) : Credit :=
  { credit with
    global := credit.global.modify pair.1.toNat (· ||| pair.2.setWidth 32)
    byTest := credit.give owner (noteProbe · pair) }

def creditVector (owner : Option Nat) (credit : Credit) (pair : Word × Word) : Credit :=
  { credit with
    decisionVectors := credit.decisionVectors.modify (pair.1.setWidth 32).toNat (including · pair.2)
    byTest := credit.give owner (noteVector · pair) }

def creditWindow (credit : Credit) (window : ServerWindow) : Credit :=
  let running := running served window
  let owner := ownerOf running
  let noted := { credit with
    overlapped :=
      if 1 < running.length ∧ window.probes ≠ [] then credit.overlapped ++ running
      else credit.overlapped }
  (pairs window.vectors).foldl (creditVector owner) ((pairs window.probes).foldl (creditProbe owner) noted)

def creditWindows (windows : List ServerWindow) (probeCount decisions : Nat) : Credit :=
  windows.foldl (creditWindow served)
    { global := List.replicate probeCount 0
      decisionVectors := List.replicate decisions []
      byTest := []
      overlapped := [] }

def servedStatus (test : ServedTest) : String :=
  if test.status = "passed" then "passed" else if test.status = "skipped" then "skipped" else "failed"

def servedOutcome (test : ServedTest) : OwnedTestOutcome where
  name := test.name
  package := test.worker
  file := some test.file
  status := servedStatus test
  runner := test.provenance.runner
  attributed := true

def Credit.record (credit : Credit) (entry : ServedTest × Nat) : OwnedTestEvidence :=
  { credit.ofTest entry.2 with
    name := entry.1.name
    status := servedStatus entry.1
    runner := entry.1.provenance.runner }

def Credit.credited (credit : Credit) : List Nat := credit.byTest.map Prod.fst

theorem length_creditWindow (credit : Credit) (window : ServerWindow) :
    (creditWindow served credit window).decisionVectors.length = credit.decisionVectors.length := by
  have vectors (owner : Option Nat) (added : List (Word × Word)) (credit : Credit) :
      (added.foldl (creditVector owner) credit).decisionVectors.length =
        credit.decisionVectors.length := by
    induction added generalizing credit with
    | nil => rfl
    | cons pair added ih => rw [List.foldl_cons, ih, creditVector, List.length_modify]
  have probes (owner : Option Nat) (added : List (Word × Word)) (credit : Credit) :
      (added.foldl (creditProbe owner) credit).decisionVectors = credit.decisionVectors := by
    induction added generalizing credit with
    | nil => rfl
    | cons pair added ih => rw [List.foldl_cons, ih, creditProbe]
  rw [creditWindow, vectors, probes]

theorem length_creditWindows (windows : List ServerWindow) (probeCount decisions : Nat) :
    (creditWindows served windows probeCount decisions).decisionVectors.length = decisions := by
  induction windows using List.reverseRecOn with
  | nil => exact List.length_replicate
  | append_singleton windows window ih =>
    rwa [creditWindows, List.foldl_append, List.foldl_cons, List.foldl_nil, length_creditWindow]

def creditedEvidence (windows : List ServerWindow) (probeCount : Nat) (widths : List Nat) :
    OwnedEvidence :=
  let credit := creditWindows served windows probeCount widths.length
  { global := credit.global
    tests := served.zipIdx.map credit.record
    widths := widths
    decisionVectors := credit.decisionVectors
    aligned := length_creditWindows served windows probeCount widths.length }

end Credit

/-- What publishing a server's run needs from its frontend. -/
structure OwnedServer (Model : Type) where
  declaration : RunDeclaration
  environment : String
  coverageModel : Model
  manifest : CoverageManifest
  probes : List (Word × GoProbeTarget)
  widths : List Nat
  declares : declaration.runners ≠ []
  named : ∀ limitation ∈ manifest.limitations, (limitation.get "id").asStr.isSome

structure ServedMetadata where
  id : String
  startedAt : String
  testExitCode : Option Int

section Publish

variable {Model : Type} (digest : List String → String) (server : OwnedServer Model)
  (metadata : ServedMetadata) (windows : List ServerWindow) (served : List ServedTest)

/-- The browser runner in the place of the frontend's first, and alone. -/
def OwnedServer.browserDeclaration : RunDeclaration :=
  { server.declaration with
    runners := (server.declaration.runners.take 1).map fun runner =>
      { runner with
        runner := "playwright"
        detail := { runner.detail with executionModel := .parallelContextPropagated } } }

def OwnedServer.probeCount : Nat :=
  ((server.probes.map fun entry => entry.1.toNat).max?).elim 0 (· + 1)

def OwnedServer.inputs : OwnedRunInputs RunnerDetail Model where
  declaration := server.browserDeclaration
  environment := server.environment
  manifest := server.manifest
  probes := server.probes
  evidence := creditedEvidence served windows server.probeCount server.widths
  outcomes := served.map servedOutcome
  runId := metadata.id
  generatedAt := metadata.startedAt
  testExitCode := metadata.testExitCode.getD 0
  coverageModel := server.coverageModel
  declares := by
    have declares := server.declares
    cases same : server.declaration.runners with
    | nil => exact absurd same declares
    | cons first rest => simp [OwnedServer.browserDeclaration, same]
  named := server.named

/-- A result as the browser runner reported the attempt. -/
def nameResult (credited : List Nat) (raw : RawTestResult) (entry : ServedTest × Nat) :
    RawTestResult :=
  { raw with
    title := some entry.1.title
    expectedStatus := some entry.1.expectedStatus
    status := some entry.1.status
    provenance := { entry.1.provenance with source := raw.provenance.source }
    attribution := if entry.2 ∈ credited then attributionByTime else raw.attribution }

def servedRun : OwnedFrontendRun RunnerDetail Model :=
  let credit := creditWindows served windows server.probeCount server.widths.length
  let run := buildFrontendRun digest (server.inputs metadata windows served)
  { run with
    request := { run.request with
      rawResults := updateEach (nameResult credit.credited) run.request.rawResults served.zipIdx } }

def publish : Outcome FrontendProtocolError (OwnedFrontendRun RunnerDetail Model) := do
  let run := servedRun digest server metadata windows served
  validateFrontendReportRequest run.declaration run.request.manifest run.request.runId
    run.request.rawResults
  return run

end Publish

end Supercov.Owned
