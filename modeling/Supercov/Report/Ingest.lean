import Supercov.Library.Outcome
import Supercov.Report.Outcomes
import Mathlib.Logic.Function.Basic

/-!
# Reading the evidence

A view reads its results in order: every hit and vector is noted against its test,
and every event against the phase it happened in.  Tests, phases and obligations
are named by their ids throughout, where the program numbers them as they arrive.
-/

namespace Supercov.Report

open Analysis (McdcVector AnalysisError)
open Ordered (put)

inductive ReportError where
  | analysis (error : AnalysisError)
  | decisionAnalysis (decisionId : String) (error : AnalysisError)
  | invalidEvent (event : String)
  | invalidServerRecord (reason : String)
  deriving DecidableEq

structure MutableObservation where
  vector : McdcVector
  tests : List String
  phases : List String
  explicitPhases : List String
  deriving DecidableEq

structure MutablePhase where
  phase : CoveragePhase
  test : String
  hits : List String
  decisions : List (String × List McdcVector)
  browserEvents : Nat
  serverEvents : Nat
  explicitEvents : Nat
  inferredEvents : Nat
  explicitBrowserEvents : Nat
  inferredBrowserEvents : Nat
  explicitServerEvents : Nat
  inferredServerEvents : Nat
  deriving DecidableEq

structure Ingest where
  /-- The vectors of each decision, once each, as they arrived. -/
  observations : String → List MutableObservation
  testsByDecision : String → List String
  testsByHit : String → List String
  phasesByHit : String → List String
  explicitPhasesByHit : String → List String
  tests : List (String × MutableTest)
  /-- The tests as they arrived. -/
  testOrder : List String
  phases : List (String × MutablePhase)

def Ingest.empty : Ingest where
  observations := fun _ => []
  testsByDecision := fun _ => []
  testsByHit := fun _ => []
  phasesByHit := fun _ => []
  explicitPhasesByHit := fun _ => []
  tests := []
  testOrder := []
  phases := []

def pushAt (map : String → List String) (key value : String) : String → List String :=
  Function.update map key (map key ++ [value])

def changeAt {Value : Type} (key : String) (change : Value → Value) (map : List (String × Value)) :
    List (String × Value) :=
  match map.lookup key with
  | some value => put key (change value) map
  | none => map

def insertVector (vector : McdcVector) (vectors : List McdcVector) : List McdcVector :=
  if vector ∈ vectors then vectors else vectors ++ [vector]

def insertDecision (decision : String) (vector : McdcVector)
    (decisions : List (String × List McdcVector)) : List (String × List McdcVector) :=
  put decision (insertVector vector ((decisions.lookup decision).getD [])) decisions

def noteObservation (vector : McdcVector) (test : String) :
    List MutableObservation → List MutableObservation
  | [] => [{ vector, tests := [test], phases := [], explicitPhases := [] }]
  | observation :: rest =>
    if observation.vector = vector then
      { observation with tests := observation.tests ++ [test] } :: rest
    else
      observation :: noteObservation vector test rest

/-- The observations with the vector seen in the phase, where it was seen in a test. -/
def notePhase (vector : McdcVector) (phase : String) (explicit : Bool)
    (observations : List MutableObservation) : List MutableObservation :=
  observations.map fun observation =>
    if observation.vector = vector then
      { observation with
        phases := observation.phases ++ [phase]
        explicitPhases :=
          if explicit then observation.explicitPhases ++ [phase] else observation.explicitPhases }
    else
      observation

/-- The phase an event with none of its own falls in: the last to start at or before
it, or the one that ends in the millisecond it starts in. -/
def phaseAt (orderedPhases : List CoveragePhase) (timestampMs : Int) : Option String :=
  let started := orderedPhases.takeWhile fun phase => phase.startedAtMs ≤ timestampMs
  match started.reverse with
  | [] => none
  | [last] => some last.id
  | last :: before :: _ =>
    if last.startedAtMs = timestampMs ∧ before.endedAtMs = some timestampMs ∧
        before.startedAtMs < timestampMs then
      some before.id
    else
      some last.id

def orderedPhases (raw : RawTestResult) : List CoveragePhase :=
  raw.phases.insertionSort fun left right => left.startedAtMs ≤ right.startedAtMs

namespace Ingest

/-- A test's record, and the first one of a test. -/
def register (raw : RawTestResult) (ingest : Ingest) : Ingest :=
  let id := rawTestId raw
  match ingest.tests.lookup id with
  | some test => { ingest with tests := put id (test.register raw) ingest.tests }
  | none =>
    { ingest with
      testOrder := ingest.testOrder ++ [id]
      tests := put id ((MutableTest.of raw).register raw) ingest.tests }

def declarePhase (test : String) (ingest : Ingest) (phase : CoveragePhase) : Ingest :=
  let declared : MutablePhase :=
    { phase, test, hits := [], decisions := [], browserEvents := 0, serverEvents := 0,
      explicitEvents := 0, inferredEvents := 0, explicitBrowserEvents := 0,
      inferredBrowserEvents := 0, explicitServerEvents := 0, inferredServerEvents := 0 }
  { ingest with phases := put phase.id declared ingest.phases }

/-- The vector was seen in the test. -/
def observe (test decision : String) (ingest : Ingest) (vector : McdcVector) : Ingest :=
  { ingest with
    observations :=
      Function.update ingest.observations decision
        (noteObservation vector test (ingest.observations decision))
    tests :=
      changeAt test (fun record =>
        { record with decisions := insertDecision decision vector record.decisions }) ingest.tests }

/-- The vectors of a decision seen in the test; nothing of one that is not measured. -/
def observeDecision (manifest : CoverageManifest) (test : String) (ingest : Ingest)
    (decision : DecisionSnapshot) : Ingest :=
  if manifest.decisions.any (·.id = decision.id) then
    let observed := decision.vectors.foldl (observe test decision.id) ingest
    if decision.vectors.isEmpty then observed
    else { observed with testsByDecision := pushAt observed.testsByDecision decision.id test }
  else
    ingest

def hit (test : String) (ingest : Ingest) (id : String) : Ingest :=
  { ingest with
    testsByHit := pushAt ingest.testsByHit id test
    tests := changeAt test (fun record => { record with hits := record.hits ++ [id] }) ingest.tests }

def countEvents (phase : String) (browser explicit : Bool) (events : Nat) (ingest : Ingest) :
    Ingest :=
  { ingest with
    phases :=
      changeAt phase (fun held =>
        { held with
          browserEvents := held.browserEvents + if browser then events else 0
          serverEvents := held.serverEvents + if browser then 0 else events
          explicitEvents := held.explicitEvents + if explicit then events else 0
          inferredEvents := held.inferredEvents + if explicit then 0 else events
          explicitBrowserEvents :=
            held.explicitBrowserEvents + if browser ∧ explicit then events else 0
          inferredBrowserEvents :=
            held.inferredBrowserEvents + if browser ∧ ¬ explicit then events else 0
          explicitServerEvents :=
            held.explicitServerEvents + if ¬ browser ∧ explicit then events else 0
          inferredServerEvents :=
            held.inferredServerEvents + if ¬ browser ∧ ¬ explicit then events else 0 })
        ingest.phases }

/-- The obligation was reached in the phase. -/
def phaseHit (phase : String) (explicit : Bool) (ingest : Ingest) (id : String) : Ingest :=
  { ingest with
    phases := changeAt phase (fun held => { held with hits := held.hits ++ [id] }) ingest.phases
    phasesByHit := pushAt ingest.phasesByHit id phase
    explicitPhasesByHit :=
      if explicit then pushAt ingest.explicitPhasesByHit id phase else ingest.explicitPhasesByHit }

/-- The vector was seen in the phase. -/
def phaseVector (phase : String) (explicit : Bool) (decision : String) (ingest : Ingest)
    (vector : McdcVector) : Ingest :=
  { ingest with
    phases :=
      changeAt phase (fun held =>
        { held with decisions := insertDecision decision vector held.decisions }) ingest.phases
    observations :=
      Function.update ingest.observations decision
        (notePhase vector phase explicit (ingest.observations decision)) }

/-- An event, noted against a phase that has been declared by now. -/
def event (ordered : List CoveragePhase) (ingest : Ingest) (event : RuntimeEvent) :
    Outcome ReportError Ingest :=
  match event.phaseId <|> phaseAt ordered event.timestampMs with
  | none => .ok ingest
  | some phase =>
    if (ingest.phases.lookup phase).isNone then .ok ingest
    else
      let explicit := event.phaseId.isSome
      let counted := ingest.countEvents phase (event.environment = "browser") explicit 1
      if event.eventType = "hit" then .ok (counted.phaseHit phase explicit event.id)
      else if event.eventType = "decision" then
        match event.vector with
        | some vector => .ok (counted.phaseVector phase explicit event.id vector)
        | none => .refused (.invalidEvent event.id)
      else .refused (.invalidEvent event.eventType)

/-- All of a snapshot that names its phase, noted against that phase. -/
def snapshotPhase (browser : Bool) (snapshot : RuntimeSnapshot) (ingest : Ingest) : Ingest :=
  match snapshot.phaseId with
  | none => ingest
  | some phase =>
    if (ingest.phases.lookup phase).isNone then ingest
    else
      let events := snapshot.hits.length + (snapshot.decisions.map (·.vectors.length)).sum
      let counted := ingest.countEvents phase browser true events
      let hits := snapshot.hits.foldl (phaseHit phase true) counted
      snapshot.decisions.foldl (fun ingest decision =>
        decision.vectors.foldl (phaseVector phase true decision.id) ingest) hits

def snapshot (manifest : CoverageManifest) (test : String) (ordered : List CoveragePhase)
    (browser : Bool) (ingest : Ingest) (snapshot : RuntimeSnapshot) :
    Outcome ReportError Ingest := do
  let observed := snapshot.decisions.foldl (observeDecision manifest test) ingest
  let reached := snapshot.hits.foldl (hit test) observed
  let noted ← snapshot.events.foldlM (event ordered) reached
  return noted.snapshotPhase browser snapshot

/-- What a server did, noted against the phase it fell in. -/
def serverPhase (ordered : List CoveragePhase) (record : ServerRecord) (id : String)
    (vector : Option McdcVector) (ingest : Ingest) : Ingest :=
  match record.timestampMs with
  | none => ingest
  | some timestampMs =>
    match record.phaseId <|> phaseAt ordered timestampMs with
    | none => ingest
    | some phase =>
      if (ingest.phases.lookup phase).isNone then ingest
      else
        let explicit := record.phaseId.isSome
        let counted := ingest.countEvents phase false explicit 1
        match vector with
        | some vector => counted.phaseVector phase explicit id vector
        | none => counted.phaseHit phase explicit id

def serverRecord (manifest : CoverageManifest) (test : String) (ordered : List CoveragePhase)
    (ingest : Ingest) (record : ServerRecord) : Outcome ReportError Ingest :=
  if record.recordType = "decision" then
    match record.id, record.vector with
    | none, _ => .refused (.invalidServerRecord "missing decision id")
    | some _, none => .refused (.invalidServerRecord "missing vector")
    | some decision, some vector =>
      if manifest.decisions.any (·.id = decision) then
        let observed := ingest.observeDecision manifest test { id := decision, vectors := [vector] }
        .ok (observed.serverPhase ordered record decision (some vector))
      else
        .ok ingest
  else if record.recordType = "hit" then
    match record.id with
    | none => .refused (.invalidServerRecord "missing hit id")
    | some id => .ok ((ingest.hit test id).serverPhase ordered record id none)
  else
    .refused (.invalidServerRecord record.recordType)

def result (manifest : CoverageManifest) (ingest : Ingest) (raw : RawTestResult) :
    Outcome ReportError Ingest := do
  let test := rawTestId raw
  let ordered := orderedPhases raw
  let declared := ordered.foldl (declarePhase test) (ingest.register raw)
  let run ← raw.runtime.foldlM (snapshot manifest test ordered false) declared
  let browsed ← raw.browser.foldlM (snapshot manifest test ordered true) run
  raw.server.foldlM (serverRecord manifest test ordered) browsed

end Ingest

def ingestResults (manifest : CoverageManifest) (rawResults : List RawTestResult) :
    Outcome ReportError Ingest :=
  rawResults.foldlM (Ingest.result manifest) .empty

end Supercov.Report
