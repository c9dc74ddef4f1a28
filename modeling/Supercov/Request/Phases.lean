import Supercov.Report.View
import Supercov.Request.Declaration

/-!
# Phases told apart

A result that declares a phase an earlier one declared is another execution: its
phases, and what of it refers to them, are renamed apart.  What refers to another
result's phase then refers to none.
-/

namespace Supercov.Request

inductive FrontendProtocolError where
  | declaration (error : FrontendDeclarationError)
  | invalidManifestLimitation
  | duplicateManifestLimitation (id : String)
  | structuralLimitationMismatch (declared manifest : List String)
  | undeclaredRunner (runner : String)
  | unobservedRunner (runner : String)
  | missingExactIdentity (runner axis : String)
  | scopeRunMismatch (expected actual : String)
  | retryMismatch (runner : String) (result scope : Nat)
  | invalidUnstartedResult (reason : String)
  | invalidPhaseKind (kind : String)
  | duplicatePhase (id : String)
  | unknownPhaseReference (id : String)
  | cyclicPhaseReference (id : String)
  deriving DecidableEq

open Report (RawTestResult ServerRecord RuntimeSnapshot RuntimeEvent CoveragePhase)

/-- The phases that a result's evidence says it is of, changed. -/
def changeReferences (change : String → Option String) (raw : RawTestResult) : RawTestResult :=
  let event (event : RuntimeEvent) : RuntimeEvent :=
    { event with phaseId := event.phaseId.bind change }
  let snapshot (snapshot : RuntimeSnapshot) : RuntimeSnapshot :=
    { snapshot with
      events := snapshot.events.map event
      phaseId := snapshot.phaseId.bind change }
  let record (record : ServerRecord) : ServerRecord :=
    { record with phaseId := record.phaseId.bind change }
  { raw with
    runtime := raw.runtime.map snapshot
    browser := raw.browser.map snapshot
    server := raw.server.map record }

section Separation

/-- The count of the next execution of a phase whose name is free: the fuel is one
more than the names taken, so that one is found. -/
def freshCount (declared : List String) (id : String) : Nat → Nat → Nat
  | 0, count => count
  | fuel + 1, count =>
    if id ++ "~" ++ toString (count + 1) ∈ declared then freshCount declared id fuel (count + 1)
    else count + 1

/-- What has been declared, and of which execution each repeated phase was the last. -/
structure Separation where
  declared : List String
  executions : List (String × Nat)

/-- The names of the phases of a repeated result, and the counts after them. -/
def renamePhase (declared : List String)
    (held : List (String × Nat) × List (String × String)) (phase : CoveragePhase) :
    List (String × Nat) × List (String × String) :=
  let count := freshCount declared phase.id (declared.length + 1)
    ((held.1.lookup phase.id).getD 1)
  (Ordered.put phase.id count held.1,
    Ordered.put phase.id (phase.id ++ "~" ++ toString count) held.2)

def renamed (names : List (String × String)) (id : String) : String := (names.lookup id).getD id

def renameResult (names : List (String × String)) (raw : RawTestResult) : RawTestResult :=
  { changeReferences (fun id => some (renamed names id)) raw with
    phases := raw.phases.map fun phase =>
      { phase with
        id := renamed names phase.id
        causedByPhaseId := phase.causedByPhaseId.map (renamed names) } }

/-- One result, after those before it. -/
def separateResult (separation : Separation) (raw : RawTestResult) : Separation × RawTestResult :=
  if raw.phases.any (·.id ∈ separation.declared) then
    let held := raw.phases.foldl (renamePhase separation.declared) (separation.executions, [])
    ({ declared := separation.declared ++ held.2.map (·.2)
       executions := held.1 },
      renameResult held.2 raw)
  else
    ({ separation with declared := separation.declared ++ raw.phases.map (·.id) }, raw)

def separateFrom (separation : Separation) : List RawTestResult → List RawTestResult
  | [] => []
  | raw :: rest =>
    let separated := separateResult separation raw
    separated.2 :: separateFrom separated.1 rest

def separateRepeatedExecutions (rawResults : List RawTestResult) : List RawTestResult :=
  separateFrom { declared := [], executions := [] } rawResults

end Separation

def declaredPhases (rawResults : List RawTestResult) : List String :=
  rawResults.flatMap fun raw => raw.phases.map (·.id)

/-- What names another result's phase names none. -/
def releaseResult (declared : List String) (raw : RawTestResult) : RawTestResult :=
  let own := raw.phases.map (·.id)
  changeReferences (fun id => if id ∉ own ∧ id ∈ declared then none else some id) raw

def releaseLeakedPhases (rawResults : List RawTestResult) : List RawTestResult :=
  rawResults.map (releaseResult (declaredPhases rawResults))

end Supercov.Request
