import Supercov.Merge.Runs

/-!
# What a frontend declares

A declaration is checked before the evidence is: its tokens, its runners, and that
whatever a runner does not attribute exactly is among its limitations.
-/

namespace Supercov.Request

open Outcome
open Merge (FrontendRunDeclaration FrontendRunnerDeclaration)

def languageFrontendProtocolVersion : Nat := 2

inductive ExecutionModel where
  | processPerTest
  | serialInProcess
  | parallelContextPropagated
  | parallelUnattributed
  deriving DecidableEq

inductive AttributionPrecision where
  | exact
  | aggregate
  | unavailable
  deriving DecidableEq

inductive FrontendLimitationScope where
  | worker
  | test
  | retry
  | phase
  | action
  | assertion
  deriving DecidableEq

structure FrontendAttribution where
  run : AttributionPrecision
  worker : AttributionPrecision
  test : AttributionPrecision
  retry : AttributionPrecision
  phase : AttributionPrecision
  action : AttributionPrecision
  assertion : AttributionPrecision
  deriving DecidableEq

structure FrontendLimitation where
  id : String
  scopes : List FrontendLimitationScope
  reason : String
  deriving DecidableEq

/-- What a runner declares besides its name. -/
structure RunnerDetail where
  executionModel : ExecutionModel
  attribution : FrontendAttribution
  limitations : List FrontendLimitation
  deriving DecidableEq

abbrev RunnerDeclaration := FrontendRunnerDeclaration RunnerDetail
abbrev RunDeclaration := FrontendRunDeclaration RunnerDetail

inductive FrontendDeclarationError where
  | unsupportedProtocolVersion (version : Nat)
  | invalidToken (field : String)
  | noRunners
  | duplicateRunner (runner : String)
  | runIdentityNotExact
  | duplicateLimitation (id : String)
  | duplicateLimitationScope (id : String)
  | emptyLimitationScopes (id : String)
  | invalidLimitationReason (id : String)
  | duplicateStructuralLimitation (id : String)
  | missingDowngradeLimitation (scope : FrontendLimitationScope)
  | exactRetryRequiresExactTest
  | exactPhaseRequiresExactTest
  | exactAssertionRequiresExactTestAndPhase
  | exactActionRequiresExactTestAndPhase
  | parallelUnattributedCannotClaimExactCausality
  deriving DecidableEq

section Text

/-- `char::is_whitespace`. -/
def isWhitespace (c : Char) : Bool :=
  let code := c.toNat
  (9 ≤ code && code ≤ 13) || code = 0x20 || code = 0x85 || code = 0xA0 || code = 0x1680 ||
    (0x2000 ≤ code && code ≤ 0x200A) || code = 0x2028 || code = 0x2029 || code = 0x202F ||
    code = 0x205F || code = 0x3000

/-- `char::is_control`. -/
def isControl (c : Char) : Bool :=
  let code := c.toNat
  code ≤ 0x1F || (0x7F ≤ code && code ≤ 0x9F)

/-- Whether `trim` would leave nothing. -/
def isBlank (text : String) : Bool := text.toList.all isWhitespace

/-- Whether `trim` would leave it as it is. -/
def isTrimmed (text : String) : Bool :=
  !(text.toList.head?.any isWhitespace) && !(text.toList.getLast?.any isWhitespace)

def isLowercase (c : Char) : Bool := 'a' ≤ c && c ≤ 'z'

/-- A token of these characters that starts with a letter. -/
def validToken (others : List Char) (value : String) : Bool :=
  1 ≤ value.utf8ByteSize && value.utf8ByteSize ≤ 64 && value.toList.head?.any isLowercase &&
    value.toList.all fun c => isLowercase c || c.isDigit || c ∈ others

def validFrontendToken (value : String) : Bool := validToken ['.', '+', '-'] value

def validFrontendRunnerToken (value : String) : Bool := validToken ['.', '+', '-', ':'] value

def validStructuralLimitationReference (value : String) : Bool :=
  1 ≤ value.utf8ByteSize && value.utf8ByteSize ≤ 512 && isTrimmed value &&
    !(value.toList.any isControl)

end Text

/-- One limitation more: the ids of all before it, and the scopes of the runner's. -/
def validateFrontendLimitation (held : List String × List FrontendLimitationScope)
    (limitation : FrontendLimitation) :
    Outcome FrontendDeclarationError (List String × List FrontendLimitationScope) := do
  refuseIf (validFrontendToken limitation.id = false) (.invalidToken "limitation ID")
  refuseIf (limitation.id ∈ held.1) (.duplicateLimitation limitation.id)
  refuseIf (limitation.scopes = []) (.emptyLimitationScopes limitation.id)
  refuseIf (¬ limitation.scopes.Nodup) (.duplicateLimitationScope limitation.id)
  refuseIf (isBlank limitation.reason ∨ isTrimmed limitation.reason = false ∨
      limitation.reason.toList.any (fun c => c = '\n' || c = '\r' || c = '\x00'))
    (.invalidLimitationReason limitation.id)
  return (held.1 ++ [limitation.id], held.2 ++ limitation.scopes)

def validateFrontendLimitations (limitations : List FrontendLimitation) (ids : List String) :
    Outcome FrontendDeclarationError (List String × List FrontendLimitationScope) :=
  limitations.foldlM validateFrontendLimitation (ids, [])

def requireLimitation (limited : List FrontendLimitationScope)
    (axis : AttributionPrecision × FrontendLimitationScope) :
    Outcome FrontendDeclarationError PUnit :=
  refuseIf (axis.1 ≠ .exact ∧ axis.2 ∉ limited) (.missingDowngradeLimitation axis.2)

def validateFrontendRunner (ids : List String) (runner : RunnerDeclaration) :
    Outcome FrontendDeclarationError (List String) := do
  let attribution := runner.detail.attribution
  refuseIf (validFrontendRunnerToken runner.runner = false) (.invalidToken "runner")
  refuseIf (attribution.run ≠ .exact) .runIdentityNotExact
  let (ids, limited) ← validateFrontendLimitations runner.detail.limitations ids
  refuseIf (attribution.retry = .exact ∧ attribution.test ≠ .exact) .exactRetryRequiresExactTest
  refuseIf (attribution.phase = .exact ∧ attribution.test ≠ .exact) .exactPhaseRequiresExactTest
  forEach (requireLimitation limited)
    [(attribution.worker, .worker), (attribution.test, .test), (attribution.retry, .retry),
      (attribution.phase, .phase), (attribution.action, .action),
      (attribution.assertion, .assertion)]
  refuseIf (attribution.assertion = .exact ∧
      (attribution.test ≠ .exact ∨ attribution.phase ≠ .exact))
    .exactAssertionRequiresExactTestAndPhase
  refuseIf (attribution.action = .exact ∧
      (attribution.test ≠ .exact ∨ attribution.phase ≠ .exact))
    .exactActionRequiresExactTestAndPhase
  refuseIf (runner.detail.executionModel = .parallelUnattributed ∧
      .exact ∈ [attribution.test, attribution.retry, attribution.phase, attribution.action,
        attribution.assertion])
    .parallelUnattributedCannotClaimExactCausality
  return ids

def addStructuralLimitation (ids : List String) (limitation : String) :
    Outcome FrontendDeclarationError (List String) := do
  refuseIf (validStructuralLimitationReference limitation = false)
    (.invalidToken "structural limitation ID")
  refuseIf (limitation ∈ ids) (.duplicateStructuralLimitation limitation)
  return ids ++ [limitation]

/-- One runner more: the names of those before it, and the ids of all limitations. -/
def addDeclaredRunner (held : List String × List String) (runner : RunnerDeclaration) :
    Outcome FrontendDeclarationError (List String × List String) := do
  refuseIf (runner.runner ∈ held.1) (.duplicateRunner runner.runner)
  let ids ← validateFrontendRunner held.2 runner
  return (held.1 ++ [runner.runner], ids)

def validateFrontendRunDeclaration (declaration : RunDeclaration) :
    Outcome FrontendDeclarationError PUnit := do
  refuseIf (declaration.protocolVersion ≠ languageFrontendProtocolVersion)
    (.unsupportedProtocolVersion declaration.protocolVersion)
  forEach (fun field => refuseIf (validFrontendToken field.2 = false) (.invalidToken field.1))
    [("ID", declaration.frontendId), ("version", declaration.frontendVersion),
      ("language", declaration.language)]
  refuseIf (declaration.runners = []) .noRunners
  let ids ← declaration.structuralLimitations.foldlM addStructuralLimitation []
  let _ ← declaration.runners.foldlM addDeclaredRunner ([], ids)
  return ⟨⟩

end Supercov.Request
