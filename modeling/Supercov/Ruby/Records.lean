import Supercov.Library.Ordered
import Supercov.Library.Outcome
import Supercov.Request.Declaration
import Mathlib.Data.Finset.Lattice.Basic
import Mathlib.Data.Prod.Lex

/-!
# The records of a Ruby process

What a process says of itself, one record after another, and what becomes of the evidence
with each.
-/

namespace Supercov.Ruby

open Outcome
open Merge (startsWith)
open Request (isBlank)

/-- A record as it is read from its JSON. -/
inductive Record where
  | process (v : Nat) (run : String) (pid : Nat) (worker ruby : String) (lines : Option String)
  | worker (worker : String)
  | lines (mode : String)
  | phase (ctx : Nat) (startedAt : Int) (worker test : String) (retry : Nat) (phase : String)
  | outcome (worker test : String) (retry : Nat) (phase outcome : String) (xfail : Bool)
      (runner : String) (file : Option String) (tags : List String) (title : Option String)
  | hit (ctx : Nat) (id : String)
  | ids (first : Nat) (names : List String)
  | hits (ctx : Nat) (n : List Nat)
  | dec (ctx : Nat) (id v : String) (o : Nat)
  | assert (ctx : Nat)
  | limitation (id reason : String) (file obligation : Option String)
  | exit (endedAt : Int)

inductive RubyEvidenceError where
  | invalidRecord (file : String) (line : Nat) (reason : String)
  | invalidTransport (file reason : String)
  | droppedRecords (file : String) (count : Nat)
  | runMismatch (expected actual : String)
  | unsupportedVersion (version : Nat)
  | unknownContext (file : String) (line context : Nat)
  | unsupportedRuby (version : String)
  deriving DecidableEq, Repr

structure Identity where
  worker : String
  test : String
  retry : Nat
  phase : String
  deriving DecidableEq

def Identity.key (identity : Identity) : String ×ₗ String ×ₗ Nat ×ₗ String :=
  toLex (identity.worker, toLex (identity.test, toLex (identity.retry, identity.phase)))

theorem Identity.key_injective : Function.Injective Identity.key := by
  rintro ⟨worker, test, retry, phase⟩ ⟨worker', test', retry', phase'⟩ same
  simp only [key, toLex_inj, Prod.mk.injEq] at same
  obtain ⟨rfl, rfl, rfl, rfl⟩ := same
  rfl

instance : LinearOrder Identity := LinearOrder.lift' Identity.key Identity.key_injective

abbrev Attempt := String ×ₗ String ×ₗ Nat

def attempt (worker test : String) (retry : Nat) : Attempt := toLex (worker, toLex (test, retry))

abbrev Vector := List (Option Bool) × Bool

structure Observations where
  hits : Finset String := ∅
  vectors : List (String × Finset Vector) := []

structure RuntimeLimitation where
  id : String
  reason : String
  file : Option String
  obligation : Option String

structure Evidence where
  interpreters : Nat := 0
  rubyVersions : Finset String := ∅
  perIdentity : List (Identity × Observations) := []
  background : List (String × Observations) := []
  outcomes : List (Attempt × List (String × String × Bool)) := []
  runners : List (Attempt × String) := []
  testFiles : List (Attempt × String) := []
  testTags : List (Attempt × List String) := []
  testTitles : List (Attempt × String) := []
  limitations : List RuntimeLimitation := []
  firstSighting : Bool := false
  requests : List (Identity × Int × Nat × String × String) := []
  servedBy : List (String × Finset Attempt) := []
  phaseStarts : List (String × Nat × Attempt) := []

/-- What the reader of one process's file keeps beside the evidence. -/
structure Reading where
  evidence : Evidence
  contexts : List (Nat × Identity) := []
  beforeAssertion : List (Nat × Observations) := []
  processWorker : Option String := none
  interned : List String := []
  processStarted : Bool := false
  processReported : Bool := false

def rubyEvidenceVersion : Nat := 1
def requestWorker : String := "supercov-request"

section Changes

variable {Key : Type} [LinearOrder Key] {Value : Type}

def entry (key : Key) (default' : Value) (change : Value → Value) (map : List (Key × Value)) :
    List (Key × Value) :=
  Ordered.put key (change ((Ordered.find key map).getD default')) map

def orInsert (key : Key) (value : Value) (map : List (Key × Value)) : List (Key × Value) :=
  if (Ordered.find key map).isSome then map else Ordered.put key value map

def Observations.addHits (ids : List String) (observed : Observations) : Observations :=
  { observed with hits := observed.hits ∪ ids.toFinset }

def Observations.addVectors (id : String) (vectors : Finset Vector) (observed : Observations) :
    Observations :=
  { observed with vectors := entry id ∅ (· ∪ vectors) observed.vectors }

/-- Changes what a call phase recorded so far, where its assertion has not come. -/
def Reading.before (ctx : Nat) (change : Observations → Observations) (reading : Reading) : Reading :=
  match Ordered.find ctx reading.beforeAssertion with
  | some before =>
    { reading with beforeAssertion := Ordered.put ctx (change before) reading.beforeAssertion }
  | none => reading

end Changes

section Parts

/-- `str::parse::<u32>`. -/
def parseU32 (text : List Char) : Option Nat :=
  let digits := if text.head? = some '+' then text.tail else text
  if digits.isEmpty || digits.any (fun c => !c.isDigit) then none
  else
    let value := digits.foldl (fun value c => value * 10 + (c.toNat - '0'.toNat)) 0
    if value < 2 ^ 32 then some value else none

def supportedRuby (ruby : String) : Bool :=
  match ((ruby.toList.splitOn '.').take 2).mapM parseU32 with
  | some [major, minor] => decide (toLex ((3, 3) : Nat × Nat) ≤ toLex (major, minor))
  | _ => false

def knownPhase (phase : String) : Bool := phase ∈ ["setup", "call", "teardown"]

def outcomeSeverity (outcome : String) : Nat :=
  if outcome ∈ ["failed", "rerun", "error"] then 2
  else if outcome = "skipped" then 1
  else 0

def foldOutcome (phase outcome : String) (xfail : Bool) :
    List (String × String × Bool) → List (String × String × Bool)
  | [] => [(phase, outcome, xfail)]
  | (name, reported, expected) :: rest =>
    if name = phase then
      (name, if outcomeSeverity outcome > outcomeSeverity reported then outcome else reported,
        expected || xfail) :: rest
    else (name, reported, expected) :: foldOutcome phase outcome xfail rest

def vectorDigit (digit : UInt8) : Outcome String (Option Bool) :=
  if digit = 48 then .ok none
  else if digit = 49 then .ok (some false)
  else if digit = 50 then .ok (some true)
  else .refused "decision vector digits must be 0, 1 or 2"

def decisionVector (v : String) (o : Nat) : Outcome String Vector := do
  let values ← collect vectorDigit v.toUTF8.toList
  refuseIf (values = []) "decision vector digits must be 0, 1 or 2"
  if o = 0 then return (values, false)
  else if o = 1 then return (values, true)
  else .refused "decision outcome must be 0 or 1"

def orRefuse {ε Value : Type} (error : String → ε) : Outcome String Value → Outcome ε Value
  | .ok value => .ok value
  | .refused reason => .refused (error reason)
  | .crashed => .crashed

end Parts

section Absorbing

variable (name : String) (line : Nat)

/-- Changes what is observed of a context: of the process's worker for none. -/
def Reading.observe (ctx : Nat) (change : Observations → Observations) (reading : Reading) :
    Outcome RubyEvidenceError Reading :=
  if ctx = 0 then
    .ok { reading with evidence := { reading.evidence with
      background := entry (reading.processWorker.getD "main") {} change reading.evidence.background } }
  else
    match Ordered.find ctx reading.contexts with
    | none => .refused (.unknownContext name line ctx)
    | some identity => .ok { reading with evidence := { reading.evidence with
      perIdentity := entry identity {} change reading.evidence.perIdentity } }

variable (runId : String) (transportPid : Nat)

def absorbProcess (v : Nat) (run : String) (pid : Nat) (worker ruby : String) (lines : Option String)
    (reading : Reading) : Outcome RubyEvidenceError Reading := do
  refuseIf (v ≠ rubyEvidenceVersion) (.unsupportedVersion v)
  refuseIf (run ≠ runId) (.runMismatch runId run)
  refuseIf (pid ≠ transportPid)
    (.invalidRecord name line "process record does not match the transport owner")
  refuseIf (supportedRuby ruby = false) (.unsupportedRuby ruby)
  let evidence := reading.evidence
  return { reading with
    processStarted := true
    processWorker := some worker
    evidence := { evidence with
      firstSighting := evidence.firstSighting || decide (lines ≠ some "exact")
      interpreters := evidence.interpreters + 1
      rubyVersions := insert ruby evidence.rubyVersions } }

def absorbPhase (ctx : Nat) (startedAt : Int) (worker test : String) (retry : Nat) (phase : String)
    (reading : Reading) : Outcome RubyEvidenceError Reading := do
  let invalid := RubyEvidenceError.invalidRecord name line
  refuseIf (ctx = 0) (invalid "phase context 0 is reserved for background")
  refuseIf (knownPhase phase = false) (invalid "unknown test phase")
  refuseIf (isBlank test = true ∨ isBlank worker = true)
    (invalid "phase identity must name a worker and test")
  let worker := if worker = requestWorker then requestWorker ++ ":" ++ name else worker
  let identity : Identity := { worker, test, retry, phase }
  let evidence := reading.evidence
  let contexts := Ordered.put ctx identity reading.contexts
  if startsWith worker requestWorker = true then
    return { reading with
      contexts
      evidence := { evidence with
        requests := evidence.requests ++
          [(identity, startedAt, line, name, reading.processWorker.getD "main")] } }
  else
    let started := attempt worker test retry
    return { reading with
      contexts
      beforeAssertion :=
        if phase = "call" then Ordered.put ctx {} reading.beforeAssertion
        else reading.beforeAssertion
      evidence := { evidence with
        phaseStarts := evidence.phaseStarts ++ [(name, line, started)]
        servedBy := entry name ∅ (insert started) evidence.servedBy } }

def absorbOutcome (worker test : String) (retry : Nat) (phase outcome : String) (xfail : Bool)
    (runner : String) (file : Option String) (tags : List String) (title : Option String)
    (reading : Reading) : Outcome RubyEvidenceError Reading := do
  let invalid := RubyEvidenceError.invalidRecord name line
  refuseIf (knownPhase phase = false) (invalid "unknown test outcome phase")
  refuseIf (outcome ∉ ["passed", "failed", "skipped", "rerun", "error"])
    (invalid "unknown test outcome")
  refuseIf (runner ∉ ["rspec", "minitest", "test-unit", "cucumber"])
    (invalid "unknown Ruby test runner")
  let evidence := reading.evidence
  let key := attempt worker test retry
  refuseIf (∃ previous ∈ Ordered.find key evidence.runners, previous ≠ runner)
    (invalid "one attempt was reported by two runners")
  return { reading with evidence := { evidence with
    runners := Ordered.put key runner evidence.runners
    testFiles := match file.filter (· ≠ "") with
      | some file => orInsert key file evidence.testFiles
      | none => evidence.testFiles
    testTitles := match title.filter (· ≠ "") with
      | some title => orInsert key title evidence.testTitles
      | none => evidence.testTitles
    testTags := tags.foldl (fun known tag =>
      entry key [] (fun tags => if tag ∈ tags then tags else tags ++ [tag]) known) evidence.testTags
    outcomes := entry key [] (foldOutcome phase outcome xfail) evidence.outcomes } }

/-- The first assertion of a call phase; a later one, or one elsewhere, changes nothing. -/
def absorbAssert (ctx : Nat) (reading : Reading) : Outcome RubyEvidenceError Reading :=
  match Ordered.find ctx reading.beforeAssertion with
  | none => .ok reading
  | some before =>
    match Ordered.find ctx reading.contexts with
    | none => .crashed
    | some identity =>
      let add (asserted : Observations) : Observations :=
        before.vectors.foldl (fun asserted entry => asserted.addVectors entry.1 entry.2)
          { asserted with hits := asserted.hits ∪ before.hits }
      .ok { reading with
        beforeAssertion := reading.beforeAssertion.filter (·.1 ≠ ctx)
        evidence := { reading.evidence with
          perIdentity := entry { identity with phase := "assertion" } {} add
            reading.evidence.perIdentity } }

def absorb (record : Record) (reading : Reading) : Outcome RubyEvidenceError Reading :=
  let invalid := RubyEvidenceError.invalidRecord name line
  let evidence := reading.evidence
  match record with
  | .process v run pid worker ruby lines =>
    absorbProcess name line runId transportPid v run pid worker ruby lines reading
  | .worker worker => .ok { reading with processWorker := some worker }
  | .lines mode => .ok { reading with evidence := { evidence with
      firstSighting := evidence.firstSighting || decide (mode ≠ "exact") } }
  | .phase ctx startedAt worker test retry phase =>
    absorbPhase name line ctx startedAt worker test retry phase reading
  | .outcome worker test retry phase outcome xfail runner file tags title =>
    absorbOutcome name line worker test retry phase outcome xfail runner file tags title reading
  | .hit ctx id =>
    (reading.before ctx (.addHits [id])).observe name line ctx (.addHits [id])
  | .ids first names => do
    refuseIf (first ≠ reading.interned.length)
      (invalid "id names must continue where the last ones ended")
    return { reading with interned := reading.interned ++ names }
  | .hits ctx n =>
    match n.mapM fun number => reading.interned[number]? with
    | none => .refused (invalid "hit number has no name")
    | some ids => (reading.before ctx (.addHits ids)).observe name line ctx (.addHits ids)
  | .dec ctx id v o => do
    let vector ← orRefuse invalid (decisionVector v o)
    (reading.before ctx (.addVectors id {vector})).observe name line ctx (.addVectors id {vector})
  | .assert ctx => absorbAssert ctx reading
  | .limitation id reason file obligation => .ok { reading with evidence := { evidence with
      limitations := evidence.limitations ++ [{ id, reason, file, obligation }] } }
  | .exit _ => .ok { reading with processReported := true }

/-- A process that started and never reported took with it what it had not written. -/
def Reading.finish (reading : Reading) : Evidence :=
  let evidence := reading.evidence
  if reading.processStarted && !reading.processReported then
    { evidence with limitations := evidence.limitations ++ [{
        id := "ruby-process-did-not-report"
        reason := "an interpreter process (pid " ++ toString transportPid ++ ") ended without reporting, so line, branch and method observations it made after its last test boundary are missing; a process killed with SIGKILL, or one that left through exit!, cannot flush them"
        file := none
        obligation := none }] }
  else evidence

end Absorbing

end Supercov.Ruby
