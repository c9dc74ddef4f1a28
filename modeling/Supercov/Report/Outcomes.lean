import Supercov.Library.Ordered
import Supercov.Report.Evidence

/-!
# Attempts and their outcomes

Three readings of a test's records: the outcome a view shows, and whether an
attempt is in the passing or in the failed results.  They are one reading
exactly where no record of an accepted attempt says that it failed, and the last
that says anything says that it passed.
-/

namespace Supercov.Report

open Analysis (McdcVector)
open Ordered (put)

structure TestAttempt where
  retry : Nat
  status : String
  expectedStatus : Option String
  deriving DecidableEq

structure MutableTest where
  id : String
  name : String
  file : Option String
  title : Option String
  retries : List Nat
  /-- By retry. -/
  attempts : List (Nat × TestAttempt)
  unstarted : Bool
  runnerReportedFlaky : Bool
  provenance : TestProvenance
  role : String
  attribution : String
  hits : List String
  /-- The vectors of each decision, once each, as they arrived. -/
  decisions : List (String × List McdcVector)
  deriving DecidableEq

/-- An attempt after one more record of it: a later record does not pass an
attempt an earlier one failed. -/
def nextAttempt (previous : Option TestAttempt) (retry : Nat) (rawStatus : String)
    (expectedStatus : Option String) : TestAttempt where
  retry := retry
  status :=
    if rawStatus = "unknown" ∨ previous.map (·.status) = some "failed" then
      (previous.map (·.status)).getD rawStatus
    else
      rawStatus
  expectedStatus := expectedStatus <|> previous.bind (·.expectedStatus)

def recordAttempt (attempts : List (Nat × TestAttempt)) (raw : RawTestResult) :
    List (Nat × TestAttempt) :=
  match raw.retry, raw.status with
  | some retry, some rawStatus =>
    put retry (nextAttempt (attempts.lookup retry) retry rawStatus raw.expectedStatus) attempts
  | _, _ => attempts

/-- A test as its first record names it. -/
def MutableTest.of (raw : RawTestResult) : MutableTest where
  id := rawTestId raw
  name := raw.test
  file := raw.testFile
  title := raw.title
  retries := raw.retry.toList
  attempts := []
  unstarted := raw.status = some "unstarted"
  runnerReportedFlaky := raw.flaky
  provenance := raw.provenance
  role := raw.role
  attribution := raw.attribution
  hits := []
  decisions := []

/-- What a record says of its test, its evidence apart. -/
def MutableTest.register (test : MutableTest) (raw : RawTestResult) : MutableTest :=
  { test with
    attribution := leastExact test.attribution raw.attribution
    unstarted := test.unstarted || raw.status = some "unstarted"
    retries := Ordered.setOf (test.retries ++ raw.retry.toList)
    runnerReportedFlaky := test.runnerReportedFlaky || raw.flaky
    attempts := recordAttempt test.attempts raw }

def effectiveAttemptStatus (attempt : TestAttempt) : String :=
  if attempt.expectedStatus = some "failed" then
    if attempt.status = "failed" then "passed"
    else if attempt.status = "passed" then "failed"
    else attempt.status
  else
    attempt.status

def testOutcome (test : MutableTest) : String :=
  match test.attempts.getLast? with
  | none => if test.unstarted then "unstarted" else "unknown"
  | some (_, terminal) =>
    let terminalStatus := effectiveAttemptStatus terminal
    let flaky :=
      test.runnerReportedFlaky ||
        test.attempts.dropLast.any fun entry => effectiveAttemptStatus entry.2 ≠ "passed"
    if terminalStatus = "passed" ∧ flaky then "flaky" else terminalStatus

/-- The test of this identity, as all its records make it. -/
def testOf (rawResults : List RawTestResult) (id : String) : Option MutableTest :=
  match rawResults.filter fun raw => rawTestId raw = id with
  | [] => none
  | first :: rest => some ((first :: rest).foldl MutableTest.register (.of first))

section Attempts

variable (rawResults : List RawTestResult) (id : String)

def attemptRecords (retry : Nat) : List RawTestResult :=
  rawResults.filter fun raw => rawTestId raw = id ∧ raw.retry = some retry

def attemptStatuses (retry : Nat) : List String :=
  (attemptRecords rawResults id retry).filterMap (·.status)

/-- The last attempt there is a record of. -/
def terminalRetry : Option Nat :=
  ((rawResults.filter fun raw => rawTestId raw = id).filterMap (·.retry)).max?

def Accepted (retry : Nat) : Prop :=
  terminalRetry rawResults id = some retry ∧ "passed" ∈ attemptStatuses rawResults id retry ∧
    ∀ raw ∈ attemptRecords rawResults id retry, raw.expectedStatus ≠ some "failed"

instance (retry : Nat) : Decidable (Accepted rawResults id retry) := by
  unfold Accepted
  infer_instance

def authoritative (retry : Nat) : List RawTestResult :=
  let records := attemptRecords rawResults id retry
  match records.filter (·.expectedStatus.isSome) with
  | [] => records
  | reported => reported

def failsAttempt (raw : RawTestResult) : Bool :=
  match raw.status, raw.expectedStatus with
  | some "failed", some "failed" => false
  | some "passed", some "failed" => true
  | some "failed", _ => true
  | _, _ => false

def failedAttempt (retry : Nat) : Bool := (authoritative rawResults id retry).any failsAttempt

end Attempts

def passingCoverageResults (rawResults : List RawTestResult) : List RawTestResult :=
  rawResults.filter fun raw =>
    raw.retry.any fun retry => Accepted rawResults (rawTestId raw) retry

def failedCoverageResults (rawResults : List RawTestResult) : List RawTestResult :=
  rawResults.filter fun raw =>
    raw.retry.any fun retry => failedAttempt rawResults (rawTestId raw) retry

/-- No record is in both views, and the tests of the passing results are shown as
passed or flaky. -/
structure ViewsAgree (rawResults : List RawTestResult) : Prop where
  apart : ∀ raw ∈ passingCoverageResults rawResults, raw ∉ failedCoverageResults rawResults
  shown : ∀ raw ∈ passingCoverageResults rawResults,
    ∃ test, testOf rawResults (rawTestId raw) = some test ∧
      (testOutcome test = "passed" ∨ testOutcome test = "flaky")

/-- No record of an accepted attempt says that it failed, and the last that says
anything says that it passed. -/
def RecordsAgree (rawResults : List RawTestResult) : Prop :=
  ∀ id retry, Accepted rawResults id retry →
    "failed" ∉ attemptStatuses rawResults id retry ∧
      ∃ last ∈ ((attemptStatuses rawResults id retry).filter (· ≠ "unknown")).getLast?,
        last = "passed" ∨ last = "flaky"

/-! ## What an attempt's records fold to -/

/-- The status of an attempt after one more record. -/
def laterStatus (previous : Option String) (status : String) : Option String :=
  some (if status = "unknown" ∨ previous = some "failed" then previous.getD status else status)

theorem foldl_laterStatus_of_failed {statuses : List String} (failed : "failed" ∈ statuses) :
    statuses.foldl laterStatus none = some "failed" := by
  induction statuses using List.reverseRecOn with
  | nil => cases failed
  | append_singleton statuses status ih =>
    rw [List.foldl_append, List.foldl_cons, List.foldl_nil]
    rcases List.mem_append.mp failed with earlier | last
    · rw [ih earlier]
      simp [laterStatus]
    · rw [← List.mem_singleton.mp last, laterStatus]
      split
      · next kept =>
        rcases kept with impossible | before
        · exact absurd impossible (by decide)
        · rw [before, Option.getD_some]
      · rfl

theorem foldl_laterStatus_of_not_failed {statuses : List String} (passes : "failed" ∉ statuses) :
    statuses.foldl laterStatus none =
      (statuses.filter (· ≠ "unknown")).getLast?.or (statuses.head?.map fun _ => "unknown") := by
  induction statuses using List.reverseRecOn with
  | nil => rfl
  | append_singleton statuses status ih =>
    obtain ⟨earlier, later⟩ := not_or.mp (List.mem_append.not.mp passes)
    have notFailed : (statuses.filter (· ≠ "unknown")).getLast?.or
        (statuses.head?.map fun _ => "unknown") ≠ some "failed" := by
      intro failed
      rcases Option.or_eq_some_iff.mp failed with said | ⟨-, unsaid⟩
      · exact earlier (List.mem_of_mem_filter (List.mem_of_getLast? said))
      · cases statuses with
        | nil => cases unsaid
        | cons first rest => simp at unsaid
    rw [List.foldl_append, List.foldl_cons, List.foldl_nil, ih earlier, List.filter_append,
      laterStatus]
    by_cases unknown : status = "unknown"
    · have unsaid : (["unknown"].filter fun status => decide (status ≠ "unknown")) = [] := rfl
      rw [if_pos (Or.inl unknown), unknown, unsaid, List.append_nil]
      generalize (statuses.filter fun status => decide (status ≠ "unknown")).getLast? = said
      cases statuses <;> cases said <;> rfl
    · have said : ([status].filter fun status => decide (status ≠ "unknown")) = [status] := by
        simp [unknown]
      rw [if_neg (not_or.mpr ⟨unknown, notFailed⟩), said, List.getLast?_concat, Option.some_or]

/-- What an attempt's records fold to. -/
def attemptAfter (retry : Nat) (previous : Option TestAttempt) (raw : RawTestResult) :
    Option TestAttempt :=
  match raw.retry, raw.status with
  | some at_, some rawStatus =>
    if at_ = retry then some (nextAttempt previous retry rawStatus raw.expectedStatus) else previous
  | _, _ => previous

theorem lookup_recordAttempt (attempts : List (Nat × TestAttempt)) (raw : RawTestResult)
    (retry : Nat) :
    (recordAttempt attempts raw).lookup retry = attemptAfter retry (attempts.lookup retry) raw := by
  rw [recordAttempt, attemptAfter]
  split
  · rw [Ordered.lookup_put]
    grind
  · rfl

theorem lookup_attempts (records : List RawTestResult) (test : MutableTest) (retry : Nat) :
    (records.foldl MutableTest.register test).attempts.lookup retry =
      records.foldl (attemptAfter retry) (test.attempts.lookup retry) := by
  induction records generalizing test with
  | nil => rfl
  | cons raw records ih =>
    rw [List.foldl_cons, List.foldl_cons, ih]
    exact congrArg (List.foldl _ · records) (lookup_recordAttempt _ _ _)

theorem sorted_attempts (records : List RawTestResult) {test : MutableTest}
    (sorted : Ordered.Sorted test.attempts) :
    Ordered.Sorted (records.foldl MutableTest.register test).attempts := by
  induction records generalizing test with
  | nil => exact sorted
  | cons raw records ih =>
    apply ih
    change Ordered.Sorted (recordAttempt test.attempts raw)
    unfold recordAttempt
    split
    · exact sorted.put _ _
    · exact sorted

theorem status_attemptAfter (records : List RawTestResult) (retry : Nat)
    (previous : Option TestAttempt) :
    (records.foldl (attemptAfter retry) previous).map (·.status) =
      ((records.filter fun raw => raw.retry = some retry).filterMap (·.status)).foldl laterStatus
        (previous.map (·.status)) := by
  induction records generalizing previous with
  | nil => rfl
  | cons raw records ih =>
    rw [List.foldl_cons, ih, attemptAfter]
    cases at_ : raw.retry with
    | none => simp [at_]
    | some other =>
      cases said : raw.status with
      | none => by_cases here : other = retry <;> simp [at_, said, here]
      | some status =>
        by_cases here : other = retry
        · subst here
          simp [at_, said, laterStatus, nextAttempt]
        · simp [at_, here]

theorem expectedStatus_attemptAfter (records : List RawTestResult) (retry : Nat)
    (unexpected : ∀ raw ∈ records, raw.retry = some retry → raw.expectedStatus ≠ some "failed")
    (previous : Option TestAttempt)
    (before : previous.bind (·.expectedStatus) ≠ some "failed") :
    (records.foldl (attemptAfter retry) previous).bind (·.expectedStatus) ≠ some "failed" := by
  induction records generalizing previous with
  | nil => exact before
  | cons raw records ih =>
    rw [List.foldl_cons]
    apply ih fun raw member => unexpected raw (List.mem_cons_of_mem _ member)
    have first := unexpected raw List.mem_cons_self
    unfold attemptAfter
    split
    · next found _ =>
      split
      · next here =>
        rw [here] at found
        change (raw.expectedStatus <|> previous.bind (·.expectedStatus)) ≠ some "failed"
        cases known : raw.expectedStatus with
        | none => simpa using before
        | some expected => simpa [known] using first found
      · exact before
    · exact before

/-! ## The test a view shows -/

section Shown

variable {rawResults : List RawTestResult} {id : String} {test : MutableTest}

theorem attempts_testOf (known : testOf rawResults id = some test) :
    ∃ first, test =
      (rawResults.filter fun raw => rawTestId raw = id).foldl MutableTest.register (.of first) := by
  unfold testOf at known
  split at known
  · cases known
  · next first rest found => exact ⟨first, by rw [found]; exact (Option.some.inj known).symm⟩

theorem exists_testOf {raw : RawTestResult} (member : raw ∈ rawResults) :
    ∃ test, testOf rawResults (rawTestId raw) = some test := by
  unfold testOf
  split
  · next none =>
    have among : raw ∈ rawResults.filter fun other => rawTestId other = rawTestId raw :=
      List.mem_filter.mpr ⟨member, decide_eq_true rfl⟩
    rw [none] at among
    cases among
  · exact ⟨_, rfl⟩

theorem lookup_testOf (known : testOf rawResults id = some test) (retry : Nat) :
    test.attempts.lookup retry =
      (rawResults.filter fun raw => rawTestId raw = id).foldl (attemptAfter retry) none := by
  obtain ⟨first, rfl⟩ := attempts_testOf known
  exact lookup_attempts _ _ retry

theorem filter_attemptRecords (rawResults : List RawTestResult) (id : String) (retry : Nat) :
    (rawResults.filter fun raw => rawTestId raw = id).filter (fun raw => raw.retry = some retry) =
      attemptRecords rawResults id retry := by
  rw [attemptRecords, List.filter_filter]
  congr 1
  funext raw
  simp [Bool.and_comm]

theorem status_testOf (known : testOf rawResults id = some test) (retry : Nat) :
    (test.attempts.lookup retry).map (·.status) =
      (attemptStatuses rawResults id retry).foldl laterStatus none := by
  rw [lookup_testOf known, status_attemptAfter, filter_attemptRecords]
  rfl

theorem foldl_laterStatus_isSome {statuses : List String} (previous : Option String)
    (some_ : statuses ≠ [] ∨ previous.isSome) : (statuses.foldl laterStatus previous).isSome := by
  induction statuses generalizing previous with
  | nil => simpa using some_
  | cons status statuses ih => exact ih _ (Or.inr rfl)

theorem terminal_testOf (known : testOf rawResults id = some test) {retry : Nat}
    (accepted : Accepted rawResults id retry) :
    ∃ attempt, test.attempts.getLast? = some (retry, attempt) ∧
      test.attempts.lookup retry = some attempt := by
  obtain ⟨terminal, passed, -⟩ := accepted
  have sorted : Ordered.Sorted test.attempts := by
    obtain ⟨first, rfl⟩ := attempts_testOf known
    exact sorted_attempts _ List.Pairwise.nil
  have held : ∃ attempt, test.attempts.lookup retry = some attempt := by
    have folded := foldl_laterStatus_isSome none
      (Or.inl (List.ne_nil_of_mem passed))
    rw [← status_testOf known, Option.isSome_map] at folded
    exact Option.isSome_iff_exists.mp folded
  -- Every other attempt is of a record of this test, and so not later.
  have latest : ∀ other ∈ test.attempts.map Prod.fst, other ≤ retry := by
    intro other member
    obtain ⟨attempt, found⟩ := Ordered.mem_keys_iff_lookup.mp member
    have folded := status_testOf known other
    rw [found] at folded
    cases statuses : attemptStatuses rawResults id other with
    | nil =>
      rw [statuses] at folded
      cases folded
    | cons status rest =>
      have among : status ∈ attemptStatuses rawResults id other := by
        rw [statuses]
        exact List.mem_cons_self
      obtain ⟨raw, recorded, -⟩ := List.mem_filterMap.mp among
      obtain ⟨member, of⟩ := List.mem_filter.mp recorded
      obtain ⟨sameTest, sameRetry⟩ := of_decide_eq_true of
      apply (List.max?_eq_some_iff.mp terminal).2
      exact List.mem_filterMap.mpr
        ⟨raw, List.mem_filter.mpr ⟨member, decide_eq_true sameTest⟩, sameRetry⟩
  obtain ⟨attempt, found⟩ := held
  have keyed := Ordered.mem_keys_iff_lookup.mpr ⟨attempt, found⟩
  cases lastFound : test.attempts.getLast? with
  | none =>
    rw [List.getLast?_eq_none_iff.mp lastFound] at keyed
    cases keyed
  | some last =>
    obtain ⟨lookup, greatest⟩ := sorted.getLast? lastFound
    have same : last.1 = retry :=
      le_antisymm (latest last.1 (Ordered.mem_keys_iff_lookup.mpr ⟨_, lookup⟩)) (greatest _ keyed)
    rw [same, found] at lookup
    refine ⟨attempt, ?_, found⟩
    rw [Option.some.inj lookup, ← same]

theorem testOutcome_passed_iff {retry : Nat} {attempt : TestAttempt}
    (terminal : test.attempts.getLast? = some (retry, attempt))
    (unexpected : attempt.expectedStatus ≠ some "failed") :
    testOutcome test = "passed" ∨ testOutcome test = "flaky" ↔
      attempt.status = "passed" ∨ attempt.status = "flaky" := by
  have effective : effectiveAttemptStatus attempt = attempt.status := if_neg unexpected
  rw [testOutcome, terminal]
  simp only [effective]
  split
  · next passed => simp [passed.1]
  · rfl

theorem shown_iff (known : testOf rawResults id = some test) {retry : Nat}
    (accepted : Accepted rawResults id retry) :
    testOutcome test = "passed" ∨ testOutcome test = "flaky" ↔
      "failed" ∉ attemptStatuses rawResults id retry ∧
        ∃ last ∈ ((attemptStatuses rawResults id retry).filter (· ≠ "unknown")).getLast?,
          last = "passed" ∨ last = "flaky" := by
  obtain ⟨attempt, terminal, found⟩ := terminal_testOf known accepted
  obtain ⟨-, passed, unexpected⟩ := accepted
  have expected : attempt.expectedStatus ≠ some "failed" := by
    have folded := expectedStatus_attemptAfter
      (rawResults.filter fun raw => rawTestId raw = id) retry (fun raw member at_ => unexpected raw (by
        rw [← filter_attemptRecords]
        exact List.mem_filter.mpr ⟨member, decide_eq_true at_⟩))
      none (by simp)
    rw [← lookup_testOf known, found] at folded
    exact folded
  have status := status_testOf known retry
  rw [found, Option.map_some] at status
  rw [testOutcome_passed_iff terminal expected]
  by_cases failed : "failed" ∈ attemptStatuses rawResults id retry
  · rw [foldl_laterStatus_of_failed failed, Option.some.injEq] at status
    simp [failed, status]
  · rw [foldl_laterStatus_of_not_failed failed] at status
    cases said : ((attemptStatuses rawResults id retry).filter (· ≠ "unknown")).getLast? with
    | none =>
      have nothing := List.getLast?_eq_none_iff.mp said
      have known : "passed" ≠ "unknown" := by decide
      have among := List.filter_eq_nil_iff.mp nothing "passed" passed
      exact absurd (decide_eq_true known) among
    | some last =>
      rw [said, Option.some_or, Option.some.injEq] at status
      simp [failed, status]

end Shown

theorem mem_passingCoverageResults {rawResults : List RawTestResult} {raw : RawTestResult} :
    raw ∈ passingCoverageResults rawResults ↔ raw ∈ rawResults ∧
      ∃ retry, raw.retry = some retry ∧ Accepted rawResults (rawTestId raw) retry := by
  simp only [passingCoverageResults, List.mem_filter]
  cases raw.retry <;> simp

theorem mem_failedCoverageResults {rawResults : List RawTestResult} {raw : RawTestResult} :
    raw ∈ failedCoverageResults rawResults ↔ raw ∈ rawResults ∧
      ∃ retry, raw.retry = some retry ∧ failedAttempt rawResults (rawTestId raw) retry = true := by
  simp only [failedCoverageResults, List.mem_filter]
  cases raw.retry <;> simp

theorem failed_of_failedAttempt {rawResults : List RawTestResult} {id : String} {retry : Nat}
    (accepted : Accepted rawResults id retry) (fails : failedAttempt rawResults id retry = true) :
    "failed" ∈ attemptStatuses rawResults id retry := by
  obtain ⟨raw, among, failing⟩ := List.any_eq_true.mp fails
  have member : raw ∈ attemptRecords rawResults id retry := by
    unfold authoritative at among
    simp only at among
    split at among
    · exact among
    · exact List.mem_of_mem_filter among
  have unexpected := accepted.2.2 raw member
  apply List.mem_filterMap.mpr
  refine ⟨raw, member, ?_⟩
  unfold failsAttempt at failing
  split at failing
  · cases failing
  · next expected => exact absurd expected unexpected
  · next failed _ => exact failed
  · cases failing

/-- The readings of a test's records agree exactly where the records of every accepted
attempt do. -/
theorem viewsAgree_iff (rawResults : List RawTestResult) :
    ViewsAgree rawResults ↔ RecordsAgree rawResults := by
  constructor
  · intro agree id retry accepted
    obtain ⟨status, passed⟩ := List.exists_mem_of_ne_nil _ (List.ne_nil_of_mem accepted.2.1)
    obtain ⟨raw, recorded, -⟩ := List.mem_filterMap.mp passed
    obtain ⟨member, of⟩ := List.mem_filter.mp recorded
    obtain ⟨rfl, at_⟩ := of_decide_eq_true of
    obtain ⟨test, known, shown⟩ :=
      agree.shown raw (mem_passingCoverageResults.mpr ⟨member, retry, at_, accepted⟩)
    exact (shown_iff known accepted).mp shown
  · intro agree
    constructor
    · intro raw passing failing
      obtain ⟨-, retry, at_, accepted⟩ := mem_passingCoverageResults.mp passing
      obtain ⟨-, other, also, fails⟩ := mem_failedCoverageResults.mp failing
      obtain rfl := Option.some.inj (at_.symm.trans also)
      exact (agree _ _ accepted).1 (failed_of_failedAttempt accepted fails)
    · intro raw passing
      obtain ⟨member, retry, -, accepted⟩ := mem_passingCoverageResults.mp passing
      obtain ⟨test, known⟩ := exists_testOf member
      exact ⟨test, known, (shown_iff known accepted).mpr (agree _ _ accepted)⟩

/-- A record of the test `t`'s only attempt. -/
def ranOnce (status : String) : RawTestResult where
  testId := none
  scope := none
  test := "t"
  testFile := none
  title := none
  retry := some 0
  status := some status
  expectedStatus := none
  flaky := false
  provenance := { runner := "r", kind := "unit", project := none, source := "s", tags := [] }
  role := "test"
  attribution := attributionExact
  phases := []
  runtime := []
  browser := []
  server := []
  span := none

/-- A test run twice under one identity, once passing and once failing, is in both
views. -/
theorem ranTwice_in_both : ¬ ViewsAgree [ranOnce "passed", ranOnce "failed"] := by
  intro agree
  apply agree.apart (ranOnce "passed")
  · decide +kernel
  · decide +kernel

end Supercov.Report
