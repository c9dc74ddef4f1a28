import Supercov.Index.Kept
import Supercov.Query.Test
import Supercov.Report.Unordered

/-!
# When asking for a test crashes

A test's record lists every decision it saw that the manifest declares, one declined
included; the view, and the index with it, has no decision that was declined.
-/

namespace Supercov.Report

theorem testResults_spec {ingest : Ingest} {log : Log} (noted : Noted ingest log)
    (points : List PointMeta) :
    ((ingest.testResults points).map (·.id)).Nodup ∧
      (∀ test ∈ ingest.testResults points, ∀ decision,
        decision ∈ test.decisions.map (·.id) ↔
          ∃ vector, (test.id, .vector decision vector) ∈ log) ∧
      ∀ entry ∈ log, ∃ test ∈ ingest.testResults points, test.id = entry.1 := by
  have records : ∀ record, record ∈ ingest.testOrder.filterMap ingest.recordOf ↔
      ingest.tests.lookup record.id = some record := by
    intro record
    rw [List.mem_filterMap]
    constructor
    · intro ⟨id, _, found⟩
      rw [noted.named id record found]
      exact found
    · intro found
      exact ⟨record.id, (noted.known record.id).mpr (by simp [found]), found⟩
  have perm := List.perm_insertionSort (fun left right : MutableTest => left.name ≤ right.name)
    (ingest.testOrder.filterMap ingest.recordOf)
  have shown : ∀ test, test ∈ ingest.testResults points ↔
      ∃ record, ingest.tests.lookup record.id = some record ∧ testResult points record = test := by
    intro test
    rw [Ingest.testResults, List.mem_map]
    apply exists_congr
    intro record
    rw [perm.mem_iff, records]
  refine ⟨?_, ?_, ?_⟩
  · have ids : (ingest.testResults points).map (·.id) =
        ((ingest.testOrder.filterMap ingest.recordOf).insertionSort (·.name ≤ ·.name)).map
          (·.id) := by
      rw [Ingest.testResults, List.map_map]
      rfl
    rw [ids, (perm.map (·.id)).nodup_iff]
    have order : (ingest.testOrder.filterMap ingest.recordOf).map (·.id) = ingest.testOrder := by
      rw [List.map_filterMap]
      have each : ∀ id ∈ ingest.testOrder,
          (ingest.recordOf id).map (·.id) = some id := by
        intro id member
        obtain ⟨record, found⟩ := Option.isSome_iff_exists.mp ((noted.known id).mp member)
        rw [Ingest.recordOf, found, Option.map_some, noted.named id record found]
      rw [List.filterMap_congr each, List.filterMap_some]
    rw [order]
    exact noted.once
  · intro test member decision
    obtain ⟨record, found, rfl⟩ := (shown test).mp member
    have decisions : (testResult points record).decisions.map (·.id) =
        record.decisions.map Prod.fst := by
      rw [testResult, List.map_map]
      rfl
    rw [decisions]
    exact noted.recorded record.id record found decision
  · intro entry member
    obtain ⟨record, found⟩ :=
      Option.isSome_iff_exists.mp ((noted.known entry.1).mp (noted.logged entry member))
    have own := noted.named entry.1 record found
    exact ⟨_, (shown _).mpr ⟨record, own ▸ found, rfl⟩, own⟩

theorem measures_of_logged {manifest : CoverageManifest} {rawResults : List RawTestResult}
    {test decision : String} {vector : Analysis.McdcVector}
    (logged : (test, .vector decision vector) ∈ logOf manifest rawResults) :
    Measures manifest decision := by
  have ofDecision (snapshot : DecisionSnapshot)
      (member : .vector decision vector ∈ decisionItems manifest snapshot) :
      Measures manifest decision := by
    obtain ⟨measured, _, _, same⟩ := mem_decisionItems.mp member
    cases same
    exact measured
  obtain ⟨raw, -, member⟩ := List.mem_flatMap.mp logged
  obtain ⟨item, member, same⟩ := List.mem_map.mp member
  cases same
  rcases List.mem_append.mp member with snapshots | server
  · obtain ⟨snapshot, -, member⟩ := List.mem_flatMap.mp snapshots
    rcases List.mem_append.mp member with decided | hit
    · obtain ⟨own, -, member⟩ := List.mem_flatMap.mp decided
      exact ofDecision own member
    · simp at hit
  · obtain ⟨record, -, member⟩ := List.mem_flatMap.mp server
    unfold recordItems at member
    split_ifs at member
    · split at member
      · exact ofDecision _ member
      · cases member
    · simp at member
    · cases member

theorem BuiltOf.mem_decisions {manifest : CoverageManifest} {ingest : Ingest}
    {decisions : List DecisionResult} {outcomeBranches : List BranchResult} {view : CoverageView}
    (built : BuiltOf manifest ingest decisions outcomeBranches view) {decision : String} :
    decision ∈ view.decisions.map (·.decision.id) ↔
      Measures manifest decision ∧ decision ∉ declinedOf manifest := by
  have ids : view.decisions.map (·.decision.id) = (measuredDecisions manifest).map (·.id) := by
    rw [← built.decisions_measured, List.map_map]
    rfl
  rw [ids, measuredDecisions, Measures]
  simp only [orderedDecisions, List.mem_map, List.mem_filter, List.mem_insertionSort,
    decide_eq_true_eq, List.any_eq_true]
  constructor
  · rintro ⟨own, ⟨member, kept⟩, same⟩
    exact ⟨⟨own, member, same⟩, same ▸ kept⟩
  · rintro ⟨⟨own, member, same⟩, kept⟩
    exact ⟨own, ⟨member, same ▸ kept⟩, same⟩

theorem tests_spec {declared : CoverageManifest} {rawResults : List RawTestResult}
    {generatedAt : String} {model : CoverageModelDeclaration} {view : CoverageView}
    (built : createCoverageView declared rawResults generatedAt model = .ok view) :
    (view.tests.map (·.id)).Nodup ∧
      (∀ test ∈ view.tests, ∀ decision ∈ test.decisions.map (·.id),
        (decision ∈ view.decisions.map (·.decision.id) ↔
          decision ∉ declinedOf (settled declared))) ∧
      ((∀ test ∈ view.tests, ∀ decision ∈ test.decisions.map (·.id),
          decision ∈ view.decisions.map (·.decision.id)) ↔
        ∀ test decision vector,
          (test, .vector decision vector) ∈ logOf (settled declared) rawResults →
            decision ∉ declinedOf (settled declared)) := by
  obtain ⟨ingest, decisions, branches, read, built⟩ := exists_built built
  obtain ⟨noted, -⟩ := Noted.ingestResults read
  obtain ⟨distinct, listed, all⟩ := testResults_spec noted (settled declared).points
  rw [← built.tests] at distinct listed all
  have own : ∀ test ∈ view.tests, ∀ decision ∈ test.decisions.map (·.id),
      (decision ∈ view.decisions.map (·.decision.id) ↔
        decision ∉ declinedOf (settled declared)) := by
    intro test member decision seen
    obtain ⟨vector, logged⟩ := (listed test member decision).mp seen
    rw [built.mem_decisions]
    exact and_iff_right (measures_of_logged logged)
  refine ⟨distinct, own, ?_, ?_⟩
  · intro lists test decision vector logged
    obtain ⟨shown, member, same⟩ := all _ logged
    have seen := (listed shown member decision).mpr ⟨vector, same ▸ logged⟩
    exact (own shown member decision seen).mp (lists shown member decision seen)
  · intro kept test member decision seen
    obtain ⟨vector, logged⟩ := (listed test member decision).mp seen
    exact (own test member decision seen).mpr (kept test.id decision vector logged)

end Supercov.Report

namespace Supercov.Query

open Report
open Index

variable {toLowercase : String → String} {index : CoverageIndex}
  {options : CoverageTestQueryOptions}

theorem shownDecision_crashes_iff {decisions : List DecisionMeta} {decision : TestDecisionResult} :
    shownDecision decisions decision = .crashed ↔ decision.id ∉ decisions.map (·.id) := by
  unfold shownDecision
  cases found : decisions.reverse.find? (·.id = decision.id) with
  | some shown =>
    have same := List.find?_some found
    have member := List.mem_of_find?_eq_some found
    rw [List.mem_reverse] at member
    simp only [reduceCtorEq, false_iff, not_not]
    exact List.mem_map.mpr ⟨shown, member, by simpa using same⟩
  | none =>
    have none := List.find?_eq_none.mp found
    simp only [true_iff]
    intro member
    obtain ⟨shown, among, same⟩ := List.mem_map.mp member
    exact none shown (List.mem_reverse.mpr among) (by simpa using same)

theorem testDetail_crashes_iff {test : IndexedTestDetail} :
    testDetail index options test = .crashed ↔
      ∃ decision ∈ page options test.decisions,
        decision.id ∉ (index.decisionMetadataOf options.view).map (·.id) := by
  have accepts (decision : TestDecisionResult) (error : QueryError) :
      shownDecision (index.decisionMetadataOf options.view) decision ≠ .refused error := by
    unfold shownDecision
    split <;> simp
  have shown : Outcome.collect (shownDecision (index.decisionMetadataOf options.view))
      (page options test.decisions) = .crashed ↔ _ :=
    Outcome.collect_eq_crashed_iff accepts
  simp only [shownDecision_crashes_iff] at shown
  rw [← shown]
  unfold testDetail
  dsimp only
  cases Outcome.collect (shownDecision (index.decisionMetadataOf options.view))
    (page options test.decisions) <;> simp

def ShowsOwnDecisions (toLowercase : String → String) (details : List IndexedTestDetail)
    (decisions : List String) (options : CoverageTestQueryOptions) : Prop :=
  ∀ test, matchingTests toLowercase details
      (testsSelected (details.map (·.summary)) options.kind options.runner) options.selector =
        [test] →
    ∀ decision ∈ page options test.decisions, decision.id ∈ decisions

theorem coverageTestQuery_crashes_iff {details : CoverageViewId → List IndexedTestDetail}
    (read : ∀ view, index.testDetails view = .ok (details view)) :
    coverageTestQuery toLowercase index options ≠ .crashed ↔
      ShowsOwnDecisions toLowercase (details options.view)
        ((index.decisionMetadataOf options.view).map (·.id)) options := by
  unfold coverageTestQuery ShowsOwnDecisions
  by_cases limit : options.limit = 0
  · rw [Outcome.refuseIf_pos limit, Outcome.refused_bind]
    simp [page, limit]
  · rw [Outcome.refuseIf_neg limit, Outcome.ok_bind, read, reading, Outcome.ok_bind]
    generalize chosen : testsSelected ((details options.view).map (·.summary)) options.kind
      options.runner = selected
    unfold selectedTestIds
    dsimp only
    rw [chosen]
    by_cases empty : selected = some []
    · subst empty
      simp [Outcome.refuseIf_pos, matchingTests]
    · rw [Outcome.refuseIf_neg empty]
      simp only [Outcome.ok_bind, Outcome.pure_eq]
      split
      · next none =>
        rw [none]
        split_ifs
        · rw [read]
          simp only [reading, Outcome.ok_bind]
          split_ifs <;> simp
        · simp
      · next test sole =>
        rw [sole, ne_eq, testDetail_crashes_iff]
        simp
      · next several _ notSole =>
        simp only [ne_eq, reduceCtorEq, not_false_eq_true, true_iff]
        intro test sole
        exact absurd sole (notSole test)

/-- A run's index: of the views of one manifest over all results, those that passed
and those that failed. -/
structure RunIndex (declared : CoverageManifest) (results : CoverageViewId → List RawTestResult)
    (generatedAt : String) (model : CoverageModelDeclaration)
    (views : CoverageViewId → CoverageView) (index : CoverageIndex) : Prop where
  built : ∀ view, createCoverageView declared (results view) generatedAt model = .ok (views view)
  written : coverageIndexSections ([.all, .passed, .failed].map fun view => (view, views view)) =
    .ok index

def ListsOwnDecisions (view : CoverageView) : Prop :=
  ∀ test ∈ view.tests, ∀ decision ∈ test.decisions.map (·.id),
    decision ∈ view.decisions.map (·.decision.id)

def PageMeasured (toLowercase : String → String) (declared : CoverageManifest)
    (view : CoverageView) (options : CoverageTestQueryOptions) : Prop :=
  ∀ test, matchingTests toLowercase (view.tests.map detailOf)
      (testsSelected (view.tests.map testSummary) options.kind options.runner) options.selector =
        [test] →
    ∀ decision ∈ page options test.decisions, decision.id ∉ declinedOf (settled declared)

section Run

variable {declared : CoverageManifest} {results : CoverageViewId → List RawTestResult}
  {generatedAt : String} {model : CoverageModelDeclaration} {views : CoverageViewId → CoverageView}
  (run : RunIndex declared results generatedAt model views index)

include run

theorem RunIndex.testDetails (view : CoverageViewId) :
    index.testDetails view = .ok ((views view).tests.map detailOf) := by
  have keeps := keeps_of_coverageIndexSections run.written
  have own : viewTests view (testsOf ([.all, .passed, .failed].map fun view => (view, views view))) =
      (views view).tests := by
    cases view <;> simp [testsOf, viewTests, List.filter_map, Function.comp_def]
  rw [testDetails_eq keeps, own]
  rw [own]
  exact (tests_spec (run.built view)).1

theorem RunIndex.decisionMetadataOf (view : CoverageViewId) :
    (index.decisionMetadataOf view).map (·.id) = (views view).decisions.map (·.decision.id) := by
  rw [decisionMetadataOf_eq (keeps_of_coverageIndexSections run.written)]
  cases view <;> simp [decisionsOf, List.filter_map, Function.comp_def]

/-- A query crashes exactly where the page of the one test selected has a decision that
was declined; and a view's tests list decisions of the view exactly where none declined
was seen. -/
theorem coverageTestQuery_safe_iff (toLowercase : String → String) :
    (∀ options, coverageTestQuery toLowercase index options ≠ .crashed ↔
      PageMeasured toLowercase declared (views options.view) options) ∧
    ∀ view, ListsOwnDecisions (views view) ↔
      ∀ test decision vector,
        (test, .vector decision vector) ∈ logOf (settled declared) (results view) →
          decision ∉ declinedOf (settled declared) := by
  constructor
  · intro options
    obtain ⟨-, own, -⟩ := tests_spec (run.built options.view)
    rw [coverageTestQuery_crashes_iff run.testDetails, ShowsOwnDecisions, PageMeasured,
      run.decisionMetadataOf, List.map_map]
    apply forall_congr'
    intro test
    apply imp_congr_right
    intro sole
    have among : test ∈ (views options.view).tests.map detailOf := by
      have member : test ∈ [test] := List.mem_singleton_self test
      rw [← sole] at member
      exact (List.mem_filter.mp (List.mem_filter.mp member).1).1
    obtain ⟨shown, member, rfl⟩ := List.mem_map.mp among
    apply forall₂_congr
    intro decision paged
    have seen : decision ∈ shown.decisions := List.mem_of_mem_drop (List.mem_of_mem_take paged)
    exact own shown member decision.id (List.mem_map_of_mem seen)
  · intro view
    exact (tests_spec (run.built view)).2.2

end Run

def runOf (result : RawTestResult) : CoverageViewId → List RawTestResult
  | .failed => []
  | _ => [result]

def asked : CoverageTestQueryOptions where
  run := "r"
  view := .all
  kind := none
  runner := none
  selector := "t"
  offset := 0
  limit := 1

theorem reaching_isOk (view : CoverageViewId) :
    (createCoverageView (oneDecision []) (runOf reaching view) "" bareModel).isOk := by
  cases view <;> rfl

def reachingViews (view : CoverageViewId) : CoverageView :=
  (createCoverageView (oneDecision []) (runOf reaching view) "" bareModel).get
    (reaching_isOk view)

theorem reaching_written :
    (coverageIndexSections
      ([.all, .passed, .failed].map fun view => (view, reachingViews view))).isOk := by
  decide +kernel

/-- A test that saw the one decision, which is measured. -/
theorem reaching_safe :
    (∀ options,
      coverageTestQuery String.toLower (Outcome.get _ reaching_written) options ≠ .crashed ↔
        PageMeasured String.toLower (oneDecision []) (reachingViews options.view) options) ∧
    ∀ view, ListsOwnDecisions (reachingViews view) ↔
      ∀ test decision vector,
        (test, .vector decision vector) ∈ logOf (settled (oneDecision [])) (runOf reaching view) →
          decision ∉ declinedOf (settled (oneDecision [])) :=
  coverageTestQuery_safe_iff
    (RunIndex.mk (fun view => Outcome.eq_ok_get _ (reaching_isOk view))
      (Outcome.eq_ok_get _ reaching_written))
    String.toLower

theorem declined_isOk (view : CoverageViewId) :
    (createCoverageView (oneDecision ["d"]) (runOf reaching view) "" bareModel).isOk := by
  cases view <;> rfl

def declinedViews (view : CoverageViewId) : CoverageView :=
  (createCoverageView (oneDecision ["d"]) (runOf reaching view) "" bareModel).get
    (declined_isOk view)

theorem declined_written :
    (coverageIndexSections
      ([.all, .passed, .failed].map fun view => (view, declinedViews view))).isOk := by
  decide +kernel

/-- A test that saw the one decision, which is declined: to ask for the test crashes. -/
theorem declined_crashes : ∃ views index,
    RunIndex (oneDecision ["d"]) (runOf reaching) "" bareModel views index ∧
      ¬ ListsOwnDecisions (views .all) ∧
      1 ≤ asked.limit ∧ coverageTestQuery String.toLower index asked = .crashed := by
  refine ⟨declinedViews, Outcome.get _ declined_written,
    ⟨fun view => Outcome.eq_ok_get _ (declined_isOk view), Outcome.eq_ok_get _ declined_written⟩,
    ?_, le_rfl, Outcome.crashes_iff.mp (by decide +kernel)⟩
  unfold ListsOwnDecisions
  decide +kernel

end Supercov.Query
