import Supercov.Index.Selected
import Supercov.Report.Unordered

/-!
# Rows, projections and a blocked measurement

A view counts its tests by kind and by runner, and the index counts them once more, by
kind, by runner and by both.  The two select their tests differently, and only the
view's own summary is marked where a limitation blocks the measurement.
-/

namespace Supercov.Index

open Analysis (CoverageCoreInput CoverageSummary analyzeCore)
open Report
open Ordered (setOf)

structure Projection where
  kind : Option String
  runner : Option String
  selected : List String

def selectedBy (view : CoverageView) (kind runner : Option String) : List String :=
  (view.tests.filter fun test =>
    kind.all (test.provenance.kind = ·) && runner.all (test.provenance.runner = ·)).map (·.id)

def selectors (view : CoverageView) : List (Option String × Option String) :=
  let kinds := setOf (view.tests.map (·.provenance.kind))
  let runners := setOf (view.tests.map (·.provenance.runner))
  (kinds.map fun kind => (some kind, none)) ++ (runners.map fun runner => (none, some runner)) ++
    kinds.flatMap fun kind => runners.map fun runner => (some kind, some runner)

def projections (view : CoverageView) : List Projection :=
  (selectors view).filterMap fun (kind, runner) =>
    let selected := selectedBy view kind runner
    if selected.isEmpty then none else some { kind, runner, selected }

/-- The summary that a record of the index holds, of the whole view or of some tests. -/
def projectionRecord (view : CoverageView) :
    Option (List String) → Outcome ReportError CoverageSummary
  | none => .ok view.summary
  | some selected =>
    match coverageSummaryForTests view selected with
    | .ok summary => .ok summary
    -- "a view is checked before any record is written"
    | _ => .crashed

theorem mem_projections {view : CoverageView} {projection : Projection} :
    projection ∈ projections view ↔ (projection.kind, projection.runner) ∈ selectors view ∧
      projection.selected = selectedBy view projection.kind projection.runner ∧
      projection.selected ≠ [] := by
  obtain ⟨kind, runner, selected⟩ := projection
  simp only [projections, List.mem_filterMap, Prod.exists]
  constructor
  · rintro ⟨kind', runner', member, made⟩
    split at made
    · cases made
    · next some_ =>
      cases made
      exact ⟨member, rfl, by simpa using some_⟩
  · rintro ⟨member, rfl, some_⟩
    exact ⟨kind, runner, member, if_neg (by simpa using some_)⟩

/-- A summary that is given of the view or of any of its tests. -/
inductive Reported (view : CoverageView) : CoverageSummary → Prop where
  | whole : Reported view view.summary
  | row {row : DimensionCoverage} : row ∈ view.coverageByKind ++ view.coverageByRunner →
      Reported view row.summary
  | projection {projection : Projection} {summary : CoverageSummary} :
      projection ∈ projections view →
      projectionRecord view (some projection.selected) = .ok summary → Reported view summary
  | tests {testIds : List String} {summary : CoverageSummary} :
      coverageSummaryForTests view testIds = .ok summary → Reported view summary

def CountsAsProjected (view : CoverageView) (row : DimensionCoverage) : Prop :=
  (∃ projection ∈ projections view, projection.kind = row.kind ∧ projection.runner = row.runner) ∧
    ∀ projection ∈ projections view, projection.kind = row.kind → projection.runner = row.runner →
      ∃ summary, projectionRecord view (some projection.selected) = .ok summary ∧
        summary.counts = row.summary.counts

structure ReportsAsMeasured (view : CoverageView) : Prop where
  blocked : view.limitations.any blockingLimitation = true →
    ∀ summary, Reported view summary → summary.coverageComplete = false
  kinds : ∀ row ∈ view.coverageByKind, CountsAsProjected view row
  runners : ∀ row ∈ view.coverageByRunner, CountsAsProjected view row

def ShowsShort (view : CoverageView) : Prop :=
  ∃ measure ∈ (selectedInput view none).measures, measure.total < 20000 * measure.missing

def inDimension (view : CoverageView) (value : TestProvenance → String) (own : String) :
    List TestCoverageResult :=
  view.tests.filter fun test => value test.provenance = own

def ownTests (view : CoverageView) (value : TestProvenance → String) (own : String) : List String :=
  setOf (((inDimension view value own).filter (coverageIsItsOwn ·.attribution)).map (·.id))

/-- Tests whose coverage is not their own show nothing that the others of theirs do not. -/
def RunWideAddsNothing (view : CoverageView) (value : TestProvenance → String) : Prop :=
  ∀ test ∈ view.tests,
    (selectedInput view (some (ownTests view value (value test.provenance)))).ShowsSame
      (selectedInput view (some ((inDimension view value (value test.provenance)).map (·.id))))

section Rows

variable {value : TestProvenance → String} {row : String → Option String × Option String}
  {tests : List TestCoverageResult} {summaryOf : List String → Outcome ReportError CoverageSummary}
  {rows : List DimensionCoverage}

theorem forall₂_dimensionCoverage (counted : dimensionCoverage value row tests summaryOf = .ok rows) :
    List.Forall₂ (fun own made => made.kind = (row own).1 ∧ made.runner = (row own).2 ∧
        summaryOf (setOf (((tests.filter fun test => value test.provenance = own).filter
          (coverageIsItsOwn ·.attribution)).map (·.id))) = .ok made.summary)
      (setOf (tests.map (value ·.provenance))) rows := by
  refine (Outcome.collect_eq_ok.mp counted).imp ?_
  intro own made found
  dsimp only at found
  split at found
  · next summary given =>
    cases found
    exact ⟨rfl, rfl, given⟩
  · cases found

end Rows

section Views

variable {declared : CoverageManifest} {rawResults : List RawTestResult} {generatedAt : String}
  {model : CoverageModelDeclaration} {view : CoverageView}

theorem rows_of_built (built : createCoverageView declared rawResults generatedAt model = .ok view) :
    dimensionCoverage (·.kind) (fun own => (some own, none)) view.tests
        (coverageSummaryForTests view) = .ok view.coverageByKind ∧
      dimensionCoverage (·.runner) (fun own => (none, some own)) view.tests
        (coverageSummaryForTests view) = .ok view.coverageByRunner := by
  obtain ⟨ingest, read, built⟩ := Outcome.bind_eq_ok.mp built
  obtain ⟨⟨decisions, branches⟩, decided, built⟩ := Outcome.bind_eq_ok.mp built
  obtain ⟨summary, summarized, built⟩ := Outcome.bind_eq_ok.mp built
  obtain ⟨byKind, kinds, built⟩ := Outcome.bind_eq_ok.mp built
  obtain ⟨byRunner, runners, built⟩ := Outcome.bind_eq_ok.mp built
  cases built
  exact ⟨kinds, runners⟩

theorem summary_of_built (built : createCoverageView declared rawResults generatedAt model = .ok view) :
    ∃ output, analyzeCore (selectedInput view none) = .ok output ∧
      view.summary.coverageComplete =
        (output.summary.coverageComplete && !view.limitations.any blockingLimitation) := by
  obtain ⟨ingest, read, built⟩ := Outcome.bind_eq_ok.mp built
  obtain ⟨⟨decisions, branches⟩, decided, built⟩ := Outcome.bind_eq_ok.mp built
  obtain ⟨summary, summarized, built⟩ := Outcome.bind_eq_ok.mp built
  obtain ⟨byKind, kinds, built⟩ := Outcome.bind_eq_ok.mp built
  obtain ⟨byRunner, runners, built⟩ := Outcome.bind_eq_ok.mp built
  cases built
  obtain ⟨output, accepted, rfl⟩ := summaryForResults_eq_ok.mp summarized
  exact ⟨output, accepted, rfl⟩

theorem tests_summarized (built : createCoverageView declared rawResults generatedAt model = .ok view)
    (testIds : List String) :
    ∃ output, analyzeCore (selectedInput view (some testIds)) = .ok output ∧
      coverageSummaryForTests view testIds = .ok output.summary := by
  obtain ⟨output, accepted, -⟩ := summary_of_built built
  have fit : ∀ result ∈ view.decisions, result.Fits :=
    summaryForResults_isOk_iff.mp ⟨_, summaryForResults_eq_ok.mpr ⟨output, accepted, rfl⟩⟩
  obtain ⟨summary, summarized⟩ := summaryForResults_selected fit testIds
  obtain ⟨output, accepted, rfl⟩ := summaryForResults_eq_ok.mp summarized
  exact ⟨output, accepted, summarized⟩

theorem projectionRecord_selected
    (built : createCoverageView declared rawResults generatedAt model = .ok view)
    (testIds : List String) :
    projectionRecord view (some testIds) = coverageSummaryForTests view testIds := by
  obtain ⟨output, -, summarized⟩ := tests_summarized built testIds
  simp only [projectionRecord, summarized]

theorem incomplete_of_showsShort
    (built : createCoverageView declared rawResults generatedAt model = .ok view)
    (short : ShowsShort view) {testIds : List String} {summary : CoverageSummary}
    (summarized : coverageSummaryForTests view testIds = .ok summary) :
    summary.coverageComplete = false := by
  obtain ⟨whole, accepted, -⟩ := summary_of_built built
  obtain ⟨output, accepted', rfl⟩ := summaryForResults_eq_ok.mp summarized
  by_contra complete
  have grown := Analysis.coverageComplete_of_grows (selectedInput_grows_none (evidenced built) testIds)
    accepted' accepted (by simpa using complete)
  obtain ⟨measure, member, missing⟩ := short
  have within := (Analysis.coverageComplete_eq_true_iff accepted).mp grown measure member
  omega

theorem complete_of_not_showsShort
    (built : createCoverageView declared rawResults generatedAt model = .ok view)
    (full : ¬ ShowsShort view) : ∃ summary,
      coverageSummaryForTests view (testLists view).flatten = .ok summary ∧
        summary.coverageComplete = true := by
  obtain ⟨whole, accepted, -⟩ := summary_of_built built
  obtain ⟨output, accepted', summarized⟩ := tests_summarized built (testLists view).flatten
  refine ⟨output.summary, summarized, ?_⟩
  apply Analysis.coverageComplete_of_grows (selectedInput_grows_all (evidenced built)) accepted accepted'
  rw [Analysis.coverageComplete_eq_true_iff accepted]
  intro measure member
  exact not_lt.mp fun missing => full ⟨measure, member, missing⟩

theorem blocked_iff (built : createCoverageView declared rawResults generatedAt model = .ok view)
    (blocks : view.limitations.any blockingLimitation = true) :
    (∀ summary, Reported view summary → summary.coverageComplete = false) ↔ ShowsShort view := by
  constructor
  · intro incomplete
    by_contra full
    obtain ⟨summary, summarized, complete⟩ := complete_of_not_showsShort built full
    rw [incomplete summary (.tests summarized)] at complete
    cases complete
  · intro short summary reported
    cases reported with
    | whole =>
      obtain ⟨output, -, flag⟩ := summary_of_built built
      rw [flag, blocks, Bool.not_true, Bool.and_false]
    | row member =>
      obtain ⟨kinds, runners⟩ := rows_of_built built
      rcases List.mem_append.mp member with own | own
      · obtain ⟨_, -, -, -, summarized⟩ := Pointwise.exists_left (forall₂_dimensionCoverage kinds) own
        exact incomplete_of_showsShort built short summarized
      · obtain ⟨_, -, -, -, summarized⟩ := Pointwise.exists_left (forall₂_dimensionCoverage runners) own
        exact incomplete_of_showsShort built short summarized
    | projection _ recorded =>
      rw [projectionRecord_selected built] at recorded
      exact incomplete_of_showsShort built short recorded
    | tests summarized => exact incomplete_of_showsShort built short summarized

theorem row_counts_iff (built : createCoverageView declared rawResults generatedAt model = .ok view)
    {value : TestProvenance → String} {own : String} {summary : CoverageSummary}
    (summarized : coverageSummaryForTests view (ownTests view value own) = .ok summary) :
    (∃ whole, projectionRecord view (some ((inDimension view value own).map (·.id))) = .ok whole ∧
        whole.counts = summary.counts) ↔
      (selectedInput view (some (ownTests view value own))).ShowsSame
        (selectedInput view (some ((inDimension view value own).map (·.id)))) := by
  obtain ⟨output, accepted, rfl⟩ := summaryForResults_eq_ok.mp summarized
  obtain ⟨whole, accepted', projected⟩ :=
    tests_summarized built ((inDimension view value own).map (·.id))
  have fewer : ownTests view value own ⊆ (inDimension view value own).map (·.id) := by
    intro id member
    rw [ownTests, Ordered.mem_setOf] at member
    obtain ⟨test, kept, rfl⟩ := List.mem_map.mp member
    exact List.mem_map_of_mem (List.mem_filter.mp kept).1
  rw [← Analysis.counts_eq_iff (selectedInput_grows_of_subset (evidenced built) fewer) accepted
    accepted', projectionRecord_selected built, projected, eq_comm]
  simp

theorem rows_counted_iff (built : createCoverageView declared rawResults generatedAt model = .ok view)
    {value : TestProvenance → String} {row : String → Option String × Option String}
    {rows : List DimensionCoverage}
    (counted : dimensionCoverage value row view.tests (coverageSummaryForTests view) = .ok rows)
    (selects : ∀ own, selectedBy view (row own).1 (row own).2 =
      (inDimension view value own).map (·.id))
    (selector : ∀ own ∈ setOf (view.tests.map (value ·.provenance)), row own ∈ selectors view) :
    (∀ made ∈ rows, CountsAsProjected view made) ↔ RunWideAddsNothing view value := by
  have all := forall₂_dimensionCoverage counted
  constructor
  · intro each test member
    obtain ⟨made, inside, kind', runner', summarized⟩ := Pointwise.exists_right all
      (Ordered.mem_setOf.mpr (List.mem_map.mpr ⟨test, member, rfl⟩))
    obtain ⟨⟨projection, among, kind, runner⟩, every⟩ := each made inside
    obtain ⟨whole, recorded, same⟩ := every projection among kind runner
    obtain ⟨-, selected, -⟩ := mem_projections.mp among
    rw [kind, runner, kind', runner', selects] at selected
    rw [selected] at recorded
    exact (row_counts_iff built summarized).mp ⟨whole, recorded, same⟩
  · intro adds made inside
    obtain ⟨own, listed, kind, runner, summarized⟩ := Pointwise.exists_left all inside
    obtain ⟨test, member, rfl⟩ := List.mem_map.mp (Ordered.mem_setOf.mp listed)
    constructor
    · refine ⟨⟨made.kind, made.runner, selectedBy view made.kind made.runner⟩, ?_, rfl, rfl⟩
      rw [mem_projections, kind, runner, selects]
      refine ⟨selector _ listed, rfl, ?_⟩
      refine List.ne_nil_of_mem (List.mem_map_of_mem (List.mem_filter.mpr ⟨member, ?_⟩))
      exact decide_eq_true rfl
    · intro projection among sameKind sameRunner
      obtain ⟨-, selected, -⟩ := mem_projections.mp among
      rw [selected, sameKind, sameRunner, kind, runner, selects]
      exact (row_counts_iff built summarized).mpr (adds test member)

/-- What is reported of a view is as measured where no limitation hides that everything is
covered, and where tests without coverage of their own add nothing to their kind or runner. -/
theorem reportsAsMeasured_iff
    (built : createCoverageView declared rawResults generatedAt model = .ok view) :
    ReportsAsMeasured view ↔
      (view.limitations.any blockingLimitation = true → ShowsShort view) ∧
        RunWideAddsNothing view (·.kind) ∧ RunWideAddsNothing view (·.runner) := by
  obtain ⟨kinds, runners⟩ := rows_of_built built
  have byKind := rows_counted_iff built kinds
    (by intro own; simp [selectedBy, inDimension, eq_comm])
    (by intro own listed; simpa [selectors] using listed)
  have byRunner := rows_counted_iff built runners
    (by intro own; simp [selectedBy, inDimension, eq_comm])
    (by intro own listed; simpa [selectors] using listed)
  rw [← byKind, ← byRunner]
  constructor
  · intro reports
    exact ⟨fun blocks => (blocked_iff built blocks).mp (reports.blocked blocks), reports.kinds,
      reports.runners⟩
  · rintro ⟨short, kinds, runners⟩
    exact ⟨fun blocks => (blocked_iff built blocks).mpr (short blocks), kinds, runners⟩

end Views

/-- One statement, and a limitation that says nothing of blocking. -/
def blockedStatement : CoverageManifest where
  decisions := []
  points := [
    { id := "p"
      file := "f"
      line := 1
      column := 1
      source := "x"
      kind := .statement
      label := none }]
  branches := []
  limitations := [.object [("id", .string "l")]]
  unmeasured := []
  scope := none

theorem blockedStatement_reported : ∃ view,
    createCoverageView blockedStatement [ranOnce "passed"] "" bareModel = .ok view ∧
      (ReportsAsMeasured view ↔
        (view.limitations.any blockingLimitation = true → ShowsShort view) ∧
          RunWideAddsNothing view (·.kind) ∧ RunWideAddsNothing view (·.runner)) := by
  have built : createCoverageView blockedStatement [ranOnce "passed"] "" bareModel = .ok _ := rfl
  exact ⟨_, built, reportsAsMeasured_iff built⟩

/-- The test that runs the statement is in a row of its kind, and the row says complete. -/
theorem blockedStatement_complete : ¬ ∀ declared rawResults generatedAt model view,
    createCoverageView declared rawResults generatedAt model = .ok view → ReportsAsMeasured view := by
  intro reports
  have built : createCoverageView blockedStatement [reaching] "" bareModel = .ok _ := rfl
  have incomplete := (reports _ _ _ _ _ built).blocked rfl _ (.row List.mem_cons_self)
  exact absurd incomplete (by decide +kernel)

end Supercov.Index
