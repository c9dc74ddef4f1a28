import Supercov.Analysis.Growth
import Supercov.Report.Noted
import Supercov.Report.View

/-!
# What a view is built of
-/

namespace Supercov.Report

open Analysis (CoverageSummary DecisionCoverage analyzeCore analyzeCore_isOk_iff)
open Ordered (setOf Sorted find find_put mem_keys_put)

def DecisionMeta.outcomeBranch (decision : DecisionMeta) : BranchMeta where
  id := outcomeId decision.id
  kind := decision.kind
  file := decision.file
  line := decision.line
  column := decision.column
  source := decision.source
  alternatives := [true, false].map fun outcome =>
    { id := outcomeAlternative decision.id outcome, label := if outcome then "true" else "false" }

def PointMeta.location (point : PointMeta) : SourceLine := toLex (point.file, point.line)

def orderedDecisions (manifest : CoverageManifest) : List DecisionMeta :=
  manifest.decisions.insertionSort decisionOrder

def DeclaresOutcome (manifest : CoverageManifest) (decision : DecisionMeta) : Prop :=
  outcomeId decision.id ∈ manifest.branches.map (·.id)

instance (manifest : CoverageManifest) : DecidablePred (DeclaresOutcome manifest) := fun _ =>
  inferInstanceAs (Decidable (_ ∈ _))

/-- A view, of what was read and found of the decisions. -/
structure BuiltOf (manifest : CoverageManifest) (ingest : Ingest)
    (decisions : List DecisionResult) (outcomeBranches : List BranchResult)
    (view : CoverageView) : Prop where
  decided : ingest.decisionResults (manifest.branches.map (·.id)) (orderedDecisions manifest) =
    .ok (decisions, outcomeBranches)
  decisions : view.decisions = decisions.filter (·.decision.id ∉ declinedOf manifest)
  points : view.points = (manifest.points.map (ingest.pointResult (declinedOf manifest))).filter
    (·.point.id ∉ declinedOf manifest)
  branches : view.branches =
    (manifest.branches.map (ingest.branchResult (declinedOf manifest)) ++ outcomeBranches).filter
      (·.branch.id ∉ declinedOf manifest)
  lines : view.lines = ((manifest.points.map (ingest.pointResult (declinedOf manifest))).foldl
    (ingest.foldPoint (declinedOf manifest)) []).map ingest.lineResult
  tests : view.tests = ingest.testResults manifest.points
  summary : ∃ summary total,
    summaryForResults view.decisions view.points view.branches view.lines none = .ok summary ∧
      view.summary = viewSummary manifest total
        (view.decisions.length + view.points.length + view.branches.length) summary

theorem exists_built {declared : CoverageManifest} {rawResults : List RawTestResult}
    {generatedAt : String} {model : CoverageModelDeclaration} {view : CoverageView}
    (built : createCoverageView declared rawResults generatedAt model = .ok view) :
    ∃ ingest decisions branches,
      ingestResults (settled declared) rawResults = .ok ingest ∧
        BuiltOf (settled declared) ingest decisions branches view := by
  obtain ⟨ingest, read, built⟩ := Outcome.bind_eq_ok.mp built
  obtain ⟨⟨decisions, branches⟩, decided, built⟩ := Outcome.bind_eq_ok.mp built
  obtain ⟨summary, summarized, built⟩ := Outcome.bind_eq_ok.mp built
  obtain ⟨byKind, -, built⟩ := Outcome.bind_eq_ok.mp built
  obtain ⟨byRunner, -, built⟩ := Outcome.bind_eq_ok.mp built
  cases built
  refine ⟨ingest, decisions, branches, read, ?_⟩
  exact
    { decided
      decisions := rfl
      points := rfl
      branches := rfl
      lines := rfl
      tests := rfl
      summary := ⟨summary, _, summarized, rfl⟩ }

def DecisionResult.Fits (result : DecisionResult) : Prop :=
  result.decision.conditions.length ≠ 0 ∧
    ∀ vector ∈ result.vectorObservations.map (·.vector),
      vector.values.length = result.decision.conditions.length

theorem summaryForResults_isOk_iff {decisions : List DecisionResult} {points : List PointResult}
    {branches : List BranchResult} {lines : List LineResult} :
    (∃ summary, summaryForResults decisions points branches lines none = .ok summary) ↔
      ∀ result ∈ decisions, result.Fits := by
  have accepted : (∃ summary, summaryForResults decisions points branches lines none = .ok summary) ↔
      ∃ output, analyzeCore (coreInput decisions points branches lines none) = .ok output := by
    unfold summaryForResults
    cases analyzeCore (coreInput decisions points branches lines none) <;> simp
  rw [accepted, analyzeCore_isOk_iff]
  simp [coreInput, DecisionCoverage.Fits, DecisionResult.Fits]

theorem summaryForResults_selected {decisions : List DecisionResult} {points : List PointResult}
    {branches : List BranchResult} {lines : List LineResult}
    (fit : ∀ result ∈ decisions, result.Fits) (selected : List String) :
    ∃ summary, summaryForResults decisions points branches lines (some selected) = .ok summary := by
  have accepted :
      ∃ output, analyzeCore (coreInput decisions points branches lines (some selected)) = .ok output := by
    rw [analyzeCore_isOk_iff]
    intro coverage member
    obtain ⟨result, among, rfl⟩ := List.mem_map.mp member
    obtain ⟨some, uniform⟩ := fit result among
    refine ⟨some, ?_⟩
    intro vector seen
    obtain ⟨observation, kept, rfl⟩ := List.mem_map.mp seen
    exact uniform _ (List.mem_map_of_mem (List.mem_filter.mp kept).1)
  obtain ⟨output, accepted⟩ := accepted
  exact ⟨output.summary, by simp only [summaryForResults, accepted]⟩

theorem dimensionCoverage_isOk {value : TestProvenance → String}
    {row : String → Option String × Option String} {tests : List TestCoverageResult}
    {summaryOf : List String → Outcome ReportError CoverageSummary}
    (each : ∀ selected, ∃ summary, summaryOf selected = .ok summary) :
    ∃ rows, dimensionCoverage value row tests summaryOf = .ok rows := by
  choose summaryAt summarized using each
  apply Outcome.collect_isOk
  intro own _
  simp only [summarized, Outcome.ok_bind]
  exact ⟨_, rfl⟩

theorem createCoverageView_isOk {declared : CoverageManifest} {rawResults : List RawTestResult}
    {ingest : Ingest} {decisions : List DecisionResult} {branches : List BranchResult}
    (read : ingestResults (settled declared) rawResults = .ok ingest)
    (decided : ingest.decisionResults ((settled declared).branches.map (·.id))
      (orderedDecisions (settled declared)) = .ok (decisions, branches))
    (fit : ∀ result ∈ decisions.filter (·.decision.id ∉ declinedOf (settled declared)), result.Fits)
    (generatedAt : String) (model : CoverageModelDeclaration) :
    ∃ view, createCoverageView declared rawResults generatedAt model = .ok view := by
  obtain ⟨summary, summarized⟩ := summaryForResults_isOk_iff.mpr fit
  obtain ⟨byKind, kinds⟩ := dimensionCoverage_isOk (summaryForResults_selected fit)
  obtain ⟨byRunner, runners⟩ := dimensionCoverage_isOk (summaryForResults_selected fit)
  exact ⟨_, Outcome.bind_of_eq_ok read <| Outcome.bind_of_eq_ok decided <|
    Outcome.bind_of_eq_ok summarized <| Outcome.bind_of_eq_ok kinds <|
    Outcome.bind_of_eq_ok runners rfl⟩

def BranchResult.named (result : BranchResult) : List BranchAlternativeMeta :=
  result.alternatives.map fun alternative => { id := alternative.id, label := alternative.label }

@[simp]
theorem outcomeBranch_branch (ingest : Ingest) (decision : DecisionMeta) :
    (ingest.outcomeBranch decision).branch = decision.outcomeBranch := rfl

theorem decisionResult_decision {ingest : Ingest} {decision : DecisionMeta}
    {result : DecisionResult} (found : ingest.decisionResult decision = .ok result) :
    result.decision = decision := by
  unfold Ingest.decisionResult at found
  dsimp only at found
  split at found
  · cases found
  · cases found
    rfl

theorem decisionResults_cons {declaredBranches : List String} {ingest : Ingest}
    {decision : DecisionMeta} {rest : List DecisionMeta} {results : List DecisionResult}
    {branches : List BranchResult} :
    ingest.decisionResults declaredBranches (decision :: rest) = .ok (results, branches) ↔
      ∃ result others made, ingest.decisionResult decision = .ok result ∧
        (ingest.without decision.id).decisionResults declaredBranches rest = .ok (others, made) ∧
        results = result :: others ∧
        branches =
          if outcomeId decision.id ∈ declaredBranches then made
          else ingest.outcomeBranch decision :: made := by
  rw [Ingest.decisionResults, Outcome.bind_eq_ok]
  constructor
  · intro ⟨result, first, found⟩
    obtain ⟨⟨others, made⟩, rest_found, done⟩ := Outcome.bind_eq_ok.mp found
    refine ⟨result, others, made, first, rest_found, ?_⟩
    dsimp only at done
    split at done
    · next declares =>
      cases done
      exact ⟨rfl, by rw [if_pos declares]⟩
    · next declares =>
      cases done
      exact ⟨rfl, by rw [if_neg declares]⟩
  · intro ⟨result, others, made, first, rest_found, same, sameBranches⟩
    refine ⟨result, first, Outcome.bind_of_eq_ok rest_found ?_⟩
    dsimp only
    rw [same, sameBranches]
    split <;> rfl

theorem decisionResults_shape {manifest : CoverageManifest} {ingest : Ingest}
    {decisions : List DecisionMeta} {results : List DecisionResult} {branches : List BranchResult}
    (found : ingest.decisionResults (manifest.branches.map (·.id)) decisions =
      .ok (results, branches)) :
    results.map (·.decision) = decisions ∧
      branches.map (·.branch) =
        (decisions.filter fun decision => ¬ DeclaresOutcome manifest decision).map
          (·.outcomeBranch) ∧
      ∀ branch ∈ branches, branch.named = branch.branch.alternatives := by
  induction decisions generalizing ingest results branches with
  | nil =>
    cases found
    exact ⟨rfl, rfl, by simp⟩
  | cons decision rest ih =>
    obtain ⟨result, others, made, first, rest_found, rfl, rfl⟩ := decisionResults_cons.mp found
    obtain ⟨same, sameBranches, named⟩ := ih rest_found
    have own := decisionResult_decision first
    refine ⟨by rw [List.map_cons, own, same], ?_⟩
    by_cases declares : DeclaresOutcome manifest decision
    · rw [if_pos (c := outcomeId decision.id ∈ _) declares,
        List.filter_cons_of_neg (by simpa using declares)]
      exact ⟨sameBranches, named⟩
    · rw [if_neg (c := outcomeId decision.id ∈ _) declares,
        List.filter_cons_of_pos (by simpa using declares), List.map_cons, List.map_cons,
        sameBranches]
      exact ⟨rfl, List.forall_mem_cons.mpr ⟨rfl, named⟩⟩

section Lines

variable (declined : List String) (results : List PointResult)

def measuredAt (location : SourceLine) : Bool :=
  results.any fun result => result.point.location = location ∧ result.point.id ∉ declined

def coveredAt (location : SourceLine) : Bool :=
  results.any fun result =>
    result.point.location = location ∧ result.point.id ∉ declined ∧ result.covered

structure Folded (lines : List (SourceLine × LineAggregate)) : Prop where
  sorted : Sorted lines
  keys : ∀ location, location ∈ lines.map Prod.fst ↔ location ∈ results.map (·.point.location)
  measured : ∀ location aggregate, find location lines = some aggregate →
    aggregate.measured = measuredAt declined results location
  covered : ∀ location aggregate, find location lines = some aggregate →
    aggregate.covered = coveredAt declined results location

end Lines

namespace Folded

variable {declined : List String} {results : List PointResult}
  {lines : List (SourceLine × LineAggregate)}

theorem held (folded : Folded declined results lines) (location : SourceLine)
    (none : LineAggregate) (unmeasured : none.measured = false) (uncovered : none.covered = false) :
    ((find location lines).getD none).measured = measuredAt declined results location ∧
      ((find location lines).getD none).covered = coveredAt declined results location := by
  cases found : find location lines with
  | some aggregate =>
    exact ⟨folded.measured location aggregate found, folded.covered location aggregate found⟩
  | none =>
    have absent : location ∉ results.map (·.point.location) := by
      rw [← folded.keys]
      exact Ordered.find_eq_none_iff.mp found
    have elsewhere : ∀ result ∈ results, result.point.location ≠ location := by
      intro result member same
      exact absent (List.mem_map.mpr ⟨result, member, same⟩)
    rw [Option.getD_none, unmeasured, uncovered, measuredAt, coveredAt, eq_comm, List.any_eq_false,
      eq_comm, List.any_eq_false]
    constructor
    · intro result member
      simp [elsewhere result member]
    · intro result member
      simp [elsewhere result member]

theorem foldPoint (folded : Folded declined results lines) (ingest : Ingest)
    (result : PointResult) :
    Folded declined (results ++ [result]) (ingest.foldPoint declined lines result) := by
  have here := folded.held result.point.location
    { covered := false, measured := false, tests := [], phases := [], explicitPhases := [] } rfl rfl
  have there (location : SourceLine) (elsewhere : location ≠ result.point.location) :
      measuredAt declined (results ++ [result]) location = measuredAt declined results location ∧
        coveredAt declined (results ++ [result]) location =
          coveredAt declined results location := by
    simp [measuredAt, coveredAt, elsewhere.symm]
  refine ⟨folded.sorted.put _ _, ?_, ?_, ?_⟩
  · intro location
    rw [Ingest.foldPoint, mem_keys_put, folded.keys, List.map_append, List.mem_append, or_comm]
    simp [PointMeta.location]
  · intro location aggregate found
    rw [Ingest.foldPoint, find_put] at found
    split at found
    · next same =>
      cases found
      change location = result.point.location at same
      subst same
      by_cases declines : result.point.id ∈ declined
      · rw [if_pos declines]
        refine here.1.trans ?_
        simp [measuredAt, declines]
      · rw [if_neg declines]
        simp [measuredAt, declines]
    · next elsewhere =>
      rw [folded.measured location aggregate found, (there location elsewhere).1]
  · intro location aggregate found
    rw [Ingest.foldPoint, find_put] at found
    split at found
    · next same =>
      cases found
      change location = result.point.location at same
      subst same
      by_cases declines : result.point.id ∈ declined
      · rw [if_pos declines]
        refine here.2.trans ?_
        simp [coveredAt, declines]
      · rw [if_neg declines]
        refine (congrArg (· || result.covered) here.2).trans ?_
        simp [coveredAt, declines]
    · next elsewhere =>
      rw [folded.covered location aggregate found, (there location elsewhere).2]

theorem foldl (ingest : Ingest) (results : List PointResult) :
    Folded declined results (results.foldl (ingest.foldPoint declined) []) := by
  suffices from_ : ∀ earlier lines, Folded declined earlier lines →
      Folded declined (earlier ++ results) (results.foldl (ingest.foldPoint declined) lines) by
    apply from_ [] []
    exact ⟨List.Pairwise.nil, by simp, by simp [find], by simp [find]⟩
  intro earlier lines folded
  induction results generalizing earlier lines with
  | nil => simpa using folded
  | cons result rest ih =>
    have next := ih (earlier ++ [result]) _ (folded.foldPoint ingest result)
    rwa [List.append_assoc] at next

end Folded

theorem lines_eq (declined : List String) (ingest : Ingest) (results : List PointResult) :
    ((results.foldl (ingest.foldPoint declined) []).map ingest.lineResult).map
        (fun line => (line.location, line.measured, line.covered)) =
      (setOf (results.map (·.point.location))).map fun location =>
        (location, measuredAt declined results location, coveredAt declined results location) := by
  have folded : Folded declined results _ := Folded.foldl ingest results
  have flags := folded.sorted.map_eq folded.keys
    (f := fun aggregate => (aggregate.measured, aggregate.covered))
    (v := fun location =>
      (measuredAt declined results location, coveredAt declined results location))
    (fun location aggregate found => Prod.ext (folded.measured location aggregate found)
      (folded.covered location aggregate found))
  rw [List.map_map]
  exact flags

end Supercov.Report
