import Supercov.Report.Growth

/-!
# Declined obligations are not counted

What a view lists and counts, against what is left of the manifest without its
declined obligations.  The outcome branch a report makes for a decision is declined
by ids of its own, and a frontend that names only some of them leaves the rest counted.
-/

namespace Supercov.Report

open Analysis (analyzeCore)
open Ordered (setOf)

section Measured

variable (manifest : CoverageManifest)

def measuredPoints : List PointMeta := manifest.points.filter (·.id ∉ declinedOf manifest)

def measuredDecisions : List DecisionMeta :=
  (orderedDecisions manifest).filter (·.id ∉ declinedOf manifest)

def measuredBranch (branch : BranchMeta) : BranchMeta :=
  { branch with alternatives := branch.alternatives.filter (·.id ∉ declinedOf manifest) }

def measuredOutcomes : List BranchMeta :=
  ((orderedDecisions manifest).filter fun decision =>
    (¬ DeclaresOutcome manifest decision ∧ outcomeId decision.id ∉ declinedOf manifest) ∧
      decision.id ∉ declinedOf manifest).map (·.outcomeBranch)

def measuredBranches : List BranchMeta :=
  (manifest.branches.filter (·.id ∉ declinedOf manifest) ++ measuredOutcomes manifest).map
    (measuredBranch manifest)

def measuredLines : List SourceLine := setOf ((measuredPoints manifest).map (·.location))

/-- How many there are of what a summary counts. -/
def measuredTotals : List Nat :=
  let decisions := (measuredDecisions manifest).length
  let conditions := ((measuredDecisions manifest).map (·.conditions.length)).sum
  let points (kind : Analysis.PointKind) := ((measuredPoints manifest).filter (·.kind = kind)).length
  let alternatives (branches : List BranchMeta) := (branches.flatMap (·.alternatives)).length
  [decisions, decisions, conditions, (measuredLines manifest).length, points .statement,
    points .function, alternatives (measuredBranches manifest), decisions * 2, conditions * 2,
    alternatives ((measuredBranches manifest).filter (·.kind = "logical-value"))]

/-- The view has what is measured and nothing else, and its summary counts that. -/
structure CountsMeasured (view : CoverageView) : Prop where
  points : view.points.map (·.point) = measuredPoints manifest
  decisions : view.decisions.map (·.decision) = measuredDecisions manifest
  branches : view.branches.map (·.branch) = measuredBranches manifest
  alternatives : ∀ branch ∈ view.branches, branch.named = branch.branch.alternatives
  lines : (view.lines.filter (·.measured)).map (·.location) = measuredLines manifest
  totals : view.summary.counts.map Prod.fst = measuredTotals manifest
  covered : ∃ output,
    analyzeCore (coreInput view.decisions view.points view.branches view.lines none) = .ok output ∧
      view.summary.counts = output.summary.counts

/-- A decision is declined with the outcome branch it is due, and that branch whole. -/
def DeclinesOutcomesWhole : Prop :=
  ∀ decision ∈ manifest.decisions, ¬ DeclaresOutcome manifest decision →
    outcomeId decision.id ∉ declinedOf manifest →
      decision.id ∉ declinedOf manifest ∧
        ∀ outcome, outcomeAlternative decision.id outcome ∉ declinedOf manifest

instance : Decidable (DeclinesOutcomesWhole manifest) :=
  inferInstanceAs (Decidable (∀ _ ∈ _, _))

end Measured

theorem map_filter_eq_iff {α β : Type*} {items : List α} {p r : α → Prop} [DecidablePred p]
    [DecidablePred r] {f g : α → β} :
    (items.filter fun item => p item).map f =
        (items.filter fun item => p item ∧ r item).map g ↔
      ∀ item ∈ items, p item → r item ∧ f item = g item := by
  have nested : (items.filter fun item => p item ∧ r item) =
      (items.filter fun item => p item).filter fun item => r item := by
    rw [List.filter_filter]
    apply List.filter_congr
    intro item _
    rw [Bool.decide_and, Bool.and_comm]
  rw [nested]
  constructor
  · intro same
    have all : (items.filter fun item => p item).filter (fun item => r item) =
        items.filter fun item => p item := by
      apply List.filter_sublist.eq_of_length
      rw [← List.length_map (f := g), ← same, List.length_map]
    rw [all, List.map_inj_left] at same
    intro item member holds
    have kept : item ∈ items.filter fun item => p item := by simpa using ⟨member, holds⟩
    refine ⟨?_, same item kept⟩
    rw [← all] at kept
    simpa using (List.mem_filter.mp kept).2
  · intro each
    have all : (items.filter fun item => p item).filter (fun item => r item) =
        items.filter fun item => p item := by
      rw [List.filter_eq_self]
      intro item kept
      obtain ⟨member, holds⟩ := List.mem_filter.mp kept
      simpa using (each item member (by simpa using holds)).1
    rw [all, List.map_inj_left]
    intro item kept
    obtain ⟨member, holds⟩ := List.mem_filter.mp kept
    exact (each item member (by simpa using holds)).2

section Built

variable {manifest : CoverageManifest} {ingest : Ingest} {decisions : List DecisionResult}
  {outcomeBranches : List BranchResult} {view : CoverageView}
  (built : BuiltOf manifest ingest decisions outcomeBranches view)

include built

theorem BuiltOf.points_measured : view.points.map (·.point) = measuredPoints manifest := by
  rw [built.points, measuredPoints, List.filter_map, List.map_map]
  exact List.map_id _

theorem BuiltOf.decisions_measured :
    view.decisions.map (·.decision) = measuredDecisions manifest := by
  obtain ⟨shape, -, -⟩ := decisionResults_shape built.decided
  rw [built.decisions, measuredDecisions, ← shape, List.filter_map]
  rfl

theorem BuiltOf.branches_eq : view.branches.map (·.branch) =
    (manifest.branches.filter (·.id ∉ declinedOf manifest)).map (measuredBranch manifest) ++
      ((orderedDecisions manifest).filter fun decision =>
        ¬ DeclaresOutcome manifest decision ∧ outcomeId decision.id ∉ declinedOf manifest).map
          (·.outcomeBranch) := by
  obtain ⟨-, made, -⟩ := decisionResults_shape built.decided
  rw [built.branches, List.filter_append, List.map_append]
  congr 1
  · rw [List.filter_map, List.map_map]
    rfl
  · have filtered : (outcomeBranches.filter (·.branch.id ∉ declinedOf manifest)).map (·.branch) =
        (outcomeBranches.map (·.branch)).filter (·.id ∉ declinedOf manifest) := by
      rw [List.filter_map]
      rfl
    rw [filtered, made, List.filter_map, List.filter_filter]
    congr 1
    apply List.filter_congr
    intro decision _
    rw [Bool.decide_and, Bool.and_comm]
    rfl

theorem BuiltOf.branches_measured_iff :
    view.branches.map (·.branch) = measuredBranches manifest ↔ DeclinesOutcomesWhole manifest := by
  rw [built.branches_eq, measuredBranches, measuredOutcomes, List.map_append, List.map_map,
    List.append_cancel_left_eq, map_filter_eq_iff]
  apply forall_congr'
  intro decision
  rw [orderedDecisions, List.mem_insertionSort]
  apply imp_congr_right
  intro _
  rw [and_imp]
  apply imp_congr_right
  intro _
  apply imp_congr_right
  intro _
  apply and_congr_right
  intro _
  have whole : decision.outcomeBranch = measuredBranch manifest decision.outcomeBranch ↔
      decision.outcomeBranch.alternatives.filter (·.id ∉ declinedOf manifest) =
        decision.outcomeBranch.alternatives := by
    rw [measuredBranch, BranchMeta.mk.injEq]
    simp [eq_comm]
  rw [Function.comp_apply, whole, List.filter_eq_self]
  simp only [DecisionMeta.outcomeBranch, List.map_cons, List.map_nil, List.mem_cons,
    List.not_mem_nil, or_false, forall_eq_or_imp, forall_eq, Bool.forall_bool, decide_eq_true_eq]
  exact and_comm

theorem BuiltOf.alternatives_named :
    ∀ branch ∈ view.branches, branch.named = branch.branch.alternatives := by
  obtain ⟨-, -, named⟩ := decisionResults_shape built.decided
  rw [built.branches]
  intro branch member
  rcases List.mem_append.mp (List.mem_filter.mp member).1 with declared | made
  · obtain ⟨own, _, rfl⟩ := List.mem_map.mp declared
    rw [BranchResult.named, Ingest.branchResult, List.map_map]
    exact List.map_id _
  · exact named branch made

theorem BuiltOf.lines_measured :
    (view.lines.filter (·.measured)).map (·.location) = measuredLines manifest := by
  have flags := lines_eq (declinedOf manifest) ingest
    (manifest.points.map (ingest.pointResult (declinedOf manifest)))
  rw [← built.lines] at flags
  have measured : (view.lines.filter (·.measured)).map (·.location) =
      ((view.lines.map fun line => (line.location, line.measured, line.covered)).filter
        (·.2.1)).map Prod.fst := by
    rw [List.filter_map, List.map_map]
    rfl
  rw [measured, flags, List.filter_map, List.map_map, List.map_map]
  refine (List.map_id _).trans ?_
  apply Ordered.eq_of_mem_iff
  · exact (Ordered.setOf_pairwise _).filter _
  · exact Ordered.setOf_pairwise _
  · intro location
    rw [List.mem_filter, measuredLines, Ordered.mem_setOf, Ordered.mem_setOf]
    simp only [measuredPoints, measuredAt, Function.comp_apply, List.mem_map, List.any_map,
      List.any_eq_true, List.mem_filter, decide_eq_true_eq]
    constructor
    · rintro ⟨_, point, member, here, kept⟩
      exact ⟨point, ⟨member, kept⟩, here⟩
    · rintro ⟨point, ⟨member, kept⟩, here⟩
      exact ⟨⟨point, member, here⟩, point, member, here, kept⟩

theorem BuiltOf.totals (branches : view.branches.map (·.branch) = measuredBranches manifest) :
    view.summary.counts.map Prod.fst = measuredTotals manifest := by
  obtain ⟨output, accepted, same⟩ := built.covered
  rw [same, Analysis.totals accepted, measuredTotals, ← branches, ← built.points_measured,
    ← built.decisions_measured, ← built.lines_measured]
  have points (kind : Analysis.PointKind) :
      ((coreInput view.decisions view.points view.branches view.lines none).pointsOf kind).length =
        ((view.points.map (·.point)).filter (·.kind = kind)).length := by
    rw [Analysis.CoverageCoreInput.pointsOf, coreInput, List.filter_map, List.filter_map,
      List.length_map, List.length_map]
    rfl
  have alternatives (results : List BranchResult) (among : results ⊆ view.branches) :
      (results.flatMap fun result => result.alternatives.map (·.covered)).length =
        ((results.map (·.branch)).flatMap (·.alternatives)).length := by
    rw [List.flatMap_map, List.length_flatMap, List.length_flatMap]
    congr 1
    apply List.map_congr_left
    intro result member
    rw [List.length_map, ← built.alternatives_named result (among member), BranchResult.named,
      List.length_map]
  have counted :
      (coreInput view.decisions view.points view.branches view.lines none).alternatives.length =
        ((view.branches.map (·.branch)).flatMap (·.alternatives)).length := by
    rw [← alternatives view.branches fun _ => id]
    rw [Analysis.CoverageCoreInput.alternatives, coreInput, List.flatMap_map]
  have valued :
      (((coreInput view.decisions view.points view.branches view.lines none).branches.filter
          (·.kind = "logical-value")).flatMap (·.alternatives)).length =
        (((view.branches.map (·.branch)).filter (·.kind = "logical-value")).flatMap
          (·.alternatives)).length := by
    rw [List.filter_map, ← alternatives _ (List.filter_subset_self _), coreInput, List.filter_map,
      List.flatMap_map]
    rfl
  rw [Analysis.CoverageCoreInput.totals, points, points, counted, valued]
  simp only [Analysis.CoverageCoreInput.conditionTotal, coreInput, List.length_map, List.map_map]
  rfl

end Built

/-- A view counts what was measured, and nothing declined, exactly where each decision
is declined with the outcome branch it is due. -/
theorem countsMeasured_iff {declared : CoverageManifest} {rawResults : List RawTestResult}
    {generatedAt : String} {model : CoverageModelDeclaration} {view : CoverageView}
    (built : createCoverageView declared rawResults generatedAt model = .ok view) :
    CountsMeasured (settled declared) view ↔ DeclinesOutcomesWhole (settled declared) := by
  obtain ⟨ingest, decisions, branches, -, built⟩ := exists_built built
  rw [← built.branches_measured_iff]
  constructor
  · intro counts
    exact counts.branches
  · intro branches
    exact
      { points := built.points_measured
        decisions := built.decisions_measured
        branches
        alternatives := built.alternatives_named
        lines := built.lines_measured
        totals := built.totals branches
        covered := built.covered }

def bareModel : CoverageModelDeclaration where
  language := "go"
  variant := ""
  name := ""
  completenessMeaning := ""
  measured := []
  notMeasured := []

/-- One decision and no branch, with these obligations declined. -/
def oneDecision (unmeasured : List String) : CoverageManifest where
  decisions :=
    [{ id := "d", file := "f", line := 1, column := 1, source := "x", conditions := ["x"],
       kind := "if" }]
  points := []
  branches := []
  limitations := []
  unmeasured := unmeasured
  scope := none

/-- A decision declined with the branch it is due is in nothing. -/
theorem oneDecision_countsMeasured : ∃ view,
    createCoverageView (oneDecision ["d", "d:outcome"]) [] "" bareModel = .ok view ∧
      CountsMeasured (settled (oneDecision ["d", "d:outcome"])) view := by
  have built : createCoverageView (oneDecision ["d", "d:outcome"]) [] "" bareModel = .ok _ := rfl
  exact ⟨_, built, (countsMeasured_iff built).mpr (by decide)⟩

/-- Declined by its own id alone, it leaves its two outcomes in the branch total. -/
theorem oneDecision_counted : ∃ view,
    createCoverageView (oneDecision ["d"]) [] "" bareModel = .ok view ∧
      ¬ CountsMeasured (settled (oneDecision ["d"])) view := by
  refine ⟨_, rfl, ?_⟩
  intro counts
  have lengths := congrArg List.length counts.branches
  exact absurd lengths (by decide)

end Supercov.Report
