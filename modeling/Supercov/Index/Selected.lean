import Supercov.Analysis.Shown
import Supercov.Index.Gaps
import Supercov.Report.Noted

/-!
# What selected tests cover

A summary can be had of any tests of a view.  The more tests, the more is covered, and
all of them together cover what the view says is covered.
-/

namespace Supercov.Index

open Analysis (CoverageCoreInput CoverageSummary DecisionCoverage analyzeCore)
open Report
open Ordered (setOf)

def coverageSummaryForTests (view : CoverageView) (testIds : List String) :
    Outcome ReportError CoverageSummary :=
  summaryForResults view.decisions view.points view.branches view.lines (some testIds)

def selectedInput (view : CoverageView) (testIds : Option (List String)) : CoverageCoreInput :=
  coreInput view.decisions view.points view.branches view.lines testIds

theorem summaryForResults_eq_ok {decisions : List DecisionResult} {points : List PointResult}
    {branches : List BranchResult} {lines : List LineResult} {testIds : Option (List String)}
    {summary : CoverageSummary} :
    summaryForResults decisions points branches lines testIds = .ok summary ↔
      ∃ output, analyzeCore (coreInput decisions points branches lines testIds) = .ok output ∧
        output.summary = summary := by
  unfold summaryForResults
  cases analyzeCore (coreInput decisions points branches lines testIds) <;> simp

/-- An obligation is covered exactly where some test reached it. -/
structure Evidenced (view : CoverageView) : Prop where
  vectors : ∀ decision ∈ view.decisions, ∀ observation ∈ decision.vectorObservations,
    observation.tests ≠ []
  points : ∀ point ∈ view.points, point.covered = !point.tests.isEmpty
  alternatives : ∀ branch ∈ view.branches, ∀ alternative ∈ branch.alternatives,
    alternative.covered = !alternative.tests.isEmpty
  lines : ∀ line ∈ view.lines, line.covered = !line.tests.isEmpty

theorem isEmpty_setOf (items : List String) : (setOf items).isEmpty = items.isEmpty := by
  rw [Bool.eq_iff_iff, List.isEmpty_iff, List.isEmpty_iff, List.eq_nil_iff_forall_not_mem,
    List.eq_nil_iff_forall_not_mem]
  simp only [Ordered.mem_setOf]

section Evidence

variable {ingest : Ingest}

theorem decisionResult_tested (tested : ingest.Tested) {decision : DecisionMeta}
    {result : DecisionResult} (found : ingest.decisionResult decision = .ok result) :
    ∀ observation ∈ result.vectorObservations, observation.tests ≠ [] := by
  unfold Ingest.decisionResult at found
  dsimp only at found
  split at found
  · cases found
  · cases found
    intro observation member empty
    obtain ⟨held, among, rfl⟩ := List.mem_map.mp member
    have none_ := isEmpty_setOf held.tests
    rw [show setOf held.tests = [] from empty] at none_
    exact tested decision.id held among (List.isEmpty_iff.mp none_.symm)

theorem decisionResults_tested {declaredBranches : List String} {decisions : List DecisionMeta}
    {results : List DecisionResult} {branches : List BranchResult} (tested : ingest.Tested)
    (found : ingest.decisionResults declaredBranches decisions = .ok (results, branches)) :
    (∀ result ∈ results, ∀ observation ∈ result.vectorObservations, observation.tests ≠ []) ∧
      ∀ branch ∈ branches, ∀ alternative ∈ branch.alternatives,
        alternative.covered = !alternative.tests.isEmpty := by
  induction decisions generalizing ingest results branches with
  | nil =>
    cases found
    simp
  | cons decision rest ih =>
    obtain ⟨result, others, made, first, rest_found, rfl, rfl⟩ := decisionResults_cons.mp found
    obtain ⟨all, allMade⟩ := ih (tested.without decision.id) rest_found
    refine ⟨List.forall_mem_cons.mpr ⟨decisionResult_tested tested first, all⟩, ?_⟩
    split
    · exact allMade
    · refine List.forall_mem_cons.mpr ⟨?_, allMade⟩
      intro alternative member
      obtain ⟨outcome, -, rfl⟩ := List.mem_map.mp member
      rfl

theorem foldPoint_tested {declined : List String} {results : List PointResult}
    (points : ∀ result ∈ results, result.covered = !(ingest.testsByHit result.point.id).isEmpty)
    {lines : List (SourceLine × LineAggregate)}
    (earlier : ∀ location aggregate, Ordered.find location lines = some aggregate →
      aggregate.covered = !aggregate.tests.isEmpty) :
    ∀ location aggregate,
      Ordered.find location (results.foldl (ingest.foldPoint declined) lines) = some aggregate →
        aggregate.covered = !aggregate.tests.isEmpty := by
  induction results generalizing lines with
  | nil => exact earlier
  | cons result results ih =>
    obtain ⟨first, others⟩ := List.forall_mem_cons.mp points
    apply ih others
    intro location aggregate found
    rw [Ingest.foldPoint, Ordered.find_put] at found
    split at found
    · cases found
      set held := (Ordered.find (toLex (result.point.file, result.point.line)) lines).getD
        { covered := false, measured := false, tests := [], phases := [], explicitPhases := [] }
        with heldDef
      have tested : held.covered = !held.tests.isEmpty := by
        cases known : Ordered.find (toLex (result.point.file, result.point.line)) lines with
        | none => rw [heldDef, known, Option.getD_none, List.isEmpty_nil, Bool.not_true]
        | some aggregate =>
          rw [heldDef, known, Option.getD_some]
          exact earlier _ aggregate known
      split
      · exact tested
      · dsimp only
        rw [tested, first]
        cases held.tests <;> simp
    · exact earlier location aggregate found

end Evidence

section Growth

variable {view : CoverageView} {testIds testIds' : Option (List String)}

def testLists (view : CoverageView) : List (List String) :=
  (view.decisions.flatMap fun decision => decision.vectorObservations.map (·.tests)) ++
    view.points.map (·.tests) ++
    (view.branches.flatMap fun branch => branch.alternatives.map (·.tests)) ++
    view.lines.map (·.tests)

theorem selectedInput_grows (evidenced : Evidenced view)
    (le : ∀ tests ∈ testLists view, includesSelected testIds tests (!tests.isEmpty) ≤
      includesSelected testIds' tests (!tests.isEmpty)) :
    (selectedInput view testIds).Grows (selectedInput view testIds') := by
  have among {tests : List String} {covered : Bool} (member : tests ∈ testLists view)
      (reached : covered = !tests.isEmpty) :
      includesSelected testIds tests covered ≤ includesSelected testIds' tests covered :=
    reached ▸ le tests member
  simp only [testLists, List.mem_append, List.mem_flatMap, List.mem_map] at among
  constructor
  · apply Pointwise.map_self
    intro decision member
    refine ⟨rfl, List.map_subset _ ?_⟩
    intro observation kept
    obtain ⟨inside, own⟩ := List.mem_filter.mp kept
    have some_ : true = !observation.tests.isEmpty := by
      simpa using evidenced.vectors decision member observation inside
    exact List.mem_filter.mpr ⟨inside,
      among (Or.inl (Or.inl (Or.inl ⟨decision, member, observation, inside, rfl⟩))) some_ own⟩
  · apply Pointwise.map_self
    intro point member
    exact ⟨rfl, among (Or.inl (Or.inl (Or.inr ⟨point, member, rfl⟩))) (evidenced.points point member)⟩
  · apply Pointwise.map_self
    intro branch member
    refine ⟨rfl, Pointwise.map_self ?_⟩
    intro alternative inside
    exact among (Or.inl (Or.inr ⟨branch, member, alternative, inside, rfl⟩))
      (evidenced.alternatives branch member alternative inside)
  · apply Pointwise.map_self
    intro line member
    have listed := (List.mem_filter.mp member).1
    exact among (Or.inr ⟨line, listed, rfl⟩) (evidenced.lines line listed)

theorem includesSelected_subset {selected selected' : List String} (fewer : selected ⊆ selected')
    (tests : List String) (covered : Bool) :
    includesSelected (some selected) tests covered ≤
      includesSelected (some selected') tests covered := by
  intro reached
  obtain ⟨test, member, among⟩ := List.any_eq_true.mp reached
  exact List.any_eq_true.mpr ⟨test, member, decide_eq_true (fewer (of_decide_eq_true among))⟩

theorem selectedInput_grows_of_subset (evidenced : Evidenced view) {selected selected' : List String}
    (fewer : selected ⊆ selected') :
    (selectedInput view (some selected)).Grows (selectedInput view (some selected')) :=
  selectedInput_grows evidenced fun tests _ => includesSelected_subset fewer tests _

theorem selectedInput_grows_none (evidenced : Evidenced view) (selected : List String) :
    (selectedInput view (some selected)).Grows (selectedInput view none) := by
  apply selectedInput_grows evidenced
  intro tests _ reached
  obtain ⟨test, member, -⟩ := List.any_eq_true.mp reached
  simpa [includesSelected] using List.ne_nil_of_mem member

theorem selectedInput_grows_all (evidenced : Evidenced view) :
    (selectedInput view none).Grows (selectedInput view (some (testLists view).flatten)) := by
  apply selectedInput_grows evidenced
  intro tests listed reached
  have some_ : tests ≠ [] := by simpa [includesSelected] using reached
  obtain ⟨test, member⟩ := List.exists_mem_of_ne_nil _ some_
  exact List.any_eq_true.mpr
    ⟨test, member, decide_eq_true (List.mem_flatten.mpr ⟨tests, listed, member⟩)⟩

end Growth

section Views

variable {declared : CoverageManifest} {rawResults : List RawTestResult} {generatedAt : String}
  {model : CoverageModelDeclaration} {view : CoverageView}

theorem evidenced (built : createCoverageView declared rawResults generatedAt model = .ok view) :
    Evidenced view := by
  obtain ⟨ingest, decisions, branches, read, built⟩ := exists_built built
  have tested : ingest.Tested := (Noted.ingestResults read).1.tested
  obtain ⟨vectors, outcomes⟩ := decisionResults_tested tested built.decided
  refine ⟨?_, ?_, ?_, ?_⟩
  · rw [built.decisions]
    exact fun decision member => vectors decision (List.mem_filter.mp member).1
  · rw [built.points]
    intro point member
    obtain ⟨declared, -, rfl⟩ := List.mem_map.mp (List.mem_filter.mp member).1
    simp only [Ingest.pointResult, isEmpty_setOf]
  · rw [built.branches]
    intro branch member
    rcases List.mem_append.mp (List.mem_filter.mp member).1 with own | outcome
    · obtain ⟨declared, -, rfl⟩ := List.mem_map.mp own
      intro alternative among
      obtain ⟨kept, -, rfl⟩ := List.mem_map.mp among
      simp only [Ingest.alternativeResult, isEmpty_setOf]
    · exact outcomes branch outcome
  · rw [built.lines]
    intro line member
    obtain ⟨entry, among, rfl⟩ := List.mem_map.mp member
    have folded : Folded (declinedOf (settled declared)) _ _ := Folded.foldl ingest
      ((settled declared).points.map (ingest.pointResult (declinedOf (settled declared))))
    have reached : entry.2.covered = !entry.2.tests.isEmpty := by
      refine foldPoint_tested ?_ ?_ entry.1 entry.2 (folded.sorted.lookup_of_mem among)
      · intro result inside
        obtain ⟨point, -, rfl⟩ := List.mem_map.mp inside
        rfl
      · intro location aggregate found
        cases found
    simp only [Ingest.lineResult, isEmpty_setOf, reached]

end Views

end Supercov.Index
