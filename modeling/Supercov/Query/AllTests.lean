import Supercov.Index.Projections
import Supercov.Query.TestSafety

/-!
# The tests of a view, and all of them

Every test that a view lists beside an obligation is one of its tests.  So all of them together
give the counts of the view, and fewer of them give no more.
-/

namespace Supercov.Query

open Analysis (analyzeCore)
open Report
open Index
open Pointwise (Below)

section Known

structure Knows (ingest : Ingest) (known : String → Prop) : Prop where
  observed : ∀ decision, ∀ observation ∈ ingest.observations decision,
    ∀ test ∈ observation.tests, known test
  hits : ∀ id, ∀ test ∈ ingest.testsByHit id, known test

variable {ingest : Ingest} {known : String → Prop}

theorem Knows.of_noted {log : Log} (noted : Noted ingest log) :
    Knows ingest fun test => ∃ entry ∈ log, entry.1 = test where
  observed := by
    intro decision observation member test seen
    have logged := (noted.seen decision observation.vector test).mp ⟨observation, member, rfl, seen⟩
    exact ⟨_, logged, rfl⟩
  hits := fun id test reached => ⟨_, (noted.hits test id).mp reached, rfl⟩

theorem Knows.without (knows : Knows ingest known) (decision : String) :
    Knows (ingest.without decision) known where
  observed := by
    intro other
    by_cases same : other = decision
    · subst same
      simp [Ingest.without]
    · simpa [Ingest.without, same] using knows.observed other
  hits := knows.hits

theorem decisionResult_known (knows : Knows ingest known) {decision : DecisionMeta}
    {result : DecisionResult} (found : ingest.decisionResult decision = .ok result) :
    ∀ observation ∈ result.vectorObservations, ∀ test ∈ observation.tests, known test := by
  unfold Ingest.decisionResult at found
  dsimp only at found
  split at found
  · cases found
  · cases found
    intro observation member test listed
    obtain ⟨held, among, rfl⟩ := List.mem_map.mp member
    exact knows.observed decision.id held among test (Ordered.mem_setOf.mp listed)

theorem outcomeResult_known (knows : Knows ingest known) (decision : DecisionMeta)
    (outcome : Bool) : ∀ test ∈ (ingest.outcomeResult decision outcome).tests, known test := by
  intro test listed
  obtain ⟨held, among, seen⟩ := List.mem_flatMap.mp (Ordered.mem_setOf.mp listed)
  exact knows.observed decision.id held (List.mem_filter.mp among).1 test seen

/-- By induction on the decisions, each taken out of the reading once it is shown. -/
theorem decisionResults_known {declaredBranches : List String} {decisions : List DecisionMeta}
    {results : List DecisionResult} {branches : List BranchResult} (knows : Knows ingest known)
    (found : ingest.decisionResults declaredBranches decisions = .ok (results, branches)) :
    (∀ result ∈ results, ∀ observation ∈ result.vectorObservations,
        ∀ test ∈ observation.tests, known test) ∧
      ∀ branch ∈ branches, ∀ alternative ∈ branch.alternatives,
        ∀ test ∈ alternative.tests, known test := by
  induction decisions generalizing ingest results branches with
  | nil =>
    cases found
    simp
  | cons decision rest ih =>
    obtain ⟨result, others, made, first, rest_found, rfl, rfl⟩ := decisionResults_cons.mp found
    obtain ⟨all, allMade⟩ := ih (knows.without decision.id) rest_found
    refine ⟨List.forall_mem_cons.mpr ⟨decisionResult_known knows first, all⟩, ?_⟩
    split
    · exact allMade
    · refine List.forall_mem_cons.mpr ⟨?_, allMade⟩
      intro alternative member
      obtain ⟨outcome, -, rfl⟩ := List.mem_map.mp member
      exact outcomeResult_known knows decision outcome

theorem foldPoint_known (knows : Knows ingest known) {declined : List String}
    (results : List PointResult) {lines : List (SourceLine × LineAggregate)}
    (earlier : ∀ location aggregate, Ordered.find location lines = some aggregate →
      ∀ test ∈ aggregate.tests, known test) :
    ∀ location aggregate,
      Ordered.find location (results.foldl (ingest.foldPoint declined) lines) = some aggregate →
        ∀ test ∈ aggregate.tests, known test := by
  induction results generalizing lines with
  | nil => exact earlier
  | cons result results ih =>
    apply ih
    intro location aggregate found
    rw [Ingest.foldPoint, Ordered.find_put] at found
    split at found
    · cases found
      have held : ∀ test ∈ ((Ordered.find (toLex (result.point.file, result.point.line)) lines).getD
          { covered := false, measured := false, tests := [], phases := [],
            explicitPhases := [] }).tests, known test := by
        cases there : Ordered.find (toLex (result.point.file, result.point.line)) lines with
        | none => simp
        | some aggregate => exact earlier _ aggregate there
      split
      · exact held
      · intro test listed
        rcases List.mem_append.mp listed with old | new
        · exact held test old
        · exact knows.hits _ test new
    · exact earlier location aggregate found

end Known

section Views

variable {declared : CoverageManifest} {rawResults : List RawTestResult} {generatedAt : String}
  {model : CoverageModelDeclaration} {view : CoverageView}

theorem testLists_known (built : createCoverageView declared rawResults generatedAt model = .ok view) :
    ∀ tests ∈ testLists view, tests ⊆ view.tests.map (·.id) := by
  obtain ⟨ingest, decisions, branches, read, built⟩ := exists_built built
  have noted := (Noted.ingestResults read).1
  obtain ⟨-, -, all⟩ := testResults_spec noted (settled declared).points
  rw [← built.tests] at all
  have shown : ∀ test, (∃ entry ∈ logOf (settled declared) rawResults, entry.1 = test) →
      test ∈ view.tests.map (·.id) := by
    rintro test ⟨entry, logged, rfl⟩
    obtain ⟨own, member, same⟩ := all entry logged
    exact same ▸ List.mem_map_of_mem member
  have knows := Knows.of_noted noted
  obtain ⟨vectors, outcomes⟩ := decisionResults_known knows built.decided
  intro tests listed test member
  apply shown
  simp only [testLists, List.mem_append, List.mem_flatMap, List.mem_map] at listed
  rcases listed with ((listed | listed) | listed) | listed
  · obtain ⟨decision, among, observation, inside, rfl⟩ := listed
    rw [built.decisions] at among
    exact vectors decision (List.mem_filter.mp among).1 observation inside test member
  · obtain ⟨point, among, rfl⟩ := listed
    rw [built.points] at among
    obtain ⟨declared, -, rfl⟩ := List.mem_map.mp (List.mem_filter.mp among).1
    exact knows.hits _ test (Ordered.mem_setOf.mp member)
  · obtain ⟨branch, among, alternative, inside, rfl⟩ := listed
    rw [built.branches] at among
    rcases List.mem_append.mp (List.mem_filter.mp among).1 with own | outcome
    · obtain ⟨declared, -, rfl⟩ := List.mem_map.mp own
      obtain ⟨kept, -, rfl⟩ := List.mem_map.mp inside
      exact knows.hits _ test (Ordered.mem_setOf.mp member)
    · exact outcomes branch outcome alternative inside test member
  · obtain ⟨line, among, rfl⟩ := listed
    rw [built.lines] at among
    obtain ⟨entry, entered, rfl⟩ := List.mem_map.mp among
    have folded : Folded (declinedOf (settled declared)) _ _ := Folded.foldl ingest
      ((settled declared).points.map (ingest.pointResult (declinedOf (settled declared))))
    refine foldPoint_known knows _ ?_ entry.1 entry.2 (folded.sorted.lookup_of_mem entered) test
      (Ordered.mem_setOf.mp member)
    intro location aggregate found
    cases found

theorem counts_of_all (built : createCoverageView declared rawResults generatedAt model = .ok view) :
    ∃ summary, coverageSummaryForTests view (view.tests.map (·.id)) = .ok summary ∧
      summary.counts = view.summary.counts := by
  obtain ⟨output, accepted, summarized⟩ := tests_summarized built (view.tests.map (·.id))
  refine ⟨output.summary, summarized, ?_⟩
  have shown := evidenced built
  have known := testLists_known built
  obtain ⟨ingest, decisions, branches, -, builtOf⟩ := exists_built built
  obtain ⟨whole, accepted', counts⟩ := builtOf.covered
  rw [counts]
  have all : (selectedInput view none).Grows (selectedInput view (some (view.tests.map (·.id)))) := by
    apply selectedInput_grows shown
    intro tests listed reached
    have some_ : tests ≠ [] := by simpa [includesSelected] using reached
    obtain ⟨test, member⟩ := List.exists_mem_of_ne_nil _ some_
    exact List.any_eq_true.mpr ⟨test, member, decide_eq_true (known tests listed member)⟩
  apply Below.antisymm
  · exact Analysis.counts_below (selectedInput_grows_none shown _) accepted accepted'
  · exact Analysis.counts_below all accepted' accepted

structure SummedByTests (view : CoverageView) : Prop where
  evidenced : Evidenced view
  known : ∀ tests ∈ testLists view, tests ⊆ view.tests.map (·.id)
  whole : ∃ summary, coverageSummaryForTests view (view.tests.map (·.id)) = .ok summary ∧
    summary.counts = view.summary.counts
  grows : ∀ fewer more : List String, fewer ⊆ more → ∃ summary summary',
    coverageSummaryForTests view fewer = .ok summary ∧
      coverageSummaryForTests view more = .ok summary' ∧ Below summary.counts summary'.counts

theorem summedByTests (built : createCoverageView declared rawResults generatedAt model = .ok view) :
    SummedByTests view where
  evidenced := evidenced built
  known := testLists_known built
  whole := counts_of_all built
  grows := by
    intro fewer more subset
    obtain ⟨output, accepted, summarized⟩ := tests_summarized built fewer
    obtain ⟨output', accepted', summarized'⟩ := tests_summarized built more
    refine ⟨output.summary, output'.summary, summarized, summarized', ?_⟩
    exact Analysis.counts_below (selectedInput_grows_of_subset (evidenced built) subset) accepted
      accepted'

end Views

theorem summedByTests_reaching : ∃ view,
    createCoverageView (oneDecision []) [reaching] "" bareModel = .ok view ∧ SummedByTests view := by
  have built : createCoverageView (oneDecision []) [reaching] "" bareModel = .ok _ := rfl
  exact ⟨_, built, summedByTests built⟩

end Supercov.Query
