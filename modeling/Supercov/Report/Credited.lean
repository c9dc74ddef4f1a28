import Supercov.Report.Unordered

/-!
# What a view credits a test with

Beside each point, alternative, line and vector a view lists tests: those, and only those, whose own
records hold what it takes to show it.
-/

namespace Supercov.Report

open Analysis (McdcVector)
open Ordered (find find_put Sorted)

inductive Shown where
  | point (id : String)
  | alternative (id : String)
  | line (location : SourceLine)
  | vector (decision : String) (vector : McdcVector)

/-- The view lists the test beside what it shows. -/
def CoverageView.Credits (view : CoverageView) (test : String) : Shown → Prop
  | .point id => ∃ result ∈ view.points, result.point.id = id ∧ test ∈ result.tests
  | .alternative id => ∃ branch ∈ view.branches, ∃ result ∈ branch.alternatives,
      result.id = id ∧ test ∈ result.tests
  | .line location => ∃ result ∈ view.lines, result.location = location ∧ test ∈ result.tests
  | .vector decision vector => ∃ result ∈ view.decisions, result.decision.id = decision ∧
      ∃ observation ∈ result.vectorObservations,
        observation.vector = vector ∧ test ∈ observation.tests

/-- The item is what it takes for a view of the manifest to show this. -/
def Serves (manifest : CoverageManifest) : Item → Shown → Prop
  | .hit id, .point shown => id = shown ∧
      ∃ point ∈ manifest.points, point.id = id ∧ id ∉ declinedOf manifest
  | .hit id, .alternative shown => id = shown ∧
      ∃ branch ∈ manifest.branches, branch.id ∉ declinedOf manifest ∧
        ∃ alternative ∈ branch.alternatives, alternative.id = id ∧ id ∉ declinedOf manifest
  | .hit id, .line location =>
      ∃ point ∈ manifest.points, point.id = id ∧ id ∉ declinedOf manifest ∧
        point.location = location
  | .vector decision vector, .alternative shown =>
      outcomeAlternative decision vector.outcome = shown ∧
        ∃ meta_ ∈ manifest.decisions, meta_.id = decision ∧ ¬ DeclaresOutcome manifest meta_ ∧
          outcomeId decision ∉ declinedOf manifest
  | .vector decision vector, .vector shown seen => decision = shown ∧ vector = seen ∧
      ∃ meta_ ∈ manifest.decisions, meta_.id = decision ∧ decision ∉ declinedOf manifest
  | _, _ => False

section Decisions

variable {declaredBranches : List String} {ingest : Ingest} {decisions : List DecisionMeta}
  {results : List DecisionResult} {branches : List BranchResult}

def Ingest.Saw (ingest : Ingest) (test decision : String) (vector : McdcVector) : Prop :=
  ∃ observation ∈ ingest.observations decision,
    observation.vector = vector ∧ test ∈ observation.tests

theorem saw_without {test decision other : String} {vector : McdcVector} :
    (ingest.without decision).Saw test other vector ↔
      other ≠ decision ∧ ingest.Saw test other vector := by
  by_cases same : other = decision
  · subst same
    simp [Ingest.Saw, Ingest.without]
  · simp [Ingest.Saw, Ingest.without, same]

theorem decisionResult_saw {decision : DecisionMeta} {result : DecisionResult}
    (found : ingest.decisionResult decision = .ok result) {test : String} {vector : McdcVector} :
    (∃ observation ∈ result.vectorObservations,
      observation.vector = vector ∧ test ∈ observation.tests) ↔
        ingest.Saw test decision.id vector := by
  unfold Ingest.decisionResult at found
  dsimp only at found
  split at found
  · cases found
  · cases found
    simp [Ingest.Saw, Ingest.vectorObservation, Ordered.mem_setOf]

/-- By induction on the decisions: the first result of an id shows all there is, and those after it
nothing. -/
theorem decisionResults_saw
    (found : ingest.decisionResults declaredBranches decisions = .ok (results, branches))
    (test id : String) (vector : McdcVector) :
    (∃ result ∈ results, result.decision.id = id ∧ ∃ observation ∈ result.vectorObservations,
      observation.vector = vector ∧ test ∈ observation.tests) ↔
        (∃ decision ∈ decisions, decision.id = id) ∧ ingest.Saw test id vector := by
  induction decisions generalizing ingest results branches with
  | nil =>
    cases found
    simp
  | cons decision rest ih =>
    obtain ⟨result, others, made, first, rest_found, rfl, -⟩ := decisionResults_cons.mp found
    rw [List.exists_mem_cons_iff, List.exists_mem_cons_iff, decisionResult_decision first,
      decisionResult_saw first, ih rest_found, saw_without]
    by_cases same : id = decision.id
    · subst same
      simp
    · simp [same, Ne.symm same]

theorem outcomeBranch_saw (decision : DecisionMeta) (test id : String) :
    (∃ result ∈ (ingest.outcomeBranch decision).alternatives, result.id = id ∧ test ∈ result.tests) ↔
      ∃ vector, ingest.Saw test decision.id vector ∧
        outcomeAlternative decision.id vector.outcome = id := by
  have listed (outcome : Bool) : test ∈ (ingest.outcomeResult decision outcome).tests ↔
      ∃ vector, ingest.Saw test decision.id vector ∧ vector.outcome = outcome := by
    simp only [Ingest.outcomeResult, Ordered.mem_setOf, List.mem_flatMap, List.mem_filter,
      decide_eq_true_eq, Ingest.Saw]
    constructor
    · rintro ⟨observation, ⟨member, same⟩, reached⟩
      exact ⟨_, ⟨observation, member, rfl, reached⟩, same⟩
    · rintro ⟨_, ⟨observation, member, rfl, reached⟩, same⟩
      exact ⟨observation, ⟨member, same⟩, reached⟩
  constructor
  · rintro ⟨alternative, member, named, reached⟩
    obtain ⟨outcome, -, rfl⟩ := List.mem_map.mp member
    obtain ⟨vector, saw, same⟩ := (listed outcome).mp reached
    exact ⟨vector, saw, same ▸ named⟩
  · rintro ⟨vector, saw, named⟩
    exact ⟨_, List.mem_map.mpr ⟨vector.outcome, by cases vector.outcome <;> simp, rfl⟩, named,
      (listed _).mpr ⟨vector, saw, rfl⟩⟩

theorem outcomeBranches_saw
    (found : ingest.decisionResults declaredBranches decisions = .ok (results, branches))
    (declined : List String) (test id : String) :
    (∃ branch ∈ branches, branch.branch.id ∉ declined ∧ ∃ result ∈ branch.alternatives,
        result.id = id ∧ test ∈ result.tests) ↔
      ∃ decision ∈ decisions, (outcomeId decision.id ∉ declaredBranches ∧
        outcomeId decision.id ∉ declined) ∧ ∃ vector, ingest.Saw test decision.id vector ∧
          outcomeAlternative decision.id vector.outcome = id := by
  induction decisions generalizing ingest results branches with
  | nil =>
    cases found
    simp
  | cons decision rest ih =>
    obtain ⟨result, others, made, first, rest_found, -, rfl⟩ := decisionResults_cons.mp found
    have later := ih rest_found
    simp only [saw_without] at later
    have own : (ingest.outcomeBranch decision).branch.id = outcomeId decision.id := rfl
    have here : (∃ branch ∈ if outcomeId decision.id ∈ declaredBranches then made
        else ingest.outcomeBranch decision :: made, branch.branch.id ∉ declined ∧
          ∃ result ∈ branch.alternatives, result.id = id ∧ test ∈ result.tests) ↔
        ((outcomeId decision.id ∉ declaredBranches ∧ outcomeId decision.id ∉ declined) ∧
          ∃ vector, ingest.Saw test decision.id vector ∧
            outcomeAlternative decision.id vector.outcome = id) ∨
        ∃ branch ∈ made, branch.branch.id ∉ declined ∧
          ∃ result ∈ branch.alternatives, result.id = id ∧ test ∈ result.tests := by
      split
      · next declares => simp [declares]
      · next declares =>
        rw [List.exists_mem_cons_iff, own, outcomeBranch_saw]
        simp [declares]
    rw [here, later, List.exists_mem_cons_iff]
    -- What a later decision of the same id shows, the first one does.
    constructor
    · rintro (first | ⟨other, member, kept, vector, ⟨-, saw⟩, same⟩)
      · exact .inl first
      · exact .inr ⟨other, member, kept, vector, saw, same⟩
    · rintro (first | ⟨other, member, kept, vector, saw, same⟩)
      · exact .inl first
      · by_cases again : other.id = decision.id
        · exact .inl ⟨again ▸ kept, vector, again ▸ saw, again ▸ same⟩
        · exact .inr ⟨other, member, kept, vector, ⟨again, saw⟩, same⟩

end Decisions

section Lines

variable (ingest : Ingest) (declined : List String) (lines : List (SourceLine × LineAggregate))

/-- A line is given the tests of each point on it that is not declined. -/
theorem tests_foldPoint (results : List PointResult) (location : SourceLine) (test : String) :
    (∃ aggregate, find location (results.foldl (ingest.foldPoint declined) lines) = some aggregate ∧
      test ∈ aggregate.tests) ↔
    (∃ aggregate, find location lines = some aggregate ∧ test ∈ aggregate.tests) ∨
      ∃ result ∈ results, result.point.location = location ∧ result.point.id ∉ declined ∧
        test ∈ ingest.testsByHit result.point.id := by
  induction results generalizing lines with
  | nil => simp
  | cons result rest ih =>
    rw [List.foldl_cons, ih, List.exists_mem_cons_iff, ← or_assoc]
    refine or_congr_left ?_
    have here : toLex (result.point.file, result.point.line) = result.point.location := rfl
    rw [Ingest.foldPoint, find_put, here]
    by_cases same : location = result.point.location
    · rw [if_pos same, ← same]
      simp only [Option.some.injEq, exists_eq_left', true_and]
      cases found : find location lines with
      | none => split <;> simp [*]
      | some aggregate => split <;> simp [*]
    · rw [if_neg same]
      simp [Ne.symm same]

end Lines

section Views

variable {manifest : CoverageManifest} {ingest : Ingest} {decisions : List DecisionResult}
  {outcomeBranches : List BranchResult} {view : CoverageView} {log : Log}
  (built : BuiltOf manifest ingest decisions outcomeBranches view) (noted : Noted ingest log)
  (test : String)

include built noted

theorem BuiltOf.credits_point (id : String) : view.Credits test (.point id) ↔
    (test, .hit id) ∈ log ∧ ∃ point ∈ manifest.points, point.id = id ∧ id ∉ declinedOf manifest := by
  rw [CoverageView.Credits, built.points, ← noted.hits]
  simp only [List.mem_filter, List.mem_map, decide_eq_true_eq]
  constructor
  · rintro ⟨_, ⟨⟨point, member, rfl⟩, kept⟩, rfl, reached⟩
    exact ⟨Ordered.mem_setOf.mp reached, point, member, rfl, kept⟩
  · rintro ⟨reached, point, member, rfl, kept⟩
    exact ⟨_, ⟨⟨point, member, rfl⟩, kept⟩, rfl, Ordered.mem_setOf.mpr reached⟩

theorem BuiltOf.credits_line (location : SourceLine) : view.Credits test (.line location) ↔
    ∃ point ∈ manifest.points, (test, .hit point.id) ∈ log ∧ point.id ∉ declinedOf manifest ∧
      point.location = location := by
  have given := tests_foldPoint ingest (declinedOf manifest) []
    (manifest.points.map (ingest.pointResult (declinedOf manifest))) location test
  have folded : Folded (declinedOf manifest) _ _ := Folded.foldl ingest
    (manifest.points.map (ingest.pointResult (declinedOf manifest)))
  have shown : view.Credits test (.line location) ↔ ∃ aggregate, find location
      ((manifest.points.map (ingest.pointResult (declinedOf manifest))).foldl
        (ingest.foldPoint (declinedOf manifest)) []) = some aggregate ∧ test ∈ aggregate.tests := by
    rw [CoverageView.Credits, built.lines]
    constructor
    · rintro ⟨_, member, rfl, reached⟩
      obtain ⟨entry, among, rfl⟩ := List.mem_map.mp member
      exact ⟨entry.2, folded.sorted.lookup_of_mem among, Ordered.mem_setOf.mp reached⟩
    · rintro ⟨aggregate, found, reached⟩
      exact ⟨_, List.mem_map_of_mem (folded.sorted.mem_iff_lookup.mpr found), rfl,
        Ordered.mem_setOf.mpr reached⟩
  rw [shown, given]
  constructor
  · rintro (⟨_, found, -⟩ | ⟨result, member, here, kept, reached⟩)
    · cases found
    · obtain ⟨point, among, rfl⟩ := List.mem_map.mp member
      exact ⟨point, among, (noted.hits _ _).mp reached, kept, here⟩
  · rintro ⟨point, among, reached, kept, here⟩
    exact .inr ⟨_, List.mem_map_of_mem among, here, kept, (noted.hits _ _).mpr reached⟩

theorem BuiltOf.credits_alternative (id : String) : view.Credits test (.alternative id) ↔
    ((test, .hit id) ∈ log ∧ ∃ branch ∈ manifest.branches, branch.id ∉ declinedOf manifest ∧
        ∃ alternative ∈ branch.alternatives, alternative.id = id ∧ id ∉ declinedOf manifest) ∨
      ∃ decision ∈ manifest.decisions, (¬ DeclaresOutcome manifest decision ∧
        outcomeId decision.id ∉ declinedOf manifest) ∧
          ∃ vector, (test, .vector decision.id vector) ∈ log ∧
            outcomeAlternative decision.id vector.outcome = id := by
  have made := outcomeBranches_saw built.decided (declinedOf manifest) test id
  simp only [orderedDecisions, List.mem_insertionSort, Ingest.Saw, noted.seen] at made
  rw [CoverageView.Credits, built.branches, ← noted.hits]
  simp only [List.filter_append, List.mem_append, List.mem_filter, List.mem_map, decide_eq_true_eq,
    or_and_right, exists_or]
  apply or_congr
  · constructor
    · rintro ⟨_, ⟨⟨branch, member, rfl⟩, kept⟩, result, inside, rfl, reached⟩
      obtain ⟨alternative, among, rfl⟩ := List.mem_map.mp inside
      obtain ⟨own, stays⟩ := List.mem_filter.mp among
      exact ⟨Ordered.mem_setOf.mp reached, branch, member, kept, alternative, own, rfl,
        of_decide_eq_true stays⟩
    · rintro ⟨reached, branch, member, kept, alternative, own, rfl, stays⟩
      exact ⟨_, ⟨⟨branch, member, rfl⟩, kept⟩, _,
        List.mem_map.mpr ⟨alternative, List.mem_filter.mpr ⟨own, decide_eq_true stays⟩, rfl⟩, rfl,
        Ordered.mem_setOf.mpr reached⟩
  · simpa only [and_assoc, DeclaresOutcome] using made

theorem BuiltOf.credits_vector (decision : String) (vector : McdcVector) :
    view.Credits test (.vector decision vector) ↔ (test, .vector decision vector) ∈ log ∧
      ∃ meta_ ∈ manifest.decisions, meta_.id = decision ∧ decision ∉ declinedOf manifest := by
  have seen := decisionResults_saw built.decided test decision vector
  simp only [orderedDecisions, List.mem_insertionSort, Ingest.Saw, noted.seen] at seen
  rw [CoverageView.Credits, built.decisions]
  simp only [List.mem_filter, decide_eq_true_eq]
  constructor
  · rintro ⟨result, ⟨member, kept⟩, rfl, among⟩
    obtain ⟨⟨declared, inside, same⟩, logged⟩ := seen.mp ⟨result, member, rfl, among⟩
    exact ⟨logged, declared, inside, same, kept⟩
  · rintro ⟨logged, declared, inside, same, kept⟩
    obtain ⟨result, member, named, among⟩ := seen.mpr ⟨⟨declared, inside, same⟩, logged⟩
    exact ⟨result, ⟨member, named ▸ kept⟩, named, among⟩

theorem BuiltOf.credits_iff (shown : Shown) :
    view.Credits test shown ↔ ∃ item, (test, item) ∈ log ∧ Serves manifest item shown := by
  cases shown with
  | point id =>
    rw [built.credits_point noted]
    constructor
    · intro ⟨logged, serves⟩
      exact ⟨.hit id, logged, rfl, serves⟩
    · rintro ⟨_ | _, logged, serves⟩
      · obtain ⟨rfl, serves⟩ := serves
        exact ⟨logged, serves⟩
      · exact serves.elim
  | alternative id =>
    rw [built.credits_alternative noted]
    constructor
    · rintro (⟨logged, serves⟩ | ⟨decision, member, ⟨undeclared, kept⟩, vector, logged, same⟩)
      · exact ⟨.hit id, logged, rfl, serves⟩
      · exact ⟨.vector decision.id vector, logged, same, decision, member, rfl, undeclared, kept⟩
    · rintro ⟨_ | ⟨decision, vector⟩, logged, serves⟩
      · obtain ⟨rfl, serves⟩ := serves
        exact .inl ⟨logged, serves⟩
      · obtain ⟨same, found, member, rfl, undeclared, kept⟩ := serves
        exact .inr ⟨found, member, ⟨undeclared, kept⟩, vector, logged, same⟩
  | line location =>
    rw [built.credits_line noted]
    constructor
    · intro ⟨point, member, logged, kept, here⟩
      exact ⟨.hit point.id, logged, point, member, rfl, kept, here⟩
    · rintro ⟨_ | _, logged, serves⟩
      · obtain ⟨point, member, rfl, kept, here⟩ := serves
        exact ⟨point, member, logged, kept, here⟩
      · exact serves.elim
  | vector decision vector =>
    rw [built.credits_vector noted]
    constructor
    · intro ⟨logged, serves⟩
      exact ⟨.vector decision vector, logged, rfl, rfl, serves⟩
    · rintro ⟨_ | _, logged, serves⟩
      · exact serves.elim
      · obtain ⟨rfl, rfl, serves⟩ := serves
        exact ⟨logged, serves⟩

end Views

section Made

variable {declared : CoverageManifest} {rawResults others : List RawTestResult}
  {generatedAt : String} {model : CoverageModelDeclaration} {view view' whole : CoverageView}

theorem exists_noted (made : createCoverageView declared rawResults generatedAt model = .ok view) :
    ∃ ingest decisions branches, Noted ingest (logOf (settled declared) rawResults) ∧
      BuiltOf (settled declared) ingest decisions branches view := by
  obtain ⟨ingest, decisions, branches, read, built⟩ := exists_built made
  exact ⟨ingest, decisions, branches, (Noted.ingestResults read).1, built⟩

theorem createCoverageView_credits_iff
    (made : createCoverageView declared rawResults generatedAt model = .ok view) (test : String)
    (shown : Shown) :
    view.Credits test shown ↔ ∃ raw ∈ rawResults, rawTestId raw = test ∧
      ∃ item ∈ itemsOf (settled declared) raw, Serves (settled declared) item shown := by
  obtain ⟨ingest, decisions, branches, noted, built⟩ := exists_noted made
  rw [built.credits_iff noted]
  constructor
  · rintro ⟨item, logged, serves⟩
    obtain ⟨raw, member, inside⟩ := List.mem_flatMap.mp logged
    obtain ⟨_, among, same⟩ := List.mem_map.mp inside
    cases same
    exact ⟨raw, member, rfl, item, among, serves⟩
  · rintro ⟨raw, member, rfl, item, among, serves⟩
    exact ⟨item, List.mem_flatMap.mpr ⟨raw, member, List.mem_map_of_mem among⟩, serves⟩

theorem createCoverageView_credits_reaching : ∃ view,
    createCoverageView (oneDecision []) [reaching] "" bareModel = .ok view ∧
      ∀ test shown, view.Credits test shown ↔ ∃ raw ∈ [reaching], rawTestId raw = test ∧
        ∃ item ∈ itemsOf (settled (oneDecision [])) raw,
          Serves (settled (oneDecision [])) item shown := by
  have made : createCoverageView (oneDecision []) [reaching] "" bareModel = .ok _ := rfl
  exact ⟨_, made, createCoverageView_credits_iff made⟩

theorem createCoverageView_together
    (made : createCoverageView declared rawResults generatedAt model = .ok view)
    (made' : createCoverageView declared others generatedAt model = .ok view')
    (together : createCoverageView declared (rawResults ++ others) generatedAt model = .ok whole)
    (test : String) (shown : Shown) :
    whole.Credits test shown ↔ view.Credits test shown ∨ view'.Credits test shown := by
  obtain ⟨_, _, _, noted, built⟩ := exists_noted made
  obtain ⟨_, _, _, noted', built'⟩ := exists_noted made'
  obtain ⟨_, _, _, noted'', built''⟩ := exists_noted together
  rw [built.credits_iff noted, built'.credits_iff noted', built''.credits_iff noted'', logOf,
    List.flatMap_append]
  simp only [List.mem_append, or_and_right, exists_or]
  rfl

theorem createCoverageView_together_twice : ∃ view whole,
    createCoverageView (oneDecision []) [reaching] "" bareModel = .ok view ∧
      createCoverageView (oneDecision []) [reaching, reaching] "" bareModel = .ok whole ∧
      ∀ test shown, whole.Credits test shown ↔ view.Credits test shown ∨ view.Credits test shown := by
  have made : createCoverageView (oneDecision []) [reaching] "" bareModel = .ok _ := rfl
  have together : createCoverageView (oneDecision []) ([reaching] ++ [reaching]) "" bareModel =
      .ok _ := rfl
  exact ⟨_, _, made, together, createCoverageView_together made made together⟩

end Made

end Supercov.Report
