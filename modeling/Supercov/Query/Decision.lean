import Supercov.Index.Gaps
import Supercov.Report.Unordered

/-!
# A decision as the selected tests saw it

A query keeps what the selected tests were seen with, and looks for witnesses among that
by itself.  With the counts of the index this settles how the numbers of a view hang
together.
-/

namespace Supercov.Query

open Analysis (CoverageSummary isIndependencePair findWitnessesForConditions)
open Report
open Index

/-- The first two observations, in their order, that show the condition to decide. -/
def firstPair (condition : Nat) :
    List VectorObservation → Option (VectorObservation × VectorObservation)
  | [] => none
  | first :: rest =>
    match rest.find? fun second => isIndependencePair first.vector second.vector condition with
    | some second => some (first, second)
    | none => firstPair condition rest

def selectedCondition (observations : List VectorObservation) (source : String × Nat) :
    ConditionResult :=
  let pair := firstPair source.2 observations
  { index := source.2
    source := source.1
    covered := pair.isSome
    witness := pair.map fun (first, second) => (first.vector, second.vector)
    witnessTests := pair.map fun (first, second) => (first.tests, second.tests) }

def selectedDecision (decision : DecisionResult) : Option (List String) → DecisionResult
  | none => decision
  | some selected =>
    let observations := decision.vectorObservations.filterMap fun observation =>
      let tests := observation.tests.filter (· ∈ selected)
      if tests.isEmpty then none else some { observation with tests }
    let conditions := decision.decision.conditions.zipIdx.map (selectedCondition observations)
    { decision := decision.decision
      executed := !(observations.map (·.vector)).isEmpty
      covered := conditions.all (·.covered)
      vectors := observations.map (·.vector)
      vectorObservations := observations
      conditions
      tests := decision.tests.filter (· ∈ selected)
      confidence := decision.confidence }

theorem firstPair_isSome (condition : Nat) (observations : List VectorObservation) :
    (firstPair condition observations).isSome = false ↔
      (observations.map (·.vector)).Pairwise fun first second =>
        isIndependencePair first second condition = false := by
  induction observations with
  | nil => simp [firstPair]
  | cons first rest ih =>
    rw [List.map_cons, List.pairwise_cons, ← ih, firstPair]
    cases found : rest.find? fun second => isIndependencePair first.vector second.vector condition with
    | some second =>
      obtain ⟨member, pair⟩ := And.intro (List.mem_of_find?_eq_some found) (List.find?_some found)
      constructor
      · intro none
        cases none
      · intro ⟨apart, _⟩
        rw [apart second.vector (List.mem_map_of_mem member)] at pair
        cases pair
    | none =>
      have apart : ∀ vector ∈ rest.map (·.vector),
          isIndependencePair first.vector vector condition = false := by
        intro vector member
        obtain ⟨second, among, rfl⟩ := List.mem_map.mp member
        simpa using List.find?_eq_none.mp found second among
      exact ⟨fun none => ⟨apart, none⟩, fun both => both.2⟩

theorem selectedObservations_vectors (decision : DecisionResult) (selected : List String) :
    (selectedDecision decision (some selected)).vectorObservations.map (·.vector) =
      selectedVectors (some selected) decision := by
  unfold selectedDecision selectedVectors
  dsimp only
  induction decision.vectorObservations with
  | nil => rfl
  | cons observation rest ih =>
    have reached : (observation.tests.filter (· ∈ selected)).isEmpty =
        !includesSelected (some selected) observation.tests true := by
      rw [includesSelected, List.not_any_eq_all_not, Bool.eq_iff_iff, List.isEmpty_iff,
        List.filter_eq_nil_iff, List.all_eq_true]
      simp
    rw [List.filterMap_cons, List.filter_cons, reached]
    cases includesSelected (some selected) observation.tests true with
    | false => exact ih
    | true => exact congrArg (observation.vector :: ·) ih

theorem selectedDecision_covered (decision : DecisionResult) (selected : List String) :
    (selectedDecision decision (some selected)).conditions.map (·.covered) =
      (List.range decision.decision.conditions.length).map
        (selectedCoverage (some selected) decision).witnessed := by
  have flag (index : Nat) :
      (firstPair index (selectedDecision decision (some selected)).vectorObservations).isSome =
        (selectedCoverage (some selected) decision).witnessed index := by
    have apart := firstPair_isSome index (selectedDecision decision (some selected)).vectorObservations
    rw [selectedObservations_vectors] at apart
    unfold Analysis.DecisionCoverage.witnessed
    cases found : (firstPair index
        (selectedDecision decision (some selected)).vectorObservations).isSome with
    | false => exact (congrArg (!·) (decide_eq_true (apart.mp found))).symm
    | true =>
      have some : ¬ (selectedVectors (some selected) decision).Pairwise fun first second =>
          isIndependencePair first second index = false :=
        fun none => absurd (apart.mpr none) (by rw [found]; decide)
      exact (congrArg (!·) (decide_eq_false some)).symm
  have conditions : (selectedDecision decision (some selected)).conditions =
      decision.decision.conditions.zipIdx.map
        (selectedCondition (selectedDecision decision (some selected)).vectorObservations) := rfl
  rw [conditions, List.map_map]
  apply List.ext_getElem
  · simp
  · intro index _ _
    simpa [selectedCondition] using flag index

section Views

variable {declared : CoverageManifest} {rawResults : List RawTestResult} {generatedAt : String}
  {model : CoverageModelDeclaration} {view : CoverageView}

def ConditionsShown (decision : DecisionResult) : Prop :=
  decision.conditions.map (·.covered) =
    (List.range decision.decision.conditions.length).map (selectedCoverage none decision).witnessed

theorem conditionsShown_of_decided {declaredBranches : List String} {ingest : Ingest}
    {decisions : List DecisionMeta} {results : List DecisionResult} {branches : List BranchResult}
    (found : ingest.decisionResults declaredBranches decisions = .ok (results, branches)) :
    ∀ result ∈ results, ConditionsShown result := by
  induction decisions generalizing ingest results branches with
  | nil =>
    cases found
    exact fun _ member => absurd member List.not_mem_nil
  | cons decision rest ih =>
    obtain ⟨result, others, made, first, rest_found, rfl, rfl⟩ := decisionResults_cons.mp found
    refine List.forall_mem_cons.mpr ⟨?_, ih rest_found⟩
    obtain ⟨vectors, conditions⟩ := decisionResult_spec first
    have own := decisionResult_decision first
    have seen : selectedCoverage none result = coverageOf ingest decision := by
      simp only [selectedCoverage, selectedVectors, includesSelected, List.filter_true, vectors, own]
      rfl
    have flags := congrArg (List.map Prod.snd) conditions
    rw [List.map_map, List.map_map] at flags
    rw [ConditionsShown, seen, own]
    exact flags

theorem conditionsShown (built : createCoverageView declared rawResults generatedAt model = .ok view) :
    ∀ decision ∈ view.decisions, ConditionsShown decision := by
  obtain ⟨ingest, decisions, branches, -, builtOf⟩ := exists_built built
  intro decision member
  rw [builtOf.decisions] at member
  exact conditionsShown_of_decided builtOf.decided decision (List.mem_filter.mp member).1

theorem judged (built : createCoverageView declared rawResults generatedAt model = .ok view) :
    Judged view := by
  intro decision member
  obtain ⟨ingest, decisions, branches, -, builtOf⟩ := exists_built built
  obtain ⟨summary, _, summarized, -⟩ := builtOf.summary
  have shown := congrArg List.length (conditionsShown built decision member)
  refine ⟨summaryForResults_isOk_iff.mp ⟨summary, summarized⟩ decision member, ?_⟩
  simpa using shown

theorem points_measured (built : createCoverageView declared rawResults generatedAt model = .ok view) :
    ∀ point ∈ view.points, point.measured = true := by
  obtain ⟨ingest, decisions, branches, -, builtOf⟩ := exists_built built
  intro point member
  rw [builtOf.points, List.mem_filter] at member
  obtain ⟨result, kept⟩ := member
  obtain ⟨declaredPoint, -, rfl⟩ := List.mem_map.mp result
  exact kept

/-- What the files have of each dimension, in all and under each file, is what the
summaries count, and a decision shows as covered the conditions that have a witness among
the selected vectors. -/
structure AddsUp (view : CoverageView) (selected : Option (List String)) : Prop where
  run : ∃ gaps summary, fileGaps view selected = .ok gaps ∧
    summaryForResults view.decisions view.points view.branches view.lines selected = .ok summary ∧
    ∀ dimension,
      Tally.total (MutableFileGap.measure dimension) gaps = measureOf summary dimension
  file : ∀ file, ∃ gaps summary, fileGaps view none = .ok gaps ∧
    coverageSummaryForFile view file = .ok summary ∧
    ∀ dimension, (gapFor gaps file).measure dimension = measureOf summary dimension
  decision : ∀ decision ∈ view.decisions, ∃ witnesses,
    findWitnessesForConditions (selectedVectors selected decision)
      decision.decision.conditions.length = .ok witnesses ∧
    (selectedDecision decision selected).conditions.map (·.covered) =
      witnesses.map Option.isSome

theorem selected_summary (judged : Judged view) (selected : Option (List String)) :
    ∃ summary, summaryForResults view.decisions view.points view.branches view.lines selected =
      .ok summary := by
  have fit : ∀ decision ∈ view.decisions, decision.Fits := fun decision member =>
    (judged decision member).1
  cases selected with
  | none => exact summaryForResults_isOk_iff.mpr fit
  | some selected => exact summaryForResults_selected fit selected

/-- What limitations add to their files: nothing of a dimension. -/
def limitationGains (limitations : List JsonValue) : List (String × (Nat × Nat)) :=
  limitations.flatMap fun limitation =>
    ((Limitation.read limitation).map fun read => (read.file, 0)).toList

theorem limitationGains_zero (limitations : List JsonValue) :
    ∀ gain ∈ limitationGains limitations, gain.2 = 0 := by
  intro gain member
  obtain ⟨limitation, -, held⟩ := List.mem_flatMap.mp member
  cases read : Limitation.read limitation with
  | none =>
    rw [read] at held
    cases held
  | some found =>
    rw [read, Option.map_some, Option.mem_toList] at held
    cases held
    rfl

theorem sum_limitationGains (limitations : List JsonValue) (kept : String × (Nat × Nat) → Bool) :
    (((limitationGains limitations).filter kept).map Prod.snd).sum = 0 := by
  apply List.sum_eq_zero
  intro amount member
  obtain ⟨gain, among, rfl⟩ := List.mem_map.mp member
  exact limitationGains_zero limitations gain (List.mem_filter.mp among).1

theorem sumAt_gainsOf (dimension : Dimension) (file : String) (decisions : List DecisionResult)
    (points : List PointResult) (branches : List BranchResult) (lines : List LineResult) :
    Tally.sumAt file (gainsOf none dimension decisions points branches lines) =
      ((gainsOf none dimension (decisions.filter (·.decision.file = file))
        (points.filter (·.point.file = file)) (branches.filter (·.branch.file = file))
        (lines.filter (lineFile · = file))).map Prod.snd).sum := by
  simp only [Tally.sumAt, gainsOf, List.filter_append, List.filter_map]
  rfl

theorem readable_of_checked (checked : checkLimitations view = .ok ⟨⟩) : Readable view := by
  intro limitation member
  have accepted := Outcome.forEach_eq_ok.mp checked limitation member
  rw [Outcome.refuseIf_eq_ok, Option.isNone_iff_eq_none] at accepted
  exact Option.isSome_iff_ne_none.mpr accepted

theorem gaps_of_view (judged : Judged view) (readable : Readable view)
    (selected : Option (List String)) :
    ∃ gaps, fileGaps view selected = .ok gaps ∧ ∀ dimension,
      Tally.Gains (MutableFileGap.measure dimension) [] gaps
        (gainsOf selected dimension view.decisions view.points view.branches view.lines ++
          limitationGains view.limitations) := by
  obtain ⟨gaps, counted, -⟩ := fileGaps_gains selected 0 judged readable
  refine ⟨gaps, counted, ?_⟩
  intro dimension
  obtain ⟨gaps', counted', gains⟩ := fileGaps_gains selected dimension judged readable
  rw [counted] at counted'
  cases counted'
  exact gains

/-- Of a view that the index takes. -/
theorem fileGaps_addUp (built : createCoverageView declared rawResults generatedAt model = .ok view)
    (checked : checkLimitations view = .ok ⟨⟩) (selected : Option (List String)) :
    AddsUp view selected where
  run := by
    obtain ⟨summary, summarized⟩ := selected_summary (judged built) selected
    obtain ⟨gaps, counted, gains⟩ :=
      gaps_of_view (judged built) (readable_of_checked checked) selected
    refine ⟨gaps, summary, counted, summarized, ?_⟩
    intro dimension
    have limitations := sum_limitationGains view.limitations fun _ => true
    rw [List.filter_true] at limitations
    rw [(gains dimension).total List.Pairwise.nil, List.map_append, List.sum_append, limitations,
      add_zero, gains_summary dimension summarized (points_measured built)]
    exact zero_add _
  file := by
    intro file
    have fit : ∀ decision ∈ view.decisions.filter (·.decision.file = file), decision.Fits :=
      fun decision member => (judged built decision (List.mem_filter.mp member).1).1
    obtain ⟨summary, summarized⟩ := summaryForResults_isOk_iff.mpr fit
    obtain ⟨gaps, counted, gains⟩ := gaps_of_view (judged built) (readable_of_checked checked) none
    refine ⟨gaps, summary, counted, summarized, ?_⟩
    intro dimension
    have measured : ∀ point ∈ view.points.filter (·.point.file = file), point.measured = true :=
      fun point member => points_measured built point (List.mem_filter.mp member).1
    rw [gapFor_measure, (gains dimension).share, Tally.sumAt, List.filter_append, List.map_append,
      List.sum_append, sum_limitationGains, add_zero,
      ← gains_summary dimension summarized measured, ← sumAt_gainsOf]
    exact zero_add _
  decision := by
    intro decision member
    have uniform : ∀ vector ∈ selectedVectors selected decision,
        vector.values.length = decision.decision.conditions.length := by
      intro vector seen
      obtain ⟨observation, kept, rfl⟩ := List.mem_map.mp seen
      exact (judged built decision member).1.2 _ (List.mem_map_of_mem (List.mem_filter.mp kept).1)
    obtain ⟨witnesses, found⟩ := Analysis.findWitnessesForConditions_isOk_iff.mpr uniform
    refine ⟨witnesses, found, ?_⟩
    have flags := @Analysis.row_isSome (selectedCoverage selected decision) _ found
    rw [flags]
    cases selected with
    | none => exact conditionsShown built decision member
    | some selected => exact selectedDecision_covered decision selected

end Views

/-- A point, and in another file a decision, with a boundary declared in the first. -/
def twoFiles : CoverageManifest where
  decisions :=
    [{ id := "d", file := "g", line := 1, column := 1, source := "x", conditions := ["x"],
       kind := "if" }]
  points := [
    { id := "p"
      file := "f"
      line := 2
      column := 1
      source := "x"
      kind := .statement
      label := none }]
  branches := []
  limitations := [.object [("id", .string "l"), ("kind", .string "dynamic-code"),
    ("file", .string "f"), ("source", .string "x"), ("reason", .string "r"),
    ("line", .number "1"), ("column", .number "1")]]
  unmeasured := []
  scope := none

theorem twoFiles_addUp : ∃ view,
    createCoverageView twoFiles [reaching] "" bareModel = .ok view ∧
      AddsUp view (some ["t"]) := by
  have built : createCoverageView twoFiles [reaching] "" bareModel = .ok _ := rfl
  exact ⟨_, built, fileGaps_addUp built rfl (some ["t"])⟩

end Supercov.Query
