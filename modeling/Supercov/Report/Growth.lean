import Supercov.Analysis.Growth
import Supercov.Report.Built

/-!
# More evidence, no less covered

A reading that has seen at least what another has covers every obligation the other
does.  What was seen is all that matters: not in which order, nor how often.
-/

namespace Supercov.Report

open Analysis (McdcVector DecisionCoverage analyzeCore findWitnessesForConditions
  findWitnessesForConditions_isOk_iff row_isSome)
open Ordered (setOf)
open Pointwise (Below)

inductive Obligation where
  | point (id : String)
  | alternative (id : String)
  | line (location : SourceLine)
  | condition (decision : String) (index : Nat)

def CoverageView.flags (view : CoverageView) : List (Obligation × Bool) :=
  (view.points.map fun result => (.point result.point.id, result.covered)) ++
    (view.branches.flatMap fun branch =>
      branch.alternatives.map fun result => (.alternative result.id, result.covered)) ++
    (view.lines.map fun result => (.line result.location, result.covered)) ++
    view.decisions.flatMap fun decision =>
      decision.conditions.map fun result =>
        (.condition decision.decision.id result.index, result.covered)

namespace Ingest

def vectorsOf (ingest : Ingest) (decision : String) : List McdcVector :=
  (ingest.observations decision).map (·.vector)

def Tested (ingest : Ingest) : Prop :=
  ∀ decision, ∀ observation ∈ ingest.observations decision, observation.tests ≠ []

/-- The second has seen all that the first has. -/
structure Sees (ingest more : Ingest) : Prop where
  vectors : ∀ decision, ingest.vectorsOf decision ⊆ more.vectorsOf decision
  hits : ∀ id, ingest.testsByHit id ≠ [] → more.testsByHit id ≠ []

theorem vectorsOf_without (ingest : Ingest) (decision other : String) :
    (ingest.without decision).vectorsOf other =
      if other = decision then [] else ingest.vectorsOf other := by
  by_cases same : other = decision
  · subst same
    simp [vectorsOf, without]
  · simp [vectorsOf, without, same]

theorem Tested.without {ingest : Ingest} (tested : ingest.Tested) (decision : String) :
    (ingest.without decision).Tested := by
  intro other
  by_cases same : other = decision
  · subst same
    simp [Ingest.without]
  · simpa [Ingest.without, same] using tested other

theorem Sees.without {ingest more : Ingest} (sees : ingest.Sees more) (decision : String) :
    (ingest.without decision).Sees (more.without decision) where
  vectors := by
    intro other
    rw [vectorsOf_without, vectorsOf_without]
    split
    · exact List.Subset.refl _
    · exact sees.vectors other
  hits := sees.hits

end Ingest

def coverageOf (ingest : Ingest) (decision : DecisionMeta) : DecisionCoverage where
  conditionCount := decision.conditions.length
  vectors := ingest.vectorsOf decision.id

theorem vectors_observed (ingest : Ingest) (decision : String) :
    ((ingest.observations decision).map ingest.vectorObservation).map (·.vector) =
      ingest.vectorsOf decision := by
  rw [List.map_map]
  rfl

theorem decisionResult_isOk_iff {ingest : Ingest} {decision : DecisionMeta} :
    (∃ result, ingest.decisionResult decision = .ok result) ↔
      ∀ vector ∈ ingest.vectorsOf decision.id,
        vector.values.length = decision.conditions.length := by
  rw [← findWitnessesForConditions_isOk_iff]
  unfold Ingest.decisionResult
  dsimp only
  rw [vectors_observed]
  cases findWitnessesForConditions (ingest.vectorsOf decision.id) decision.conditions.length with
  | ok witnesses => simp
  | error error => simp

theorem decisionResult_spec {ingest : Ingest} {decision : DecisionMeta} {result : DecisionResult}
    (found : ingest.decisionResult decision = .ok result) :
    result.vectorObservations.map (·.vector) = ingest.vectorsOf decision.id ∧
      result.conditions.map (fun condition => (condition.index, condition.covered)) =
        (List.range decision.conditions.length).map fun index =>
          (index, (coverageOf ingest decision).witnessed index) := by
  unfold Ingest.decisionResult at found
  dsimp only at found
  rw [vectors_observed] at found
  split at found
  · cases found
  · next witnesses searched =>
    cases found
    refine ⟨vectors_observed ingest decision.id, ?_⟩
    have flags : witnesses.map Option.isSome =
        (List.range decision.conditions.length).map (coverageOf ingest decision).witnessed :=
      row_isSome searched
    have size : witnesses.length = decision.conditions.length := by
      simpa using congrArg List.length flags
    apply List.ext_getElem
    · simp [size]
    · intro index inside inside'
      simp only [List.length_map, List.length_mapIdx, List.length_zip] at inside
      have flag := congrArg (·[index]?) flags
      simp only [List.getElem?_map] at flag
      rw [List.getElem?_eq_getElem (by omega), List.getElem?_eq_getElem (by simpa using inside')]
        at flag
      simpa [Ingest.conditionResult] using flag

theorem outcomeResult_covered {ingest : Ingest} (tested : ingest.Tested) (decision : DecisionMeta)
    (outcome : Bool) :
    (ingest.outcomeResult decision outcome).covered = true ↔
      ∃ vector ∈ ingest.vectorsOf decision.id, vector.outcome = outcome := by
  have reached : (ingest.outcomeResult decision outcome).covered = true ↔
      ∃ test, test ∈ ((ingest.observations decision.id).filter
        (·.vector.outcome = outcome)).flatMap (·.tests) := by
    rw [Ingest.outcomeResult, Bool.not_eq_true', List.isEmpty_eq_false_iff_exists_mem]
    simp only [Ordered.mem_setOf]
  rw [reached]
  simp only [List.mem_flatMap, List.mem_filter, decide_eq_true_eq, Ingest.vectorsOf, List.mem_map]
  constructor
  · rintro ⟨_, observation, ⟨member, same⟩, _⟩
    exact ⟨observation.vector, ⟨observation, member, rfl⟩, same⟩
  · rintro ⟨_, ⟨observation, member, seen⟩, same⟩
    obtain ⟨test, held⟩ := List.exists_mem_of_ne_nil _ (tested decision.id observation member)
    exact ⟨test, observation, ⟨member, seen ▸ same⟩, held⟩

structure DecisionResult.Grows (result more : DecisionResult) : Prop where
  decision : result.decision = more.decision
  vectors : result.vectorObservations.map (·.vector) ⊆ more.vectorObservations.map (·.vector)
  conditions : Below (result.conditions.map fun condition => (condition.index, condition.covered))
    (more.conditions.map fun condition => (condition.index, condition.covered))

structure BranchResult.Grows (result more : BranchResult) : Prop where
  branch : result.branch = more.branch
  alternatives : Below (result.alternatives.map fun alternative => (alternative.id, alternative.covered))
    (more.alternatives.map fun alternative => (alternative.id, alternative.covered))

section Seen

variable {ingest more : Ingest} (sees : ingest.Sees more)

include sees

theorem decisionResult_grows {decision : DecisionMeta} {result result' : DecisionResult}
    (found : ingest.decisionResult decision = .ok result)
    (found' : more.decisionResult decision = .ok result') : result.Grows result' := by
  obtain ⟨vectors, conditions⟩ := decisionResult_spec found
  obtain ⟨vectors', conditions'⟩ := decisionResult_spec found'
  refine ⟨?_, ?_, ?_⟩
  · rw [decisionResult_decision found, decisionResult_decision found']
  · rw [vectors, vectors']
    exact sees.vectors decision.id
  · rw [conditions, conditions']
    apply Pointwise.map (List.forall₂_same.mpr fun _ _ => rfl)
    rintro index _ rfl
    have more : (coverageOf ingest decision).vectors ⊆ (coverageOf more decision).vectors :=
      sees.vectors decision.id
    exact ⟨rfl, Analysis.witnessed_of_subset more⟩

theorem outcomeBranch_grows (tested : ingest.Tested) (tested' : more.Tested)
    (decision : DecisionMeta) :
    (ingest.outcomeBranch decision).Grows (more.outcomeBranch decision) := by
  refine ⟨rfl, ?_⟩
  have covers (outcome : Bool) : (ingest.outcomeResult decision outcome).covered ≤
      (more.outcomeResult decision outcome).covered := by
    intro covered
    obtain ⟨vector, member, same⟩ := (outcomeResult_covered tested decision outcome).mp covered
    exact (outcomeResult_covered tested' decision outcome).mpr
      ⟨vector, sees.vectors decision.id member, same⟩
  exact .cons ⟨rfl, covers true⟩ (.cons ⟨rfl, covers false⟩ .nil)

theorem hit_grows (id : String) :
    (!(ingest.testsByHit id).isEmpty) ≤ !(more.testsByHit id).isEmpty := by
  intro reached
  simpa using sees.hits id (by simpa using reached)

end Seen

theorem decisionResults_grow {declaredBranches : List String} {ingest more : Ingest}
    {decisions : List DecisionMeta} {results results' : List DecisionResult}
    {branches branches' : List BranchResult} (sees : ingest.Sees more) (tested : ingest.Tested)
    (tested' : more.Tested)
    (found : ingest.decisionResults declaredBranches decisions = .ok (results, branches))
    (found' : more.decisionResults declaredBranches decisions = .ok (results', branches')) :
    List.Forall₂ DecisionResult.Grows results results' ∧
      List.Forall₂ BranchResult.Grows branches branches' := by
  induction decisions generalizing ingest more results results' branches branches' with
  | nil =>
    cases found
    cases found'
    exact ⟨.nil, .nil⟩
  | cons decision rest ih =>
    obtain ⟨result, others, made, first, rest_found, rfl, rfl⟩ := decisionResults_cons.mp found
    obtain ⟨result', others', made', first', rest_found', rfl, rfl⟩ :=
      decisionResults_cons.mp found'
    obtain ⟨all, allMade⟩ := ih (sees.without decision.id) (tested.without decision.id)
      (tested'.without decision.id) rest_found rest_found'
    refine ⟨.cons (decisionResult_grows sees first first') all, ?_⟩
    split
    · exact allMade
    · exact .cons (outcomeBranch_grows sees tested tested' decision) allMade

theorem decisionResults_isOk {declaredBranches : List String} {ingest more : Ingest}
    {decisions : List DecisionMeta} (sees : ingest.Sees more)
    (found : ∃ results, more.decisionResults declaredBranches decisions = .ok results) :
    ∃ results, ingest.decisionResults declaredBranches decisions = .ok results := by
  induction decisions generalizing ingest more with
  | nil => exact ⟨([], []), rfl⟩
  | cons decision rest ih =>
    obtain ⟨⟨results, branches⟩, found⟩ := found
    obtain ⟨result, others, made, first, rest_found, -, -⟩ := decisionResults_cons.mp found
    obtain ⟨⟨others', made'⟩, rest_found'⟩ := ih (sees.without decision.id) ⟨_, rest_found⟩
    have fit := decisionResult_isOk_iff.mp ⟨result, first⟩
    obtain ⟨result', first'⟩ := decisionResult_isOk_iff.mpr fun vector member =>
      fit vector (sees.vectors decision.id member)
    exact ⟨_, decisionResults_cons.mpr ⟨result', others', made', first', rest_found', rfl, rfl⟩⟩

theorem BuiltOf.covered {manifest : CoverageManifest} {ingest : Ingest}
    {decisions : List DecisionResult} {outcomeBranches : List BranchResult} {view : CoverageView}
    (built : BuiltOf manifest ingest decisions outcomeBranches view) : ∃ output,
    analyzeCore (coreInput view.decisions view.points view.branches view.lines none) = .ok output ∧
      view.summary.counts = output.summary.counts := by
  obtain ⟨summary, total, summarized, same⟩ := built.summary
  rw [summaryForResults] at summarized
  split at summarized
  · next output accepted =>
    cases summarized
    exact ⟨output, accepted, by rw [same]; rfl⟩
  · cases summarized

section Views

variable {manifest : CoverageManifest} {ingest more : Ingest}
  {decisions decisions' : List DecisionResult} {outcomeBranches outcomeBranches' : List BranchResult}
  {view view' : CoverageView} (sees : ingest.Sees more) (tested : ingest.Tested)
  (tested' : more.Tested) (built : BuiltOf manifest ingest decisions outcomeBranches view)
  (built' : BuiltOf manifest more decisions' outcomeBranches' view')

include sees tested tested' built built'

theorem decisions_grow : List.Forall₂ DecisionResult.Grows view.decisions view'.decisions := by
  rw [built.decisions, built'.decisions]
  apply Pointwise.filter (decisionResults_grow sees tested tested' built.decided built'.decided).1
  intro result result' grows
  rw [grows.decision]

theorem branches_grow : List.Forall₂ BranchResult.Grows view.branches view'.branches := by
  rw [built.branches, built'.branches]
  refine Pointwise.filter (R := BranchResult.Grows) (List.rel_append ?_
    (decisionResults_grow sees tested tested' built.decided built'.decided).2) ?_
  · apply Pointwise.map (List.forall₂_same.mpr fun _ _ => rfl)
    rintro branch _ rfl
    refine ⟨rfl, ?_⟩
    rw [Ingest.branchResult, Ingest.branchResult, List.map_map, List.map_map]
    apply Pointwise.map (List.forall₂_same.mpr fun _ _ => rfl)
    rintro alternative _ rfl
    exact ⟨rfl, hit_grows sees alternative.id⟩
  · intro result result' grows
    rw [grows.branch]

omit tested tested' in
theorem points_grow : List.Forall₂ (fun result more : PointResult =>
    result.point = more.point ∧ result.covered ≤ more.covered) view.points view'.points := by
  rw [built.points, built'.points]
  apply Pointwise.filter
  · apply Pointwise.map (List.forall₂_same.mpr fun _ _ => rfl)
    rintro point _ rfl
    exact ⟨rfl, hit_grows sees point.id⟩
  · intro result result' grows
    rw [grows.1]

omit tested tested' in
theorem lines_grow : List.Forall₂ (fun result more : LineResult =>
    result.location = more.location ∧ result.measured = more.measured ∧
      result.covered ≤ more.covered) view.lines view'.lines := by
  have flags := lines_eq (declinedOf manifest) ingest
    (manifest.points.map (ingest.pointResult (declinedOf manifest)))
  have flags' := lines_eq (declinedOf manifest) more
    (manifest.points.map (more.pointResult (declinedOf manifest)))
  rw [← built.lines] at flags
  rw [← built'.lines] at flags'
  suffices related : List.Forall₂
      (fun flag flag' : SourceLine × Bool × Bool =>
        flag.1 = flag'.1 ∧ flag.2.1 = flag'.2.1 ∧ flag.2.2 ≤ flag'.2.2)
      (view.lines.map fun line => (line.location, line.measured, line.covered))
      (view'.lines.map fun line => (line.location, line.measured, line.covered)) by
    rw [List.forall₂_map_left_iff, List.forall₂_map_right_iff] at related
    exact related
  rw [flags, flags', List.map_map, List.map_map]
  apply Pointwise.map (List.forall₂_same.mpr fun _ _ => rfl)
  rintro location _ rfl
  refine ⟨rfl, ?_, ?_⟩
  · simp only [measuredAt, List.any_map]
    rfl
  · simp only [coveredAt, List.any_map]
    intro covered
    obtain ⟨point, member, holds⟩ := List.any_eq_true.mp covered
    obtain ⟨here, kept, reached⟩ := of_decide_eq_true holds
    exact List.any_eq_true.mpr ⟨point, member,
      decide_eq_true ⟨here, kept, hit_grows sees point.id reached⟩⟩

theorem flags_grow : Below view.flags view'.flags := by
  have points := points_grow sees built built'
  have branches := branches_grow sees tested tested' built built'
  have lines := lines_grow sees built built'
  have decisions := decisions_grow sees tested tested' built built'
  refine List.rel_append (List.rel_append (List.rel_append ?points ?alternatives) ?lines)
    ?conditions
  case points =>
    apply Pointwise.map points
    intro result result' grows
    exact ⟨by rw [grows.1], grows.2⟩
  case alternatives =>
    apply Pointwise.flatMap branches
    intro result result' grows
    have alternatives := grows.alternatives
    unfold Below at alternatives
    rw [List.forall₂_map_left_iff, List.forall₂_map_right_iff] at alternatives
    apply Pointwise.map alternatives
    intro alternative alternative' grows
    exact ⟨congrArg Obligation.alternative grows.1, grows.2⟩
  case lines =>
    apply Pointwise.map lines
    intro result result' grows
    exact ⟨by rw [grows.1], grows.2.2⟩
  case conditions =>
    apply Pointwise.flatMap decisions
    intro result result' grows
    have conditions := grows.conditions
    unfold Below at conditions
    rw [List.forall₂_map_left_iff, List.forall₂_map_right_iff] at conditions
    apply Pointwise.map conditions
    intro condition condition' more
    dsimp only at more
    exact ⟨by rw [grows.decision, more.1], more.2⟩

theorem coreInput_grows :
    (coreInput view.decisions view.points view.branches view.lines none).Grows
      (coreInput view'.decisions view'.points view'.branches view'.lines none) where
  decisions := by
    apply Pointwise.map (decisions_grow sees tested tested' built built')
    intro result result' grows
    refine ⟨by rw [grows.decision], ?_⟩
    simpa using grows.vectors
  points := by
    apply Pointwise.map (points_grow sees built built')
    intro result result' grows
    exact ⟨by rw [grows.1], grows.2⟩
  branches := by
    apply Pointwise.map (branches_grow sees tested tested' built built')
    intro result result' grows
    refine ⟨by rw [grows.branch], ?_⟩
    have alternatives := grows.alternatives
    unfold Below at alternatives
    rw [List.forall₂_map_left_iff, List.forall₂_map_right_iff] at alternatives
    exact Pointwise.map alternatives fun _ _ grows => grows.2
  lines := by
    have lines := Pointwise.filter (p := (·.measured)) (q := (·.measured))
      (lines_grow sees built built') fun _ _ grows => grows.2.1
    exact Pointwise.map lines fun _ _ grows => grows.2.2

theorem counts_grow : Below view.summary.counts view'.summary.counts := by
  obtain ⟨output, accepted, same⟩ := built.covered
  obtain ⟨output', accepted', same'⟩ := built'.covered
  rw [same, same']
  exact Analysis.counts_below (coreInput_grows sees tested tested' built built') accepted accepted'

end Views

theorem Noted.mem_vectorsOf {ingest : Ingest} {log : Log} (noted : Noted ingest log)
    {decision : String} {vector : McdcVector} :
    vector ∈ ingest.vectorsOf decision ↔ ∃ test, (test, .vector decision vector) ∈ log := by
  rw [Ingest.vectorsOf, List.mem_map]
  constructor
  · intro ⟨observation, member, same⟩
    obtain ⟨test, held⟩ := List.exists_mem_of_ne_nil _ (noted.tested decision observation member)
    exact ⟨test, (noted.seen decision vector test).mp ⟨observation, member, same, held⟩⟩
  · intro ⟨test, logged⟩
    obtain ⟨observation, member, same, -⟩ := (noted.seen decision vector test).mpr logged
    exact ⟨observation, member, same⟩

theorem Noted.hit_iff {ingest : Ingest} {log : Log} (noted : Noted ingest log) {id : String} :
    ingest.testsByHit id ≠ [] ↔ ∃ test, (test, .hit id) ∈ log := by
  constructor
  · intro reached
    obtain ⟨test, member⟩ := List.exists_mem_of_ne_nil _ reached
    exact ⟨test, (noted.hits test id).mp member⟩
  · intro ⟨test, logged⟩
    exact List.ne_nil_of_mem ((noted.hits test id).mpr logged)

theorem Noted.sees {ingest more : Ingest} {log log' : Log} (noted : Noted ingest log)
    (noted' : Noted more log') (all : log ⊆ log') : ingest.Sees more where
  vectors := by
    intro decision vector member
    obtain ⟨test, logged⟩ := noted.mem_vectorsOf.mp member
    exact noted'.mem_vectorsOf.mpr ⟨test, all logged⟩
  hits := by
    intro id reached
    obtain ⟨test, logged⟩ := noted.hit_iff.mp reached
    exact noted'.hit_iff.mpr ⟨test, all logged⟩

end Supercov.Report
