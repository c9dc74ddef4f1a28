import Supercov.Analysis.Completeness
import Supercov.Library.Pointwise

/-!
# More evidence, higher counts

Every count of a summary grows with the evidence, and none depends on the order
the vectors came in.
-/

namespace Supercov.Analysis

open Pointwise (Below)

theorem isIndependencePair_symm {first second : McdcVector} {condition : Nat}
    (pair : isIndependencePair first second condition = true) :
    isIndependencePair second first condition = true := by
  have same : first.values.length = second.values.length := by
    by_contra different
    simp [isIndependencePair, different] at pair
  obtain ⟨target, here, there, outcome, agree⟩ := (isIndependencePair_iff same).mp pair
  apply (isIndependencePair_iff same.symm).mpr
  refine ⟨!target, there, by simpa using here, by simp [outcome], ?_⟩
  intro index value other found opposite
  exact agree index (!value) other opposite (by simpa using found)

theorem isIndependencePair_self (vector : McdcVector) (condition : Nat) :
    isIndependencePair vector vector condition = false := by
  by_contra pair
  obtain ⟨target, here, there, -⟩ := (isIndependencePair_iff rfl).mp (by simpa using pair)
  rw [here] at there
  simp at there

theorem DecisionCoverage.witnessed_iff_exists {coverage : DecisionCoverage} {condition : Nat} :
    coverage.witnessed condition = true ↔
      ∃ first ∈ coverage.vectors, ∃ second ∈ coverage.vectors,
        isIndependencePair first second condition = true := by
  rw [coverage.witnessed_iff]
  constructor
  · intro ⟨i, j, _, first, second, found, found', pair⟩
    exact ⟨first, List.mem_of_getElem? found, second, List.mem_of_getElem? found', pair⟩
  · intro ⟨first, member, second, member', pair⟩
    obtain ⟨i, found⟩ := List.getElem?_of_mem member
    obtain ⟨j, found'⟩ := List.getElem?_of_mem member'
    rcases lt_trichotomy i j with before | same | after
    · exact ⟨i, j, before, first, second, found, found', pair⟩
    · subst same
      rw [found] at found'
      cases found'
      rw [isIndependencePair_self] at pair
      cases pair
    · exact ⟨j, i, after, second, first, found', found, isIndependencePair_symm pair⟩

/-- The same obligations, with at least the evidence. -/
structure CoverageCoreInput.Grows (input more : CoverageCoreInput) : Prop where
  decisions : List.Forall₂ (fun coverage grown : DecisionCoverage =>
    coverage.conditionCount = grown.conditionCount ∧ coverage.vectors ⊆ grown.vectors)
    input.decisions more.decisions
  points : List.Forall₂ (fun point grown : PointCoverage =>
    point.kind = grown.kind ∧ point.covered ≤ grown.covered) input.points more.points
  branches : List.Forall₂ (fun branch grown : BranchCoverage =>
    branch.kind = grown.kind ∧ List.Forall₂ (· ≤ ·) branch.alternatives grown.alternatives)
    input.branches more.branches
  lines : List.Forall₂ (· ≤ ·) input.lines more.lines

def CoverageSummary.counts (summary : CoverageSummary) : List (Nat × Nat) :=
  [(summary.decisions, summary.executedDecisions), (summary.decisions, summary.coveredDecisions),
    (summary.conditions, summary.coveredConditions)] ++
  [summary.lines, summary.statements, summary.functions, summary.branches,
    summary.decisionOutcomes, summary.conditionOutcomes, summary.valueSelections].map
      fun count => (count.total, count.covered)

section Grown

variable {coverage grown : DecisionCoverage} (more : coverage.vectors ⊆ grown.vectors)

include more

theorem any_le_of_subset (p : McdcVector → Bool) :
    (coverage.vectors.any p).toNat ≤ (grown.vectors.any p).toNat := by
  apply Bool.toNat_le_toNat
  intro some
  obtain ⟨vector, member, holds⟩ := List.any_eq_true.mp some
  exact List.any_eq_true.mpr ⟨vector, more member, holds⟩

theorem outcomesCovered_le : coverage.outcomesCovered ≤ grown.outcomesCovered :=
  Nat.add_le_add (any_le_of_subset more _) (any_le_of_subset more _)

theorem conditionOutcomesCovered_le (same : coverage.conditionCount = grown.conditionCount) :
    coverage.conditionOutcomesCovered ≤ grown.conditionOutcomesCovered := by
  unfold DecisionCoverage.conditionOutcomesCovered
  rw [← same]
  apply Pointwise.sum_map_le (List.forall₂_same.mpr fun _ _ => rfl)
  rintro condition _ rfl
  exact Nat.add_le_add (any_le_of_subset more _) (any_le_of_subset more _)

theorem witnessed_of_subset {condition : Nat} (witnessed : coverage.witnessed condition = true) :
    grown.witnessed condition = true := by
  rw [DecisionCoverage.witnessed_iff_exists] at witnessed ⊢
  obtain ⟨first, member, second, member', pair⟩ := witnessed
  exact ⟨first, more member, second, more member', pair⟩

end Grown

def DecisionCoverage.Fits (coverage : DecisionCoverage) : Prop :=
  coverage.conditionCount ≠ 0 ∧
    ∀ vector ∈ coverage.vectors, vector.values.length = coverage.conditionCount

theorem findWitnessesForConditions_isOk_iff {vectors : List McdcVector} {width : Nat} :
    (∃ witnesses, findWitnessesForConditions vectors width = .ok witnesses) ↔
      ∀ vector ∈ vectors, vector.values.length = width := by
  constructor
  · intro ⟨_, found⟩
    exact (uniform_of_findWitnessesForConditions found).1
  · intro uniform
    cases found : findWitnessesForConditions vectors width with
    | ok witnesses => exact ⟨witnesses, rfl⟩
    | error error =>
      obtain ⟨i, vector, ⟨here, misfit, -⟩, -⟩ :=
        (findWitnessesForConditions_error vectors width error).mp found
      exact absurd (uniform vector (List.mem_of_getElem? here)) misfit

theorem findAllWitnesses_isOk {decisions : List DecisionCoverage}
    (fit : ∀ coverage ∈ decisions, coverage.Fits) :
    ∃ rows, findAllWitnesses decisions = .ok rows := by
  unfold findAllWitnesses
  generalize 0 = start
  induction decisions generalizing start with
  | nil => exact ⟨[], rfl⟩
  | cons coverage rest ih =>
    obtain ⟨⟨some, uniform⟩, others⟩ := List.forall_mem_cons.mp fit
    obtain ⟨row, found⟩ := findWitnessesForConditions_isOk_iff.mpr uniform
    obtain ⟨rows, found'⟩ := ih others (start + 1)
    refine ⟨row :: rows, ?_⟩
    rw [List.zipIdx_cons, List.mapM_cons]
    simp only [decisionWitnesses, if_neg some, found, found']
    rfl

theorem analyzeCore_isOk_iff {input : CoverageCoreInput} :
    (∃ output, analyzeCore input = .ok output) ↔ ∀ coverage ∈ input.decisions, coverage.Fits := by
  constructor
  · intro ⟨output, accepted⟩ coverage member
    obtain ⟨rows, -⟩ := analyzeCore_ok accepted
    obtain ⟨row, some, found⟩ := rows.row_of_mem member
    exact ⟨some, findWitnessesForConditions_isOk_iff.mp ⟨row, found⟩⟩
  · intro fit
    obtain ⟨rows, found⟩ := findAllWitnesses_isOk fit
    exact ⟨{ witnesses := rows, summary := summarize input rows },
      by simp only [analyzeCore, found]; rfl⟩

theorem RowsOf.isSome {decisions : List DecisionCoverage}
    {rows : List (List (Option WitnessIndexes))} (rowsOf : RowsOf decisions rows) :
    rows.map (·.map Option.isSome) =
      decisions.map fun coverage => (List.range coverage.conditionCount).map coverage.witnessed := by
  induction rowsOf with
  | nil => rfl
  | cons head _ ih => rw [List.map_cons, List.map_cons, ih, row_isSome head.2]

theorem RowsOf.coveredDecisions_eq {decisions : List DecisionCoverage}
    {rows : List (List (Option WitnessIndexes))} (rowsOf : RowsOf decisions rows) :
    (rows.filter fun row => row.all Option.isSome).length =
      (decisions.filter fun coverage =>
        (List.range coverage.conditionCount).all coverage.witnessed).length := by
  have same := congrArg (fun rows => (rows.filter fun row => row.all id).length) rowsOf.isSome
  simpa [List.filter_map, Function.comp_def, List.all_map] using same

theorem RowsOf.coveredConditions_eq {decisions : List DecisionCoverage}
    {rows : List (List (Option WitnessIndexes))} (rowsOf : RowsOf decisions rows) :
    (rows.flatten.filter Option.isSome).length =
      (decisions.map fun coverage =>
        ((List.range coverage.conditionCount).filter coverage.witnessed).length).sum := by
  have same := congrArg (fun rows => (rows.map fun row => (row.filter id).length).sum) rowsOf.isSome
  simpa [List.filter_map, Function.comp_def, List.filter_flatten, List.length_flatten] using same

/-- How many there are of what a summary counts. -/
def CoverageCoreInput.totals (input : CoverageCoreInput) : List Nat :=
  let decisions := input.decisions.length
  [decisions, decisions, input.conditionTotal, input.lines.length,
    (input.pointsOf .statement).length, (input.pointsOf .function).length,
    input.alternatives.length, decisions * 2, input.conditionTotal * 2,
    ((input.branches.filter (·.kind = "logical-value")).flatMap (·.alternatives)).length]

theorem totals {input : CoverageCoreInput} {output : CoverageCoreOutput}
    (accepted : analyzeCore input = .ok output) :
    output.summary.counts.map Prod.fst = input.totals := by
  obtain ⟨rows, summary⟩ := analyzeCore_ok accepted
  rw [summary, CoverageCoreInput.totals, CoverageCoreInput.conditionTotal, ← rows.conditions]
  rfl

theorem counts_below {input more : CoverageCoreInput} {output output' : CoverageCoreOutput}
    (grows : input.Grows more) (accepted : analyzeCore input = .ok output)
    (accepted' : analyzeCore more = .ok output') :
    Below output.summary.counts output'.summary.counts := by
  obtain ⟨rows, summary⟩ := analyzeCore_ok accepted
  obtain ⟨rows', summary'⟩ := analyzeCore_ok accepted'
  rw [summary, summary']
  have conditions : (output.witnesses.map List.length).sum =
      (output'.witnesses.map List.length).sum := by
    rw [rows.conditions, rows'.conditions, Pointwise.map_eq grows.decisions fun _ _ more => more.1]
  have alternatives := Pointwise.flatMap grows.branches fun _ _ more => more.2
  have valued := Pointwise.flatMap (Pointwise.filter (p := (·.kind = "logical-value"))
    (q := (·.kind = "logical-value")) grows.branches fun _ _ more => by rw [more.1])
    fun _ _ more => more.2
  have ofKind (kind : PointKind) := Pointwise.filter (p := (·.kind = kind)) (q := (·.kind = kind))
    grows.points fun _ _ more => by rw [more.1]
  have reached {xs ys : List Bool} (le : List.Forall₂ (· ≤ ·) xs ys) :
      (xs.filter id).length ≤ (ys.filter id).length :=
    Pointwise.length_filter_le le fun _ _ le holds => le holds
  have decisions := grows.decisions.length_eq
  refine .cons ⟨decisions, ?executed⟩ <| .cons ⟨decisions, ?covered⟩ <|
    .cons ⟨conditions, ?witnessed⟩ <| .cons ⟨grows.lines.length_eq, reached grows.lines⟩ <|
    .cons ⟨(ofKind .statement).length_eq, ?statements⟩ <|
    .cons ⟨(ofKind .function).length_eq, ?functions⟩ <|
    .cons ⟨alternatives.length_eq, reached alternatives⟩ <|
    .cons ⟨?outcomes, ?outcomesCovered⟩ <| .cons ⟨?values, ?valuesCovered⟩ <|
    .cons ⟨valued.length_eq, reached valued⟩ .nil
  case executed =>
    apply Pointwise.length_filter_le grows.decisions
    intro coverage grown more executed
    cases seen : coverage.vectors with
    | nil => simp [seen] at executed
    | cons vector _ =>
      have member := more.2 (seen ▸ List.mem_cons_self : vector ∈ coverage.vectors)
      simpa using List.ne_nil_of_mem member
  case covered =>
    dsimp only [summarize]
    rw [rows.coveredDecisions_eq, rows'.coveredDecisions_eq]
    apply Pointwise.length_filter_le grows.decisions
    intro coverage grown more covered
    rw [List.all_eq_true] at covered ⊢
    rw [← more.1]
    intro condition inside
    exact witnessed_of_subset more.2 (covered condition inside)
  case witnessed =>
    dsimp only [summarize]
    rw [rows.coveredConditions_eq, rows'.coveredConditions_eq]
    apply Pointwise.sum_map_le grows.decisions
    intro coverage grown more
    rw [← more.1]
    apply Pointwise.length_filter_le (List.forall₂_same.mpr fun _ _ => rfl)
    rintro condition _ rfl witnessed
    exact witnessed_of_subset more.2 witnessed
  case statements | functions =>
    exact Pointwise.length_filter_le (ofKind _) fun _ _ more holds => more.2 holds
  case outcomes => exact congrArg (· * 2) decisions
  case outcomesCovered =>
    exact Pointwise.sum_map_le grows.decisions fun _ _ more => outcomesCovered_le more.2
  case values => exact congrArg (· * 2) conditions
  case valuesCovered =>
    exact Pointwise.sum_map_le grows.decisions fun _ _ more =>
      conditionOutcomesCovered_le more.2 more.1

end Supercov.Analysis
