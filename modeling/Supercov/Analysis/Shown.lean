import Supercov.Analysis.Growth

/-!
# Equal counts

Where one input has at least the evidence of another, the counts of the two are the
same only when the further evidence shows nothing the other does not: no obligation,
no outcome, no value of a condition and no witness.
-/

namespace Supercov.Analysis

/-- What the evidence of two inputs shows of one decision is the same. -/
structure DecisionCoverage.ShowsSame (coverage other : DecisionCoverage) : Prop where
  outcomes : ∀ outcome, (coverage.vectors.any fun vector => vector.outcome == outcome) =
    other.vectors.any fun vector => vector.outcome == outcome
  values : ∀ condition < coverage.conditionCount, ∀ value,
    (coverage.vectors.any fun vector => vector.value condition == some value) =
      other.vectors.any fun vector => vector.value condition == some value
  witnesses : ∀ condition < coverage.conditionCount,
    coverage.witnessed condition = other.witnessed condition

structure CoverageCoreInput.ShowsSame (input other : CoverageCoreInput) : Prop where
  decisions : List.Forall₂ DecisionCoverage.ShowsSame input.decisions other.decisions
  points : List.Forall₂ (fun point point' : PointCoverage => point.covered = point'.covered)
    input.points other.points
  branches : List.Forall₂ (fun branch branch' : BranchCoverage =>
    branch.alternatives = branch'.alternatives) input.branches other.branches
  lines : input.lines = other.lines

section Decision

variable {coverage grown : DecisionCoverage} (more : coverage.vectors ⊆ grown.vectors)

include more

theorem any_add_any_eq_iff (p q : McdcVector → Bool) :
    (coverage.vectors.any p).toNat + (coverage.vectors.any q).toNat =
        (grown.vectors.any p).toNat + (grown.vectors.any q).toNat ↔
      coverage.vectors.any p = grown.vectors.any p ∧ coverage.vectors.any q = grown.vectors.any q := by
  have first := any_le_of_subset more p
  have second := any_le_of_subset more q
  revert first second
  cases coverage.vectors.any p <;> cases grown.vectors.any p <;>
    cases coverage.vectors.any q <;> cases grown.vectors.any q <;> simp

theorem outcomesCovered_eq_iff : coverage.outcomesCovered = grown.outcomesCovered ↔
    ∀ outcome, (coverage.vectors.any fun vector => vector.outcome == outcome) =
      grown.vectors.any fun vector => vector.outcome == outcome := by
  rw [DecisionCoverage.outcomesCovered, DecisionCoverage.outcomesCovered, any_add_any_eq_iff more,
    Bool.forall_bool]
  simp

theorem conditionOutcomesCovered_eq_iff (same : coverage.conditionCount = grown.conditionCount) :
    coverage.conditionOutcomesCovered = grown.conditionOutcomesCovered ↔
      ∀ condition < coverage.conditionCount, ∀ value,
        (coverage.vectors.any fun vector => vector.value condition == some value) =
          grown.vectors.any fun vector => vector.value condition == some value := by
  have each (condition : Nat) : coverage.valuesCovered condition ≤ grown.valuesCovered condition :=
    Nat.add_le_add (any_le_of_subset more _) (any_le_of_subset more _)
  unfold DecisionCoverage.conditionOutcomesCovered
  rw [← same, Pointwise.sum_map_eq_iff (List.forall₂_same.mpr fun _ _ => rfl)
    (by rintro condition _ rfl; exact each condition), List.forall₂_same]
  simp only [List.mem_range]
  refine forall₂_congr fun condition _ => ?_
  rw [DecisionCoverage.valuesCovered, DecisionCoverage.valuesCovered, any_add_any_eq_iff more,
    Bool.forall_bool]

theorem witnessed_eq_iff (same : coverage.conditionCount = grown.conditionCount) :
    ((List.range coverage.conditionCount).filter coverage.witnessed).length =
        ((List.range grown.conditionCount).filter grown.witnessed).length ↔
      ∀ condition < coverage.conditionCount,
        coverage.witnessed condition = grown.witnessed condition := by
  rw [← same, Pointwise.length_filter_eq_iff (List.forall₂_same.mpr fun _ _ => rfl)
    (by rintro condition _ rfl; exact witnessed_of_subset more), List.forall₂_same]
  simp only [List.mem_range]

end Decision

theorem DecisionCoverage.ShowsSame.isEmpty {coverage other : DecisionCoverage}
    (same : coverage.ShowsSame other) : coverage.vectors.isEmpty = other.vectors.isEmpty := by
  have empty (coverage : DecisionCoverage) : coverage.vectors.isEmpty =
      (!(coverage.vectors.any fun vector => vector.outcome == false) &&
        !(coverage.vectors.any fun vector => vector.outcome == true)) := by
    cases coverage.vectors with
    | nil => rfl
    | cons vector _ => cases held : vector.outcome <;> simp [held]
  rw [empty coverage, empty other, same.outcomes, same.outcomes]

/-- All of the total but at most one in 20000. -/
def CoverageCount.Full (count : CoverageCount) : Prop :=
  20000 * (count.total - count.covered) ≤ count.total

theorem coverageComplete_iff_full {input : CoverageCoreInput} {output : CoverageCoreOutput}
    (accepted : analyzeCore input = .ok output) :
    output.summary.coverageComplete = true ↔
      output.summary.lines.Full ∧ output.summary.statements.Full ∧ output.summary.functions.Full ∧
        output.summary.branches.Full ∧ output.summary.conditionOutcomes.Full ∧
        (count output.summary.coveredConditions output.summary.conditions).Full := by
  obtain ⟨rows, summary⟩ := analyzeCore_ok accepted
  have values := conditionOutcomes_add_valuesMissing input
  have witnesses := rows.coveredConditions
  have conditions := rows.conditions
  have total : input.conditionTotal = (input.decisions.map (·.conditionCount)).sum := rfl
  rw [summary]
  refine decide_eq_true_iff.trans <|
    and_congr (percentage_eq_hundred_iff (List.length_filter_le _ _)) <|
    and_congr (percentage_eq_hundred_iff (List.length_filter_le _ _)) <|
    and_congr (percentage_eq_hundred_iff (List.length_filter_le _ _)) <|
    and_congr (percentage_eq_hundred_iff (List.length_filter_le _ _)) <|
    and_congr (percentage_eq_hundred_iff ?_) (percentage_eq_hundred_iff ?_)
  · omega
  · omega

section Input

variable {input more : CoverageCoreInput} (grows : input.Grows more)

include grows

theorem points_eq_iff :
    (∀ kind, ((input.pointsOf kind).filter (·.covered)).length =
        ((more.pointsOf kind).filter (·.covered)).length) ↔
      List.Forall₂ (fun point point' : PointCoverage => point.covered = point'.covered)
        input.points more.points := by
  have ofKind (kind : PointKind) : ((input.pointsOf kind).filter (·.covered)).length =
        ((more.pointsOf kind).filter (·.covered)).length ↔
      List.Forall₂ (fun point point' : PointCoverage =>
        (point.covered && decide (point.kind = kind)) =
          (point'.covered && decide (point'.kind = kind))) input.points more.points := by
    rw [CoverageCoreInput.pointsOf, CoverageCoreInput.pointsOf, List.filter_filter,
      List.filter_filter]
    apply Pointwise.length_filter_eq_iff grows.points
    intro point point' grown holds
    rw [Bool.and_eq_true] at holds ⊢
    exact ⟨grown.2 holds.1, grown.1 ▸ holds.2⟩
  simp only [ofKind]
  constructor
  · intro same
    have statements := List.Forall₂.mp (fun _ _ grown own => And.intro grown.1 own) grows.points
      (same .statement)
    refine List.Forall₂.mp ?_ statements (same .function)
    rintro point point' ⟨kind, statement⟩ function
    rw [← kind] at statement function
    cases own : point.kind with
    | statement => simpa [own] using statement
    | function => simpa [own] using function
  · intro same kind
    refine List.Forall₂.mp ?_ grows.points same
    intro point point' grown covered
    rw [covered, grown.1]

theorem branches_eq_iff :
    (input.alternatives.filter id).length = (more.alternatives.filter id).length ↔
      List.Forall₂ (fun branch branch' : BranchCoverage =>
        branch.alternatives = branch'.alternatives) input.branches more.branches := by
  have apart (branches : List BranchCoverage) :
      ((branches.flatMap (·.alternatives)).filter id).length =
        (branches.map fun branch => (branch.alternatives.filter id).length).sum := by
    simp [List.filter_flatMap, List.length_flatMap]
  have le (branch branch' : BranchCoverage) (grown : branch.kind = branch'.kind ∧
      List.Forall₂ (· ≤ ·) branch.alternatives branch'.alternatives) :
      (branch.alternatives.filter id).length ≤ (branch'.alternatives.filter id).length :=
    Pointwise.length_filter_le grown.2 fun _ _ le holds => le holds
  rw [CoverageCoreInput.alternatives, CoverageCoreInput.alternatives, apart, apart,
    Pointwise.sum_map_eq_iff grows.branches le]
  constructor
  · intro same
    refine List.Forall₂.mp ?_ grows.branches same
    intro branch branch' grown equal
    exact (Pointwise.length_filter_id_eq_iff grown.2).mp equal
  · intro same
    exact same.imp fun _ _ equal => by rw [equal]

theorem decisions_eq_iff :
    ((input.decisions.map (·.outcomesCovered)).sum = (more.decisions.map (·.outcomesCovered)).sum ∧
      (input.decisions.map (·.conditionOutcomesCovered)).sum =
        (more.decisions.map (·.conditionOutcomesCovered)).sum ∧
      (input.decisions.map fun coverage =>
        ((List.range coverage.conditionCount).filter coverage.witnessed).length).sum =
        (more.decisions.map fun coverage =>
          ((List.range coverage.conditionCount).filter coverage.witnessed).length).sum) ↔
      List.Forall₂ DecisionCoverage.ShowsSame input.decisions more.decisions := by
  have witnesses (coverage grown : DecisionCoverage)
      (more : coverage.conditionCount = grown.conditionCount ∧ coverage.vectors ⊆ grown.vectors) :
      ((List.range coverage.conditionCount).filter coverage.witnessed).length ≤
        ((List.range grown.conditionCount).filter grown.witnessed).length := by
    rw [← more.1]
    apply Pointwise.length_filter_le (List.forall₂_same.mpr fun _ _ => rfl)
    rintro condition _ rfl witnessed
    exact witnessed_of_subset more.2 witnessed
  rw [Pointwise.sum_map_eq_iff grows.decisions fun _ _ more => outcomesCovered_le more.2,
    Pointwise.sum_map_eq_iff grows.decisions fun _ _ more =>
      conditionOutcomesCovered_le more.2 more.1,
    Pointwise.sum_map_eq_iff grows.decisions witnesses]
  constructor
  · rintro ⟨outcomes, values, witnessed⟩
    have first := List.Forall₂.mp (fun _ _ => And.intro) grows.decisions outcomes
    have second := List.Forall₂.mp (fun _ _ => And.intro) first values
    refine List.Forall₂.mp ?_ second witnessed
    rintro coverage grown ⟨⟨more, outcomes⟩, values⟩ witnessed
    exact ⟨(outcomesCovered_eq_iff more.2).mp outcomes,
      (conditionOutcomesCovered_eq_iff more.2 more.1).mp values,
      (witnessed_eq_iff more.2 more.1).mp witnessed⟩
  · intro same
    have both := List.Forall₂.mp (fun _ _ => And.intro) grows.decisions same
    exact ⟨both.imp fun _ _ held => (outcomesCovered_eq_iff held.1.2).mpr held.2.outcomes,
      both.imp fun _ _ held =>
        (conditionOutcomesCovered_eq_iff held.1.2 held.1.1).mpr held.2.values,
      both.imp fun _ _ held => (witnessed_eq_iff held.1.2 held.1.1).mpr held.2.witnesses⟩

theorem counts_eq_iff {output output' : CoverageCoreOutput}
    (accepted : analyzeCore input = .ok output) (accepted' : analyzeCore more = .ok output') :
    output.summary.counts = output'.summary.counts ↔ input.ShowsSame more := by
  obtain ⟨rows, summary⟩ := analyzeCore_ok accepted
  obtain ⟨rows', summary'⟩ := analyzeCore_ok accepted'
  rw [(counts_below grows accepted accepted').eq_iff, summary, summary']
  simp only [CoverageSummary.counts, summarize, count, List.map_cons, List.map_nil,
    List.cons_append, List.nil_append, List.cons.injEq, and_true, rows.coveredDecisions_eq,
    rows'.coveredDecisions_eq, rows.coveredConditions_eq, rows'.coveredConditions_eq]
  constructor
  · rintro ⟨-, -, witnesses, lines, statements, functions, alternatives, outcomes, values, -⟩
    refine ⟨(decisions_eq_iff grows).mp ⟨outcomes, values, witnesses⟩,
      (points_eq_iff grows).mp fun kind => ?_, (branches_eq_iff grows).mp alternatives,
      (Pointwise.length_filter_id_eq_iff grows.lines).mp lines⟩
    cases kind with
    | statement => exact statements
    | function => exact functions
  · intro same
    obtain ⟨outcomes, values, witnesses⟩ := (decisions_eq_iff grows).mpr same.decisions
    have points := (points_eq_iff grows).mpr same.points
    have both := List.Forall₂.mp (fun _ _ => And.intro) grows.decisions same.decisions
    have valued : (input.branches.filter (·.kind = "logical-value")).flatMap (·.alternatives) =
        (more.branches.filter (·.kind = "logical-value")).flatMap (·.alternatives) := by
      have branches := List.Forall₂.mp (fun _ _ => And.intro) grows.branches same.branches
      rw [List.flatMap_def, List.flatMap_def, Pointwise.map_eq (Pointwise.filter branches
        fun _ _ held => by rw [held.1.1]) fun _ _ held => held.2]
    refine ⟨?executed, ?covered, witnesses,
      (Pointwise.length_filter_id_eq_iff grows.lines).mpr same.lines, points .statement,
      points .function, (branches_eq_iff grows).mpr same.branches, outcomes, values, ?valued⟩
    case executed =>
      exact (Pointwise.filter same.decisions fun _ _ held => by rw [held.isEmpty]).length_eq
    case covered =>
      refine (Pointwise.filter both fun coverage grown held => ?_).length_eq
      rw [← held.1.1, Bool.eq_iff_iff, List.all_eq_true, List.all_eq_true]
      refine forall₂_congr fun condition inside => ?_
      rw [held.2.witnesses condition (List.mem_range.mp inside)]
    case valued => rw [valued]

theorem coverageComplete_of_grows {output output' : CoverageCoreOutput}
    (accepted : analyzeCore input = .ok output) (accepted' : analyzeCore more = .ok output')
    (complete : output.summary.coverageComplete = true) :
    output'.summary.coverageComplete = true := by
  have below := counts_below grows accepted accepted'
  simp only [CoverageSummary.counts, List.map_cons, List.map_nil, List.cons_append,
    List.nil_append, Pointwise.Below, List.forall₂_cons, List.Forall₂.nil, and_true] at below
  obtain ⟨-, -, conditions, lines, statements, functions, branches, -, values, -⟩ := below
  rw [coverageComplete_iff_full accepted] at complete
  rw [coverageComplete_iff_full accepted']
  simp only [CoverageCount.Full, count] at complete ⊢
  omega

end Input

end Supercov.Analysis
