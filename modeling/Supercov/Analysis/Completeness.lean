import Supercov.Analysis.Core
import Mathlib.Algebra.BigOperators.Ring.List

/-!
# When a run is called complete

`coverageComplete` is read off six rounded percentages.  A percentage rounds to
one hundred as soon as at most one obligation in twenty thousand is missing, so
the flag is right exactly when no measure falls in between.
-/

namespace Supercov.Analysis

theorem percentage_eq_hundred_iff {covered total : Nat} (le : covered ≤ total) :
    percentage covered total = 100 ↔ 20000 * (total - covered) ≤ total := by
  unfold percentage
  by_cases zero : total = 0
  · simp [zero]
  · have positive : (0 : ℚ) < total := by exact_mod_cast Nat.pos_of_ne_zero zero
    rw [if_neg zero, div_eq_iff (by norm_num : (100 : ℚ) ≠ 0)]
    norm_num only
    rw [show (10000 : ℚ) = ((10000 : ℤ) : ℚ) by norm_num, Int.cast_inj, round_eq,
      Int.floor_eq_iff]
    have share_le : (covered : ℚ) / total ≤ 1 := by
      rw [div_le_one positive]
      exact_mod_cast le
    have upper : (covered : ℚ) / total * ((10000 : ℤ) : ℚ) + 1 / 2 < ((10000 : ℤ) : ℚ) + 1 := by
      push_cast
      linarith
    simp only [upper, and_true]
    push_cast
    rw [show (10000 : ℚ) ≤ covered / total * 10000 + 1 / 2 ↔ (19999 : ℚ) / 20000 ≤ covered / total
      by constructor <;> intro h <;> linarith, div_le_div_iff₀ (by norm_num) positive]
    have cast : (19999 : ℚ) * total ≤ covered * 20000 ↔ 19999 * total ≤ covered * 20000 := by
      norm_cast
    rw [cast]
    omega

/-- Whether some two evaluations show that a condition alone decides the outcome. -/
def DecisionCoverage.witnessed (coverage : DecisionCoverage) (condition : Nat) : Bool :=
  !decide (coverage.vectors.Pairwise fun first second =>
    isIndependencePair first second condition = false)

theorem DecisionCoverage.witnessed_iff (coverage : DecisionCoverage) (condition : Nat) :
    coverage.witnessed condition = true ↔ ∃ i j, PairAt coverage.vectors condition i j := by
  rw [witnessed, Bool.not_eq_true', decide_eq_false_iff_not, List.pairwise_iff_getElem]
  push Not
  constructor
  · rintro ⟨i, j, hi, hj, less, pair⟩
    exact ⟨i, j, less, _, _, List.getElem?_eq_getElem hi, List.getElem?_eq_getElem hj,
      by simpa using pair⟩
  · rintro ⟨i, j, less, first, second, found, found', pair⟩
    obtain ⟨hi, rfl⟩ := List.getElem?_eq_some_iff.mp found
    obtain ⟨hj, rfl⟩ := List.getElem?_eq_some_iff.mp found'
    exact ⟨i, j, hi, hj, less, by simpa using pair⟩

/-- Obligations of one kind: how many are not met, and how many there are. -/
structure Measure where
  missing : Nat
  total : Nat

namespace CoverageCoreInput

def alternatives (input : CoverageCoreInput) : List Bool :=
  input.branches.flatMap (·.alternatives)

def pointsOf (input : CoverageCoreInput) (kind : PointKind) : List PointCoverage :=
  input.points.filter (·.kind = kind)

def conditionTotal (input : CoverageCoreInput) : Nat :=
  (input.decisions.map (·.conditionCount)).sum

def valuesMissing (input : CoverageCoreInput) : Nat :=
  (input.decisions.map fun coverage =>
    ((List.range coverage.conditionCount).map fun c => 2 - coverage.valuesCovered c).sum).sum

def witnessesMissing (input : CoverageCoreInput) : Nat :=
  (input.decisions.map fun coverage =>
    ((List.range coverage.conditionCount).filter fun c => !coverage.witnessed c).length).sum

/-- The six measures completeness is judged by. -/
def measures (input : CoverageCoreInput) : List Measure :=
  [⟨(input.lines.filter (!·)).length, input.lines.length⟩,
    ⟨((input.pointsOf .statement).filter (!·.covered)).length, (input.pointsOf .statement).length⟩,
    ⟨((input.pointsOf .function).filter (!·.covered)).length, (input.pointsOf .function).length⟩,
    ⟨(input.alternatives.filter (!·)).length, input.alternatives.length⟩,
    ⟨input.valuesMissing, input.conditionTotal * 2⟩,
    ⟨input.witnessesMissing, input.conditionTotal⟩]

structure Complete (input : CoverageCoreInput) : Prop where
  lines : ∀ line ∈ input.lines, line = true
  points : ∀ point ∈ input.points, point.covered = true
  alternatives : ∀ branch ∈ input.branches, ∀ covered ∈ branch.alternatives, covered = true
  values : ∀ coverage ∈ input.decisions, ∀ condition < coverage.conditionCount, ∀ value,
    ∃ vector ∈ coverage.vectors, vector.value condition = some value
  witnesses : ∀ coverage ∈ input.decisions, ∀ condition < coverage.conditionCount,
    ∃ i j, PairAt coverage.vectors condition i j

/-- No measure is short by so little that its percentage rounds to a hundred. -/
def Resolved (input : CoverageCoreInput) : Prop :=
  (∀ measure ∈ input.measures, measure.missing = 0) ∨
    ∃ measure ∈ input.measures, measure.total < 20000 * measure.missing

end CoverageCoreInput

/-- What the flag promises: it is set exactly for a complete input, and then
every covered count is its total. -/
def CompleteFlagExact (input : CoverageCoreInput) (summary : CoverageSummary) : Prop :=
  (summary.coverageComplete = true ↔ input.Complete) ∧
  (summary.coverageComplete = true →
    (∀ count ∈ [summary.lines, summary.statements, summary.functions, summary.branches,
        summary.decisionOutcomes, summary.conditionOutcomes, summary.valueSelections],
      count.covered = count.total) ∧
    summary.coveredConditions = summary.conditions ∧
    summary.coveredDecisions = summary.decisions)

def RowsOf (decisions : List DecisionCoverage) (rows : List (List (Option WitnessIndexes))) :
    Prop :=
  List.Forall₂ (fun coverage row => coverage.conditionCount ≠ 0 ∧
    findWitnessesForConditions coverage.vectors coverage.conditionCount = .ok row) decisions rows

theorem rowsOf_mapM {decisions : List DecisionCoverage} {start : Nat}
    {rows : List (List (Option WitnessIndexes))}
    (found : (decisions.zipIdx start).mapM decisionWitnesses = .ok rows) :
    RowsOf decisions rows := by
  induction decisions generalizing start rows with
  | nil =>
    simp only [List.zipIdx_nil, List.mapM_nil] at found
    cases found
    exact .nil
  | cons coverage decisions ih =>
    rw [List.zipIdx_cons, List.mapM_cons] at found
    cases row : decisionWitnesses (coverage, start) with
    | error error => simp [row, bind, Except.bind] at found
    | ok head =>
      cases rest : (decisions.zipIdx (start + 1)).mapM decisionWitnesses with
      | error error => simp [row, rest, bind, Except.bind] at found
      | ok tail =>
        simp only [row, rest, bind, Except.bind, pure, Except.pure, Except.ok.injEq] at found
        subst found
        by_cases empty : coverage.conditionCount = 0
        · simp [decisionWitnesses, empty] at row
        · exact .cons ⟨empty, by simpa [decisionWitnesses, empty] using row⟩ (ih rest)

theorem RowsOf.row_of_mem {decisions : List DecisionCoverage}
    {rows : List (List (Option WitnessIndexes))} (rowsOf : RowsOf decisions rows)
    {coverage : DecisionCoverage} (member : coverage ∈ decisions) :
    ∃ row, coverage.conditionCount ≠ 0 ∧
      findWitnessesForConditions coverage.vectors coverage.conditionCount = .ok row := by
  induction rowsOf with
  | nil => simp at member
  | @cons head row _ _ holds _ ih =>
    rcases List.mem_cons.mp member with rfl | rest
    · exact ⟨row, holds⟩
    · exact ih rest

theorem RowsOf.decision_of_mem {decisions : List DecisionCoverage}
    {rows : List (List (Option WitnessIndexes))} (rowsOf : RowsOf decisions rows)
    {row : List (Option WitnessIndexes)} (member : row ∈ rows) :
    ∃ coverage ∈ decisions,
      findWitnessesForConditions coverage.vectors coverage.conditionCount = .ok row := by
  induction rowsOf with
  | nil => simp at member
  | @cons head row' _ _ holds _ ih =>
    rcases List.mem_cons.mp member with rfl | rest
    · exact ⟨head, by simp, holds.2⟩
    · obtain ⟨coverage, inside, found⟩ := ih rest
      exact ⟨coverage, List.mem_cons_of_mem _ inside, found⟩

theorem row_isSome {coverage : DecisionCoverage} {row : List (Option WitnessIndexes)}
    (found : findWitnessesForConditions coverage.vectors coverage.conditionCount = .ok row) :
    row.map Option.isSome = (List.range coverage.conditionCount).map coverage.witnessed := by
  obtain ⟨uniform, rfl⟩ := uniform_of_findWitnessesForConditions found
  rw [List.map_map]
  refine List.map_congr_left fun condition member => ?_
  have inside := List.mem_range.mp member
  rw [Function.comp_apply, Bool.eq_iff_iff, coverage.witnessed_iff, ← Option.ne_none_iff_isSome,
    ne_eq, witnessFor_eq_none_iff uniform inside]
  push Not
  rfl

theorem row_length {coverage : DecisionCoverage} {row : List (Option WitnessIndexes)}
    (found : findWitnessesForConditions coverage.vectors coverage.conditionCount = .ok row) :
    row.length = coverage.conditionCount := by
  simpa using congrArg List.length (row_isSome found)

theorem RowsOf.conditions {decisions : List DecisionCoverage}
    {rows : List (List (Option WitnessIndexes))} (rowsOf : RowsOf decisions rows) :
    (rows.map List.length).sum = (decisions.map (·.conditionCount)).sum := by
  induction rowsOf with
  | nil => rfl
  | cons head _ ih => simp [ih, row_length head.2]

theorem length_filter_add_length_filter_not {α : Type*} (p : α → Bool) (xs : List α) :
    (xs.filter p).length + (xs.filter (!p ·)).length = xs.length :=
  (List.length_eq_length_filter_add p).symm

theorem RowsOf.coveredConditions {decisions : List DecisionCoverage}
    {rows : List (List (Option WitnessIndexes))} (rowsOf : RowsOf decisions rows) :
    (rows.flatten.filter Option.isSome).length +
      (decisions.map fun coverage => ((List.range coverage.conditionCount).filter
        fun c => !coverage.witnessed c).length).sum = (decisions.map (·.conditionCount)).sum := by
  induction rowsOf with
  | nil => rfl
  | @cons coverage row _ _ head _ ih =>
    have found : (row.filter Option.isSome).length =
        ((List.range coverage.conditionCount).filter coverage.witnessed).length := by
      have := congrArg (fun bits => (bits.filter id).length) (row_isSome head.2)
      simpa [List.filter_map, Function.comp_def] using this
    have whole := length_filter_add_length_filter_not coverage.witnessed
      (List.range coverage.conditionCount)
    rw [List.length_range] at whole
    simp only [List.flatten_cons, List.filter_append, List.length_append, List.map_cons,
      List.sum_cons, found]
    omega

theorem DecisionCoverage.valuesCovered_le (coverage : DecisionCoverage) (condition : Nat) :
    coverage.valuesCovered condition ≤ 2 := by
  have := Bool.toNat_le (coverage.vectors.any fun v => v.value condition == some false)
  have := Bool.toNat_le (coverage.vectors.any fun v => v.value condition == some true)
  unfold valuesCovered
  omega

theorem conditionOutcomes_add_valuesMissing (input : CoverageCoreInput) :
    (input.decisions.map (·.conditionOutcomesCovered)).sum + input.valuesMissing =
      input.conditionTotal * 2 := by
  unfold CoverageCoreInput.valuesMissing CoverageCoreInput.conditionTotal
  rw [← List.sum_map_add, ← List.sum_map_mul_right]
  congr 1
  refine List.map_congr_left fun coverage _ => ?_
  rw [DecisionCoverage.conditionOutcomesCovered, ← List.sum_map_add]
  have each : (List.range coverage.conditionCount).map
      (fun c => coverage.valuesCovered c + (2 - coverage.valuesCovered c)) =
      (List.range coverage.conditionCount).map fun _ => 2 :=
    List.map_congr_left fun c _ => by
      have := coverage.valuesCovered_le c
      omega
  rw [each]
  simp

section Accepted

variable {input : CoverageCoreInput} {output : CoverageCoreOutput}
  (accepted : analyzeCore input = .ok output)

include accepted

theorem analyzeCore_ok : RowsOf input.decisions output.witnesses ∧
    output.summary = summarize input output.witnesses := by
  unfold analyzeCore at accepted
  cases found : findAllWitnesses input.decisions with
  | error error => simp [found, bind, Except.bind] at accepted
  | ok rows =>
    simp only [found, bind, Except.bind, pure, Except.pure, Except.ok.injEq] at accepted
    subst accepted
    exact ⟨rowsOf_mapM found, rfl⟩

theorem coverageComplete_eq_true_iff :
    output.summary.coverageComplete = true ↔
      ∀ measure ∈ input.measures, 20000 * measure.missing ≤ measure.total := by
  obtain ⟨rowsOf, summary⟩ := analyzeCore_ok accepted
  have lines := length_filter_add_length_filter_not id input.lines
  have statements := length_filter_add_length_filter_not PointCoverage.covered
    (input.pointsOf .statement)
  have functions := length_filter_add_length_filter_not PointCoverage.covered
    (input.pointsOf .function)
  have branches := length_filter_add_length_filter_not id input.alternatives
  have values := conditionOutcomes_add_valuesMissing input
  have witnesses := rowsOf.coveredConditions
  have conditions := rowsOf.conditions
  have at_hundred : ∀ {covered missing total : Nat}, covered + missing = total →
      (percentage covered total = 100 ↔ 20000 * missing ≤ total) := by
    intro covered missing total sum
    rw [percentage_eq_hundred_iff (by omega)]
    omega
  rw [summary]
  simp only [summarize, count, decide_eq_true_eq, conditions]
  simp only [CoverageCoreInput.measures, List.mem_cons, List.not_mem_nil, or_false,
    forall_eq_or_imp, forall_eq]
  simp only [id_eq] at lines branches
  refine and_congr (at_hundred lines) (and_congr (at_hundred statements)
    (and_congr (at_hundred functions) (and_congr (at_hundred branches)
      (and_congr (at_hundred values) (at_hundred witnesses)))))

end Accepted

theorem filter_length_eq_zero {α : Type*} {p : α → Bool} {xs : List α} :
    (xs.filter fun x => !p x).length = 0 ↔ ∀ x ∈ xs, p x = true := by
  simp [List.filter_eq_nil_iff]

theorem sum_map_eq_zero {α : Type*} {f : α → Nat} {xs : List α} :
    (xs.map f).sum = 0 ↔ ∀ x ∈ xs, f x = 0 := by
  induction xs with
  | nil => simp
  | cons x xs ih => simp [ih]

theorem DecisionCoverage.valuesCovered_eq_two_iff (coverage : DecisionCoverage)
    (condition : Nat) :
    2 - coverage.valuesCovered condition = 0 ↔
      ∀ value, ∃ vector ∈ coverage.vectors, vector.value condition = some value := by
  have seen : ∀ value, (∃ vector ∈ coverage.vectors, vector.value condition = some value) ↔
      (coverage.vectors.any fun vector => vector.value condition == some value) = true := by
    simp [List.any_eq_true]
  rw [Bool.forall_bool, seen, seen, valuesCovered]
  cases coverage.vectors.any fun vector => vector.value condition == some false <;>
    cases coverage.vectors.any fun vector => vector.value condition == some true <;> simp

theorem CoverageCoreInput.complete_iff (input : CoverageCoreInput) :
    input.Complete ↔ ∀ measure ∈ input.measures, measure.missing = 0 := by
  simp only [measures, List.mem_cons, List.not_mem_nil, or_false, forall_eq_or_imp, forall_eq]
  rw [filter_length_eq_zero (p := fun line => line),
    filter_length_eq_zero (p := fun alternative => alternative)]
  simp only [valuesMissing, witnessesMissing, sum_map_eq_zero, filter_length_eq_zero,
    List.mem_range, DecisionCoverage.valuesCovered_eq_two_iff, DecisionCoverage.witnessed_iff]
  constructor
  · intro complete
    refine ⟨complete.lines, ?_, ?_, ?_, complete.values, complete.witnesses⟩
    · exact fun point member => complete.points point (List.mem_of_mem_filter member)
    · exact fun point member => complete.points point (List.mem_of_mem_filter member)
    · intro covered member
      obtain ⟨branch, inside, member⟩ := List.mem_flatMap.mp member
      exact complete.alternatives branch inside covered member
  · rintro ⟨lines, statements, functions, alternatives, values, witnesses⟩
    refine ⟨lines, fun point member => ?_, ?_, values, witnesses⟩
    · cases kind : point.kind with
      | statement => exact statements point (List.mem_filter.mpr ⟨member, by simp [kind]⟩)
      | function => exact functions point (List.mem_filter.mpr ⟨member, by simp [kind]⟩)
    · exact fun branch inside covered member =>
        alternatives covered (List.mem_flatMap.mpr ⟨branch, inside, member⟩)

theorem DecisionCoverage.outcomesCovered_of_pair (coverage : DecisionCoverage)
    (uniform : ∀ vector ∈ coverage.vectors, vector.values.length = coverage.conditionCount)
    {condition i j : Nat} (pair : PairAt coverage.vectors condition i j) :
    coverage.outcomesCovered = 2 := by
  obtain ⟨-, first, second, found, found', independent⟩ := pair
  have first_mem := List.mem_of_getElem? found
  have second_mem := List.mem_of_getElem? found'
  rw [isIndependencePair_iff ((uniform first first_mem).trans (uniform second second_mem).symm)]
    at independent
  obtain ⟨-, -, -, outcome, -⟩ := independent
  have both : ∀ value, ∃ vector ∈ coverage.vectors, vector.outcome = value := by
    intro value
    by_cases same : first.outcome = value
    · exact ⟨first, first_mem, same⟩
    · exact ⟨second, second_mem, by rw [outcome]; revert same; cases first.outcome <;> simp⟩
  have seen_false : (coverage.vectors.any fun vector => !vector.outcome) = true := by
    simpa using both false
  have seen_true : (coverage.vectors.any fun vector => vector.outcome) = true := by
    simpa using both true
  simp [outcomesCovered, seen_false, seen_true]

section Accepted

variable {input : CoverageCoreInput} {output : CoverageCoreOutput}
  (accepted : analyzeCore input = .ok output)

include accepted

theorem counts_of_complete (complete : input.Complete) :
    (∀ count ∈ [output.summary.lines, output.summary.statements, output.summary.functions,
        output.summary.branches, output.summary.decisionOutcomes,
        output.summary.conditionOutcomes, output.summary.valueSelections],
      count.covered = count.total) ∧
    output.summary.coveredConditions = output.summary.conditions ∧
    output.summary.coveredDecisions = output.summary.decisions := by
  obtain ⟨rowsOf, summary⟩ := analyzeCore_ok accepted
  have nothing_missing := input.complete_iff.mp complete
  simp only [CoverageCoreInput.measures, List.mem_cons, List.not_mem_nil, or_false,
    forall_eq_or_imp, forall_eq] at nothing_missing
  obtain ⟨-, -, -, -, values, witnesses⟩ := nothing_missing
  have all_values := conditionOutcomes_add_valuesMissing input
  have all_witnesses := rowsOf.coveredConditions
  have conditions := rowsOf.conditions
  rw [values] at all_values
  change _ + input.witnessesMissing = input.conditionTotal at all_witnesses
  rw [witnesses] at all_witnesses
  have full : ∀ {α : Type} (p : α → Bool) (xs : List α), (∀ x ∈ xs, p x = true) →
      (xs.filter p).length = xs.length := fun p xs all => by
    rw [List.filter_eq_self.mpr all]
  rw [summary]
  simp only [summarize, count, List.mem_cons, List.not_mem_nil, or_false, forall_eq_or_imp,
    forall_eq, conditions]
  refine ⟨⟨full _ _ complete.lines, ?_, ?_, full _ _ ?_, ?_, all_values, full _ _ ?_⟩,
    all_witnesses, ?_⟩
  · exact full _ _ fun point member => complete.points point (List.mem_of_mem_filter member)
  · exact full _ _ fun point member => complete.points point (List.mem_of_mem_filter member)
  · intro covered member
    obtain ⟨branch, inside, member⟩ := List.mem_flatMap.mp member
    exact complete.alternatives branch inside covered member
  · rw [List.map_congr_left (g := fun _ => 2)]
    · simp
    · intro coverage member
      obtain ⟨row, nonempty, found⟩ := rowsOf.row_of_mem member
      obtain ⟨uniform, -⟩ := uniform_of_findWitnessesForConditions found
      obtain ⟨i, j, pair⟩ :=
        complete.witnesses coverage member 0 (Nat.pos_of_ne_zero nonempty)
      exact coverage.outcomesCovered_of_pair uniform pair
  · intro covered member
    obtain ⟨branch, inside, member⟩ := List.mem_flatMap.mp member
    exact complete.alternatives branch (List.mem_of_mem_filter inside) covered member
  · rw [full, ← rowsOf.length_eq]
    intro row member
    obtain ⟨coverage, inside, found⟩ := rowsOf.decision_of_mem member
    rw [List.all_eq_true]
    intro witness here
    have := row_isSome found
    have bit : witness.isSome ∈ row.map Option.isSome := List.mem_map_of_mem here
    rw [this] at bit
    obtain ⟨condition, range, same⟩ := List.mem_map.mp bit
    rw [← same, coverage.witnessed_iff]
    exact complete.witnesses coverage inside condition (List.mem_range.mp range)

/-- The flag is exact when and only when no measure is short by less than its
rounding shows. -/
theorem completeFlagExact_iff :
    CompleteFlagExact input output.summary ↔ input.Resolved := by
  unfold CompleteFlagExact CoverageCoreInput.Resolved
  rw [← input.complete_iff]
  constructor
  · rintro ⟨flag, -⟩
    by_cases complete : input.Complete
    · exact .inl complete
    · right
      by_contra hidden
      push Not at hidden
      exact complete (flag.mp ((coverageComplete_eq_true_iff accepted).mpr hidden))
  · rintro (complete | ⟨measure, member, visible⟩)
    · refine ⟨⟨fun _ => complete, fun _ => ?_⟩, fun _ => counts_of_complete accepted complete⟩
      rw [coverageComplete_eq_true_iff accepted]
      intro measure member
      simp [input.complete_iff.mp complete measure member]
    · have unset : output.summary.coverageComplete ≠ true := fun set => by
        have := (coverageComplete_eq_true_iff accepted).mp set measure member
        omega
      refine ⟨⟨fun set => absurd set unset, fun complete => ?_⟩, fun set => absurd set unset⟩
      have := input.complete_iff.mp complete measure member
      omega

end Accepted

/-- One decision of one condition, seen both ways. -/
def oneDecision : CoverageCoreInput where
  decisions := [⟨1, [⟨[some true], true⟩, ⟨[some false], false⟩]⟩]
  points := [⟨.statement, true⟩]
  branches := []
  lines := [true]

theorem analyzeCore_oneDecision : analyzeCore oneDecision =
    .ok ⟨[[some ⟨0, 1⟩]], summarize oneDecision [[some ⟨0, 1⟩]]⟩ := by
  have found : findAllWitnesses oneDecision.decisions = .ok [[some ⟨0, 1⟩]] := by
    decide +kernel
  rw [analyzeCore, found]
  rfl

theorem completeFlagExact_oneDecision :
    ∃ output, analyzeCore oneDecision = .ok output ∧
      (CompleteFlagExact oneDecision output.summary ↔ oneDecision.Resolved) :=
  ⟨_, analyzeCore_oneDecision, completeFlagExact_iff analyzeCore_oneDecision⟩

/-- Of `n + 1` lines, the last is not covered. -/
def almostCovered (n : Nat) : CoverageCoreInput where
  decisions := []
  points := []
  branches := []
  lines := List.replicate n true ++ [false]

theorem measures_almostCovered (n : Nat) :
    (almostCovered n).measures = [⟨1, n + 1⟩, ⟨0, 0⟩, ⟨0, 0⟩, ⟨0, 0⟩, ⟨0, 0⟩, ⟨0, 0⟩] := by
  simp [CoverageCoreInput.measures, CoverageCoreInput.pointsOf, CoverageCoreInput.alternatives,
    CoverageCoreInput.valuesMissing, CoverageCoreInput.conditionTotal,
    CoverageCoreInput.witnessesMissing, almostCovered]

/-- With 20001 lines, all but one covered, the flag is set. -/
theorem almostCovered_complete_flag :
    ¬ ∀ input output, analyzeCore input = .ok output → CompleteFlagExact input output.summary := by
  intro exact
  have accepted : analyzeCore (almostCovered 20000) =
      .ok ⟨[], summarize (almostCovered 20000) []⟩ := rfl
  have flag := (coverageComplete_eq_true_iff accepted).mpr (by simp [measures_almostCovered])
  have nothing_missing := (CoverageCoreInput.complete_iff _).mp ((exact _ _ accepted).1.mp flag)
  simp [measures_almostCovered] at nothing_missing

end Supercov.Analysis
