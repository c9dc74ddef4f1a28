import Supercov.Index.Tables
import Supercov.Library.JsonText
import Supercov.Library.Tally
import Supercov.Report.Growth
import Mathlib.Algebra.Group.Prod

/-!
# What is missing in each file

The index adds up, for every file, what there is to cover and what the selected tests
leave uncovered.  Over all files that is what the view's summary counts, and under each
file what the file's own summary does.
-/

namespace Supercov.Index

open Analysis (PointKind McdcVector CoverageSummary findWitnessesForConditions)
open Report

/-- Lines, statements, functions, branch outcomes and conditions, in this order. -/
abbrev Dimension := Fin 5

structure MutableFileGap where
  uncoveredLines : Nat
  uncoveredStatements : Nat
  uncoveredFunctions : Nat
  missingBranches : Nat
  missingMcdcConditions : Nat
  measurementLimitations : Nat
  limitationMask : BitVec 32
  coveredByOtherTests : Dimension → Nat
  uncoveredEverywhere : Dimension → Nat
  totals : Dimension → Nat

def MutableFileGap.default : MutableFileGap where
  uncoveredLines := 0
  uncoveredStatements := 0
  uncoveredFunctions := 0
  missingBranches := 0
  missingMcdcConditions := 0
  measurementLimitations := 0
  limitationMask := 0
  coveredByOtherTests := fun _ => 0
  uncoveredEverywhere := fun _ => 0
  totals := fun _ => 0

abbrev FileGaps := List (String × MutableFileGap)

def addTo (dimension : Dimension) (count : Nat) (counts : Dimension → Nat) : Dimension → Nat :=
  Function.update counts dimension (counts dimension + count)

def addTotal (dimension : Dimension) (count : Nat) (gap : MutableFileGap) : MutableFileGap :=
  { gap with totals := addTo dimension count gap.totals }

/-- One more of a dimension that is not covered. -/
def addMissing (dimension : Dimension) (gap : MutableFileGap) : MutableFileGap :=
  match dimension with
  | 0 => { gap with uncoveredLines := gap.uncoveredLines + 1 }
  | 1 => { gap with uncoveredStatements := gap.uncoveredStatements + 1 }
  | 2 => { gap with uncoveredFunctions := gap.uncoveredFunctions + 1 }
  | 3 => { gap with missingBranches := gap.missingBranches + 1 }
  | 4 => { gap with missingMcdcConditions := gap.missingMcdcConditions + 1 }

def gapFor (files : FileGaps) (file : String) : MutableFileGap := (files.lookup file).getD .default

def changeGap (file : String) (change : MutableFileGap → MutableFileGap) (files : FileGaps) :
    FileGaps :=
  Ordered.put file (change (gapFor files file)) files

def lineFile (line : LineResult) : String := (ofLex line.location).1

section Counting

variable (selected : Option (List String))

def includesSelected (tests : List String) (covered : Bool) : Bool :=
  match selected with
  | none => covered
  | some selected => tests.any (· ∈ selected)

def classify (dimension : Dimension) (coveredOverall : Bool) (gap : MutableFileGap) :
    MutableFileGap :=
  if selected.isSome ∧ coveredOverall then
    { gap with coveredByOtherTests := addTo dimension 1 gap.coveredByOtherTests }
  else
    { gap with uncoveredEverywhere := addTo dimension 1 gap.uncoveredEverywhere }

def addLine (line : LineResult) (gap : MutableFileGap) : MutableFileGap :=
  let counted := addTotal 0 line.measured.toNat gap
  if line.measured && !includesSelected selected line.tests line.covered then
    classify selected 0 line.covered (addMissing 0 counted)
  else
    counted

def pointDimension : PointKind → Dimension
  | .statement => 1
  | .function => 2

def addPoint (point : PointResult) (gap : MutableFileGap) : MutableFileGap :=
  let dimension := pointDimension point.point.kind
  let counted := if point.measured then addTotal dimension 1 gap else gap
  if point.measured && !includesSelected selected point.tests point.covered then
    classify selected dimension point.covered (addMissing dimension counted)
  else
    counted

def addAlternative (gap : MutableFileGap) (alternative : AlternativeResult) : MutableFileGap :=
  if !includesSelected selected alternative.tests alternative.covered then
    classify selected 3 alternative.covered (addMissing 3 gap)
  else
    gap

def addBranch (branch : BranchResult) (gap : MutableFileGap) : MutableFileGap :=
  branch.alternatives.foldl (addAlternative selected) (addTotal 3 branch.alternatives.length gap)

def selectedVectors (decision : DecisionResult) : List McdcVector :=
  (decision.vectorObservations.filter fun observation =>
    includesSelected selected observation.tests true).map (·.vector)

def addCondition (decision : DecisionResult) (gap : MutableFileGap)
    (item : Option Analysis.WitnessIndexes × Nat) : Outcome CoverageIndexError MutableFileGap :=
  match item with
  | (some _, _) => .ok gap
  | (none, index) =>
    match decision.conditions[index]? with
    | some condition =>
      .ok (classify selected 4 condition.covered (addMissing 4 gap))
    | none => .crashed

def addDecision (decision : DecisionResult) (gap : MutableFileGap) :
    Outcome CoverageIndexError MutableFileGap :=
  let width := decision.decision.conditions.length
  match findWitnessesForConditions (selectedVectors selected decision) width with
  -- "a view is checked before any record is written"
  | .error _ => .crashed
  | .ok witnesses =>
    witnesses.zipIdx.foldlM (addCondition selected decision) (addTotal 4 width gap)

end Counting

/-- A number that a 64-bit integer holds. -/
def asU64 : JsonValue → Option Nat
  | .number text =>
    match JsonText.readNumber text.toList with
    | some (value, []) => if value < 2 ^ 64 then some value else none
    | _ => none
  | _ => none

structure Limitation where
  id : String
  kind : String
  file : String
  source : String
  reason : String
  line : Nat
  column : Nat

def Limitation.read (limitation : JsonValue) : Option Limitation := do
  let id ← (limitation.get "id").asStr
  let kind ← (limitation.get "kind").asStr
  let file ← (limitation.get "file").asStr
  let source ← (limitation.get "source").asStr
  let reason ← (limitation.get "reason").asStr
  let line ← asU64 (limitation.get "line")
  let column ← asU64 (limitation.get "column")
  return { id, kind, file, source, reason, line, column }

def limitationBit (kind : String) : BitVec 32 :=
  if kind = "dynamic-code" then 1
  else if kind = "semantic-safety" then 2
  else if kind = "source-scope" then 4
  else 8

def addLimitation (files : FileGaps) (limitation : JsonValue) :
    Outcome CoverageIndexError FileGaps :=
  match Limitation.read limitation with
  | none => .crashed
  | some read =>
    .ok (changeGap read.file (fun gap =>
      { gap with
        measurementLimitations := gap.measurementLimitations + 1
        limitationMask := gap.limitationMask ||| limitationBit read.kind }) files)

def fileGaps (view : CoverageView) (selected : Option (List String)) :
    Outcome CoverageIndexError FileGaps := do
  let lined := view.lines.foldl (fun files line =>
    changeGap (lineFile line) (addLine selected line) files) []
  let pointed := view.points.foldl (fun files point =>
    changeGap point.point.file (addPoint selected point) files) lined
  let branched := view.branches.foldl (fun files branch =>
    changeGap branch.branch.file (addBranch selected branch) files) pointed
  let decided ← view.decisions.foldlM (fun files decision => do
    let gap ← addDecision selected decision (gapFor files decision.decision.file)
    return Ordered.put decision.decision.file gap files) branched
  view.limitations.foldlM addLimitation decided

def checkLimitations (view : CoverageView) : Outcome CoverageIndexError PUnit.{1} :=
  Outcome.forEach (fun limitation =>
    Outcome.refuseIf ((Limitation.read limitation).isNone) (.invalidRecord "coverage limitation"))
    view.limitations

/-- A file's counts, by what counts the run's. -/
def coverageSummaryForFile (view : CoverageView) (file : String) :
    Outcome ReportError CoverageSummary :=
  summaryForResults (view.decisions.filter (·.decision.file = file))
    (view.points.filter (·.point.file = file)) (view.branches.filter (·.branch.file = file))
    (view.lines.filter (lineFile · = file)) none

def MutableFileGap.missing (gap : MutableFileGap) : Dimension → Nat
  | 0 => gap.uncoveredLines
  | 1 => gap.uncoveredStatements
  | 2 => gap.uncoveredFunctions
  | 3 => gap.missingBranches
  | 4 => gap.missingMcdcConditions

def MutableFileGap.measure (dimension : Dimension) (gap : MutableFileGap) : Nat × Nat :=
  (gap.totals dimension, gap.missing dimension)

section Shares

variable (selected : Option (List String)) (dimension : Dimension)

def lineShare (line : LineResult) : Nat × Nat :=
  if dimension = 0 then
    (line.measured.toNat, (line.measured && !includesSelected selected line.tests line.covered).toNat)
  else 0

def pointShare (point : PointResult) : Nat × Nat :=
  if point.measured ∧ dimension = pointDimension point.point.kind then
    (1, (!includesSelected selected point.tests point.covered).toNat)
  else 0

def branchShare (branch : BranchResult) : Nat × Nat :=
  if dimension = 3 then
    (branch.alternatives.length,
      (branch.alternatives.filter fun alternative =>
        !includesSelected selected alternative.tests alternative.covered).length)
  else 0

def selectedCoverage (decision : DecisionResult) : Analysis.DecisionCoverage where
  conditionCount := decision.decision.conditions.length
  vectors := selectedVectors selected decision

def decisionShare (decision : DecisionResult) : Nat × Nat :=
  if dimension = 4 then
    (decision.decision.conditions.length,
      ((List.range decision.decision.conditions.length).filter fun condition =>
        !(selectedCoverage selected decision).witnessed condition).length)
  else 0

def only (own : Dimension) (amount : Nat × Nat) : Nat × Nat :=
  if dimension = own then amount else 0

theorem addTotal_measure (own : Dimension) (count : Nat) (gap : MutableFileGap) :
    (addTotal own count gap).measure dimension =
      gap.measure dimension + only dimension own (count, 0) := by
  have totals : (addTotal own count gap).totals dimension =
      gap.totals dimension + if dimension = own then count else 0 := by
    change Function.update gap.totals own (gap.totals own + count) dimension = _
    rw [Function.update_apply]
    split
    · next here => rw [here]
    · rfl
  have missing : (addTotal own count gap).missing dimension = gap.missing dimension := by
    match dimension with
    | 0 | 1 | 2 | 3 | 4 => rfl
  unfold MutableFileGap.measure only
  rw [totals, missing]
  split <;> rfl

theorem addMissing_measure (own : Dimension) (gap : MutableFileGap) :
    (addMissing own gap).measure dimension = gap.measure dimension + only dimension own (0, 1) := by
  match own, dimension with
  | 0, 0 | 0, 1 | 0, 2 | 0, 3 | 0, 4 | 1, 0 | 1, 1 | 1, 2 | 1, 3 | 1, 4 | 2, 0 | 2, 1 | 2, 2 | 2, 3
  | 2, 4 | 3, 0 | 3, 1 | 3, 2 | 3, 3 | 3, 4 | 4, 0 | 4, 1 | 4, 2 | 4, 3 | 4, 4 => rfl

@[simp]
theorem classify_measure (other : Dimension) (covered : Bool) (gap : MutableFileGap) :
    (classify selected other covered gap).measure dimension = gap.measure dimension := by
  unfold classify
  split <;> rfl

theorem only_add (own : Dimension) (amount more : Nat × Nat) :
    only dimension own amount + only dimension own more = only dimension own (amount + more) := by
  unfold only
  split <;> simp

theorem addLine_measure (line : LineResult) (gap : MutableFileGap) :
    (addLine selected line gap).measure dimension =
      gap.measure dimension + lineShare selected dimension line := by
  unfold addLine
  dsimp only
  split
  · next missed =>
    rw [classify_measure, addMissing_measure, addTotal_measure, add_assoc, only_add, lineShare, missed]
    rfl
  · next met =>
    rw [addTotal_measure, lineShare, Bool.eq_false_of_not_eq_true met]
    rfl

theorem addPoint_measure (point : PointResult) (gap : MutableFileGap) :
    (addPoint selected point gap).measure dimension =
      gap.measure dimension + pointShare selected dimension point := by
  unfold addPoint pointShare
  cases point.measured with
  | false => simp
  | true =>
    cases includesSelected selected point.tests point.covered with
    | false =>
      simp only [Bool.not_false, Bool.and_self, if_true, classify_measure, addMissing_measure,
        addTotal_measure, add_assoc, only_add, true_and]
      rfl
    | true =>
      simp only [Bool.not_true, Bool.and_false, Bool.false_eq_true, if_true, if_false,
        addTotal_measure, true_and]
      rfl

theorem addBranch_measure (branch : BranchResult) (gap : MutableFileGap) :
    (addBranch selected branch gap).measure dimension =
      gap.measure dimension + branchShare selected dimension branch := by
  have alternatives (items : List AlternativeResult) (gap : MutableFileGap) :
      (items.foldl (addAlternative selected) gap).measure dimension =
        gap.measure dimension + only dimension 3 (0, (items.filter fun alternative =>
          !includesSelected selected alternative.tests alternative.covered).length) := by
    induction items generalizing gap with
    | nil => simp [only]
    | cons alternative items ih =>
      rw [List.foldl_cons, ih, addAlternative, List.filter_cons]
      split
      · rw [classify_measure, addMissing_measure, add_assoc, only_add, List.length_cons]
        congr 2
        exact Prod.ext rfl (Nat.add_comm 1 _)
      · rfl
  rw [addBranch, alternatives, addTotal_measure, add_assoc, only_add]
  congr 2
  exact Prod.ext rfl (Nat.zero_add _)

theorem addConditions_measure {decision : DecisionResult}
    {witnesses : List (Option Analysis.WitnessIndexes)} (start : Nat)
    (known : start + witnesses.length ≤ decision.conditions.length) (gap : MutableFileGap) :
    ∃ more, (witnesses.zipIdx start).foldlM (addCondition selected decision) gap = .ok more ∧
      more.measure dimension =
        gap.measure dimension + only dimension 4 (0, (witnesses.filter (!·.isSome)).length) := by
  induction witnesses generalizing start gap with
  | nil =>
    refine ⟨gap, rfl, ?_⟩
    unfold only
    split <;> rfl
  | cons witness witnesses ih =>
    rw [List.length_cons] at known
    have later : start + 1 + witnesses.length ≤ decision.conditions.length := by omega
    rw [List.zipIdx_cons, List.foldlM_cons]
    cases witness with
    | some pair => exact ih _ later gap
    | none =>
      have inside : start < decision.conditions.length := by omega
      obtain ⟨more, counted, measured⟩ := ih _ later
        (classify selected 4 decision.conditions[start].covered (addMissing 4 gap))
      refine ⟨more, ?_, ?_⟩
      · simp only [addCondition, List.getElem?_eq_getElem inside, Outcome.ok_bind]
        exact counted
      · rw [measured, classify_measure, addMissing_measure, add_assoc, only_add]
        congr 2
        exact Prod.ext rfl (Nat.add_comm 1 _)

theorem addDecision_measure {decision : DecisionResult} (fits : decision.Fits)
    (known : decision.conditions.length = decision.decision.conditions.length)
    (gap : MutableFileGap) :
    ∃ more, addDecision selected decision gap = .ok more ∧
      more.measure dimension = gap.measure dimension + decisionShare selected dimension decision := by
  have uniform : ∀ vector ∈ selectedVectors selected decision,
      vector.values.length = decision.decision.conditions.length := by
    intro vector member
    obtain ⟨observation, kept, rfl⟩ := List.mem_map.mp member
    exact fits.2 _ (List.mem_map_of_mem (List.mem_filter.mp kept).1)
  obtain ⟨witnesses, found⟩ := Analysis.findWitnessesForConditions_isOk_iff.mpr uniform
  have flags : witnesses.map Option.isSome = (List.range decision.decision.conditions.length).map
      (selectedCoverage selected decision).witnessed :=
    @Analysis.row_isSome (selectedCoverage selected decision) _ found
  have size : witnesses.length = decision.decision.conditions.length := by
    simpa using congrArg List.length flags
  have missing : (witnesses.filter (!·.isSome)).length =
      ((List.range decision.decision.conditions.length).filter fun condition =>
        !(selectedCoverage selected decision).witnessed condition).length := by
    have same := congrArg (fun flags => (flags.filter (!·)).length) flags
    simpa [List.filter_map, Function.comp_def] using same
  obtain ⟨more, counted, measured⟩ := addConditions_measure selected dimension 0
    (show 0 + witnesses.length ≤ decision.conditions.length by omega)
    (addTotal 4 decision.decision.conditions.length gap)
  refine ⟨more, ?_, ?_⟩
  · rw [addDecision, found]
    exact counted
  · rw [measured, missing, addTotal_measure, add_assoc, only_add]
    congr 2
    exact Prod.ext rfl (Nat.zero_add _)

end Shares

section Gains

variable (selected : Option (List String)) (dimension : Dimension)

open Tally (Gains)

theorem default_measure : MutableFileGap.default.measure dimension = 0 := by
  match dimension with
  | 0 | 1 | 2 | 3 | 4 => rfl

theorem gapFor_measure (files : FileGaps) (file : String) :
    (gapFor files file).measure dimension =
      Tally.share (MutableFileGap.measure dimension) file files := by
  unfold gapFor Tally.share
  cases files.lookup file with
  | some gap => rfl
  | none => exact default_measure dimension

theorem changeGap_gains (file : String) {change : MutableFileGap → MutableFileGap}
    {share : Nat × Nat}
    (grown : ∀ gap, (change gap).measure dimension = gap.measure dimension + share)
    (files : FileGaps) :
    Gains (MutableFileGap.measure dimension) files (changeGap file change files) [(file, share)] := by
  apply Gains.put
  rw [grown, gapFor_measure]

def gainsOf (decisions : List DecisionResult) (points : List PointResult)
    (branches : List BranchResult) (lines : List LineResult) : List (String × (Nat × Nat)) :=
  lines.map (fun line => (lineFile line, lineShare selected dimension line)) ++
    points.map (fun point => (point.point.file, pointShare selected dimension point)) ++
    branches.map (fun branch => (branch.branch.file, branchShare selected dimension branch)) ++
    decisions.map fun decision =>
      (decision.decision.file, decisionShare selected dimension decision)

/-- Each decision's vectors are of its width, and each of its conditions has a result. -/
def Judged (view : CoverageView) : Prop :=
  ∀ decision ∈ view.decisions, decision.Fits ∧
    decision.conditions.length = decision.decision.conditions.length

def Readable (view : CoverageView) : Prop :=
  ∀ limitation ∈ view.limitations, (Limitation.read limitation).isSome

theorem addLimitation_gains {limitation : JsonValue} (readable : (Limitation.read limitation).isSome)
    (files : FileGaps) :
    ∃ files', addLimitation files limitation = .ok files' ∧
      Gains (MutableFileGap.measure dimension) files files'
        (((Limitation.read limitation).map fun read => (read.file, 0)).toList) := by
  obtain ⟨read, found⟩ := Option.isSome_iff_exists.mp readable
  rw [addLimitation, found]
  refine ⟨_, rfl, changeGap_gains dimension _ ?_ files⟩
  intro gap
  match dimension with
  | 0 | 1 | 2 | 3 | 4 => rfl

theorem fileGaps_gains {view : CoverageView} (judged : Judged view) (readable : Readable view) :
    ∃ gaps, fileGaps view selected = .ok gaps ∧
      Gains (MutableFileGap.measure dimension) [] gaps
        (gainsOf selected dimension view.decisions view.points view.branches view.lines ++
          view.limitations.flatMap fun limitation =>
            ((Limitation.read limitation).map fun read => (read.file, 0)).toList) := by
  have lined := Gains.foldl [] view.lines fun files line _ =>
    changeGap_gains dimension (lineFile line) (addLine_measure selected dimension line) files
  have pointed := lined.trans <| Gains.foldl _ view.points fun files point _ =>
    changeGap_gains dimension point.point.file (addPoint_measure selected dimension point) files
  have branched := pointed.trans <| Gains.foldl _ view.branches fun files branch _ =>
    changeGap_gains dimension branch.branch.file (addBranch_measure selected dimension branch)
      files
  set branches := view.branches.foldl (fun files branch =>
      changeGap branch.branch.file (addBranch selected branch) files) <|
    view.points.foldl (fun files point =>
      changeGap point.point.file (addPoint selected point) files) <|
    view.lines.foldl (fun files line =>
      changeGap (lineFile line) (addLine selected line) files) []
  obtain ⟨decided, counted, decisions⟩ : ∃ decided,
      view.decisions.foldlM (fun files decision => do
        let gap ← addDecision selected decision (gapFor files decision.decision.file)
        return Ordered.put decision.decision.file gap files) branches = .ok decided ∧
      Gains (MutableFileGap.measure dimension) branches decided
        (view.decisions.flatMap fun decision =>
          [(decision.decision.file, decisionShare selected dimension decision)]) := by
    apply Gains.foldlM
    intro files decision member
    obtain ⟨gap, counted, measured⟩ := addDecision_measure selected dimension
      (judged decision member).1 (judged decision member).2 (gapFor files decision.decision.file)
    refine ⟨_, Outcome.bind_of_eq_ok counted rfl, Gains.put ?_⟩
    rw [measured, gapFor_measure]
  obtain ⟨gaps, limited, limitations⟩ := Gains.foldlM decided view.limitations
    fun files limitation member => addLimitation_gains dimension (readable limitation member) files
  refine ⟨gaps, Outcome.bind_of_eq_ok counted limited, ?_⟩
  have all := (branched.trans decisions).trans limitations
  simpa only [gainsOf, List.map_eq_flatMap] using all

end Gains

section Summaries

variable (selected : Option (List String)) (dimension : Dimension)

def measureOf (summary : CoverageSummary) : Dimension → Nat × Nat
  | 0 => (summary.lines.total, summary.lines.total - summary.lines.covered)
  | 1 => (summary.statements.total, summary.statements.total - summary.statements.covered)
  | 2 => (summary.functions.total, summary.functions.total - summary.functions.covered)
  | 3 => (summary.branches.total, summary.branches.total - summary.branches.covered)
  | 4 => (summary.conditions, summary.conditions - summary.coveredConditions)

theorem sum_pairs {Item : Type} (items : List Item) (first second : Item → Nat) :
    (items.map fun item => (first item, second item)).sum =
      ((items.map first).sum, (items.map second).sum) := by
  induction items with
  | nil => rfl
  | cons item items ih => rw [List.map_cons, List.sum_cons, ih]; rfl

theorem sum_zero {Item : Type} (items : List Item) :
    (items.map fun _ => (0 : Nat × Nat)).sum = 0 :=
  List.sum_eq_zero fun _ member => by
    obtain ⟨_, _, same⟩ := List.mem_map.mp member
    exact same.symm

theorem sum_ite {Item : Type} (items : List Item) (counts missing : Item → Bool) :
    (items.map fun item => if counts item then (1, (missing item).toNat) else (0 : Nat × Nat)).sum =
      ((items.filter counts).length, ((items.filter counts).filter missing).length) := by
  induction items with
  | nil => rfl
  | cons item items ih =>
    rw [List.map_cons, List.sum_cons, ih, List.filter_cons]
    cases counts item with
    | false => exact zero_add _
    | true =>
      rw [if_pos rfl, if_pos rfl, List.filter_cons]
      cases missing item with
      | false => exact Prod.ext (Nat.add_comm 1 _) (Nat.zero_add _)
      | true => exact Prod.ext (Nat.add_comm 1 _) (Nat.add_comm 1 _)

variable {selected} {decisions : List DecisionResult} {points : List PointResult}
  {branches : List BranchResult} {lines : List LineResult}

theorem total_sub_covered {Item : Type} (items : List Item) (covered : Item → Bool) :
    items.length - (items.filter covered).length = (items.filter (!covered ·)).length := by
  have whole := Analysis.length_filter_add_length_filter_not covered items
  omega

theorem lines_measure :
    (lines.map fun line => lineShare selected 0 line).sum =
      (((lines.filter (·.measured)).map fun line =>
          includesSelected selected line.tests line.covered).length,
        (((lines.filter (·.measured)).map fun line =>
          includesSelected selected line.tests line.covered).filter (!·)).length) := by
  have shares : (fun line => lineShare selected 0 line) = fun line : LineResult =>
      if line.measured then (1, (!includesSelected selected line.tests line.covered).toNat)
      else 0 := by
    funext line
    unfold lineShare
    cases line.measured <;> rfl
  rw [shares, sum_ite lines (·.measured), List.filter_map, List.length_map, List.length_map]
  rfl

theorem points_measure (measured : ∀ point ∈ points, point.measured = true) (kind : PointKind) :
    (points.map fun point => pointShare selected (pointDimension kind) point).sum =
      ((points.filter (·.point.kind = kind)).length,
        ((points.filter (·.point.kind = kind)).filter fun point =>
          !includesSelected selected point.tests point.covered).length) := by
  rw [← sum_ite points (fun point => decide (point.point.kind = kind))]
  congr 1
  apply List.map_congr_left
  intro point member
  unfold pointShare
  rw [measured point member]
  cases kind <;> cases point.point.kind <;> simp [pointDimension]

theorem branches_measure :
    (branches.map fun branch => branchShare selected 3 branch).sum =
      ((branches.flatMap fun branch => branch.alternatives.map fun alternative =>
          includesSelected selected alternative.tests alternative.covered).length,
        ((branches.flatMap fun branch => branch.alternatives.map fun alternative =>
          includesSelected selected alternative.tests alternative.covered).filter (!·)).length) := by
  have shares : (fun branch => branchShare selected 3 branch) = fun branch : BranchResult =>
      (branch.alternatives.length, (branch.alternatives.filter fun alternative =>
        !includesSelected selected alternative.tests alternative.covered).length) := rfl
  rw [shares, sum_pairs, List.length_flatMap, List.filter_flatMap, List.length_flatMap]
  simp [List.filter_map, Function.comp_def]

theorem gains_sum (decisions : List DecisionResult) (points : List PointResult)
    (branches : List BranchResult) (lines : List LineResult) :
    ((gainsOf selected dimension decisions points branches lines).map Prod.snd).sum =
      (lines.map fun line => lineShare selected dimension line).sum +
        (points.map fun point => pointShare selected dimension point).sum +
        (branches.map fun branch => branchShare selected dimension branch).sum +
        (decisions.map fun decision => decisionShare selected dimension decision).sum := by
  simp only [gainsOf, List.map_append, List.map_map, List.sum_append]
  rfl

theorem sum_eq_zero_of {Item : Type} {items : List Item} {share : Item → Nat × Nat}
    (zero : ∀ item, share item = 0) : (items.map share).sum = 0 := by
  rw [funext zero, sum_zero]

theorem lines_apart (apart : dimension ≠ 0) :
    (lines.map fun line => lineShare selected dimension line).sum = 0 :=
  sum_eq_zero_of fun _ => if_neg apart

theorem points_apart (apart : ∀ kind, dimension ≠ pointDimension kind) :
    (points.map fun point => pointShare selected dimension point).sum = 0 :=
  sum_eq_zero_of fun _ => if_neg fun both => apart _ both.2

theorem branches_apart (apart : dimension ≠ 3) :
    (branches.map fun branch => branchShare selected dimension branch).sum = 0 :=
  sum_eq_zero_of fun _ => if_neg apart

theorem decisions_apart (apart : dimension ≠ 4) :
    (decisions.map fun decision => decisionShare selected dimension decision).sum = 0 :=
  sum_eq_zero_of fun _ => if_neg apart

theorem points_counted (kind : PointKind) :
    let input := coreInput decisions points branches lines selected
    ((input.points.filter (·.kind = kind)).length,
      (input.points.filter (·.kind = kind)).length -
        ((input.points.filter (·.kind = kind)).filter (·.covered)).length) =
    ((points.filter (·.point.kind = kind)).length,
      ((points.filter (·.point.kind = kind)).filter fun point =>
        !includesSelected selected point.tests point.covered).length) := by
  dsimp only
  rw [total_sub_covered]
  simp only [coreInput, List.filter_map, List.length_map]
  rfl

theorem decisions_measure {rows : List (List (Option Analysis.WitnessIndexes))}
    (found : Analysis.RowsOf (coreInput decisions points branches lines selected).decisions rows) :
    (decisions.map fun decision => decisionShare selected 4 decision).sum =
      ((rows.map List.length).sum,
        (rows.map List.length).sum - (rows.flatten.filter Option.isSome).length) := by
  have shares : (fun decision => decisionShare selected 4 decision) = fun decision : DecisionResult =>
      (decision.decision.conditions.length,
        ((List.range decision.decision.conditions.length).filter fun condition =>
          !(selectedCoverage selected decision).witnessed condition).length) := rfl
  have total : (rows.map List.length).sum =
      (decisions.map fun decision => decision.decision.conditions.length).sum := by
    rw [found.conditions, coreInput, List.map_map]
    rfl
  have covered := found.coveredConditions
  rw [coreInput, List.map_map, List.map_map] at covered
  rw [shares, sum_pairs, total]
  exact congrArg (Prod.mk _) (Nat.eq_sub_of_add_eq' covered)

theorem gains_summary {summary : CoverageSummary}
    (summarized : summaryForResults decisions points branches lines selected = .ok summary)
    (measured : ∀ point ∈ points, point.measured = true) :
    ((gainsOf selected dimension decisions points branches lines).map Prod.snd).sum =
      measureOf summary dimension := by
  unfold summaryForResults at summarized
  split at summarized
  case h_2 => cases summarized
  case h_1 output accepted =>
  cases summarized
  obtain ⟨rows, same⟩ := Analysis.analyzeCore_ok accepted
  rw [same, gains_sum]
  match dimension with
  | 0 =>
    rw [lines_measure, points_apart 0 (by intro kind; cases kind <;> decide),
      branches_apart 0 (by decide), decisions_apart 0 (by decide), add_zero, add_zero, add_zero,
      ← total_sub_covered]
    rfl
  | 1 =>
    have statements : (points.map fun point => pointShare selected 1 point).sum = _ :=
      points_measure measured .statement
    rw [lines_apart 1 (by decide), statements, branches_apart 1 (by decide),
      decisions_apart 1 (by decide), zero_add, add_zero, add_zero,
      ← @points_counted _ decisions _ branches lines]
    rfl
  | 2 =>
    have functions : (points.map fun point => pointShare selected 2 point).sum = _ :=
      points_measure measured .function
    rw [lines_apart 2 (by decide), functions, branches_apart 2 (by decide),
      decisions_apart 2 (by decide), zero_add, add_zero, add_zero,
      ← @points_counted _ decisions _ branches lines]
    rfl
  | 3 =>
    rw [lines_apart 3 (by decide), points_apart 3 (by intro kind; cases kind <;> decide),
      branches_measure, decisions_apart 3 (by decide), zero_add, zero_add, add_zero,
      ← total_sub_covered]
    have alternatives : (coreInput decisions points branches lines selected).branches.flatMap
        (·.alternatives) = branches.flatMap fun branch => branch.alternatives.map fun alternative =>
          includesSelected selected alternative.tests alternative.covered := by
      rw [coreInput, List.flatMap_map]
      rfl
    rw [← alternatives]
    rfl
  | 4 =>
    rw [lines_apart 4 (by decide), points_apart 4 (by intro kind; cases kind <;> decide),
      branches_apart 4 (by decide), decisions_measure rows, zero_add, zero_add, zero_add]
    rfl

end Summaries

end Supercov.Index
