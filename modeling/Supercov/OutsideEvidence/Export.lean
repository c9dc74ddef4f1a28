import Supercov.OutsideEvidence.Lcov

/-!
# Writing an LCOV tracefile

A run view is written as an LCOV tracefile, a record for each file: its functions, its branches,
its conditions and its lines, each run or not.
-/

namespace Supercov.OutsideEvidence

/-- What an export counts of a file. -/
inductive Metric where
  | lines
  | functions
  | branches
  deriving DecidableEq

structure FunctionRecord where
  line : Nat
  name : Name
  covered : Bool

structure BranchRecord where
  line : Nat
  block : Nat
  index : Nat
  taken : Bool

structure ConditionRecord where
  line : Nat
  column : Nat
  covered : Bool
  source : List Char

/-- A file of a run view, which counts every metric: so many covered of so many. -/
structure FileView where
  file : Name
  metric : Metric → Nat × Nat
  measuredLines : List Nat
  uncoveredLines : List Nat
  functions : List FunctionRecord
  branches : List BranchRecord
  conditions : List ConditionRecord
  measured_sorted : measuredLines.Pairwise (· < ·)
  uncovered_sorted : uncoveredLines.Pairwise (· < ·)
  measured_fit : ∀ line ∈ measuredLines, line < 2 ^ 64
  functions_fit : ∀ function ∈ functions, function.line < 2 ^ 64

structure RunView where
  files : List FileView
  files_sorted : (files.map (·.file)).Pairwise (· < ·)

def FileView.lineHits (file : FileView) : List (Nat × Bool) :=
  file.measuredLines.map fun line => (line, line ∉ file.uncoveredLines)

section Fields

def tagged (tag : String) (fields : List (List Char)) : List Char :=
  tag.toList ++ ':' :: [','].intercalate fields

def flag (covered : Bool) : List Char := Text.decimal covered.toNat

end Fields

section Conditions

/-- The conditions of a line, in groups that a reader can tell apart by their sizes. -/
def lineGroups (line : List ConditionRecord) : List (List ConditionRecord) :=
  let decisions := line.splitBy fun left right => left.column = right.column
  let sizes := (decisions.map List.length).mergeSort
  let apart := (sizes.zip sizes.tail).all fun pair => pair.1 ≠ pair.2
  (if apart then decisions else [line]).mergeSort fun left right => left.length ≤ right.length

def indexed (group : List ConditionRecord) : List (ConditionRecord × Nat × Nat) :=
  group.zipIdx.map fun (condition, index) => (condition, group.length, index)

def written (conditions : List ConditionRecord) : List (ConditionRecord × Nat × Nat) :=
  (conditions.splitBy fun left right => left.line = right.line).flatMap fun line =>
    (lineGroups line).flatMap indexed

def conditionName (condition : ConditionRecord) (index : Nat) : List Char :=
  let named := [' '].intercalate (Text.words condition.source)
  if named = [] then "condition ".toList ++ Text.decimal index else named

/-- The records of a file's conditions, and how many conditions they count found and hit. -/
def mcdcRecords (conditions : List ConditionRecord) : List (List Char) × Nat × Nat :=
  let written := written conditions
  let records := written.flatMap fun (condition, size, index) =>
    ['t', 'f'].map fun sense =>
      tagged "MCDC" [Text.decimal condition.line, Text.decimal size, [sense],
        flag condition.covered, Text.decimal index, conditionName condition index]
  (records, 2 * written.length, 2 * (written.countP fun (condition, _, _) => condition.covered))

end Conditions

section Lines

def functionStart (function : FunctionRecord) : List Char :=
  tagged "FN" [Text.decimal function.line, function.name]

/-- Hit or not hit: invocations are not counted. -/
def functionHit (function : FunctionRecord) : List Char :=
  tagged "FNDA" [flag function.covered, function.name]

def branchData (branch : BranchRecord) : List Char :=
  tagged "BRDA" [Text.decimal branch.line, Text.decimal branch.block, Text.decimal branch.index,
    if branch.taken then ['1'] else ['-']]

def lineData (hit : Nat × Bool) : List Char :=
  tagged "DA" [Text.decimal hit.1, flag hit.2]

def totals (found hit : String) (counts : Nat × Nat) : List (List Char) :=
  [tagged found [Text.decimal counts.2], tagged hit [Text.decimal counts.1]]

def fileLines (file : FileView) : List (List Char) :=
  let (records, conditions, shown) := mcdcRecords file.conditions
  [tagged "TN" [], tagged "SF" [file.file]] ++
    file.functions.map functionStart ++
    file.functions.map functionHit ++
    totals "FNF" "FNH" (file.metric .functions) ++
    file.branches.map branchData ++
    totals "BRF" "BRH" (file.metric .branches) ++
    records ++
    (if 0 < conditions then totals "MCF" "MCH" (shown, conditions) else []) ++
    file.lineHits.map lineData ++
    totals "LF" "LH" (file.metric .lines) ++
    ["end_of_record".toList]

end Lines

/-- Every line ends with a line feed. -/
def lcov (view : RunView) : List Char :=
  (view.files.flatMap fileLines).flatMap (· ++ ['\n'])

end Supercov.OutsideEvidence
