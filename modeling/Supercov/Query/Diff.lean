import Supercov.Index.Gaps
import Supercov.Query.DecisionQuery
import Mathlib.Algebra.Group.Pi.Lemmas
import Mathlib.Data.Fin.VecNotation
import Mathlib.Data.Fintype.Basic
import Mathlib.Data.List.Sort
import Mathlib.Tactic.FinCases

/-!
# Comparing two runs

What one run covers and the other does not is told by ids and listed by labels, and the counts of
each file take the file from the label.  The percentages are not in the model.
-/

namespace Supercov.Query

open Analysis (findWitnessesForConditions)
open Report
open Index

section Snapshots

structure IndexedLine where
  file : String
  line : Nat
  covered : Bool
  tests : List String

structure DiffIndex where
  decisions : DecisionIndex
  lines : List (CoverageViewId × IndexedLine)

/-- What a label is written of: a place, and what is said of it behind a space. -/
structure DiffItem where
  file : List Char
  line : Nat
  rest : List Char
  spaced : ∀ c ∈ rest.head?, c = ' '

def DiffItem.label (item : DiffItem) : List Char :=
  item.file ++ ':' :: (Text.decimal item.line ++ item.rest)

abbrev DiffItems := List (List Char × DiffItem)

structure DiffSnapshot where
  lines : DiffItems
  branches : DiffItems
  mcdc : DiffItems

def lineItem (line : IndexedLine) : List Char × DiffItem :=
  let item : DiffItem := ⟨line.file.toList, line.line, [], by simp⟩
  (item.label, item)

def branchItem (metadata : IndexedHitMetadata) :
    Outcome CoverageIndexError (List Char × DiffItem) :=
  match metadata.parentId with
  | none => .crashed
  | some parent =>
    .ok (parent.toList ++ ':' :: metadata.id.toList,
      ⟨metadata.file.toList, metadata.line, ' ' :: (metadata.alternative.getD "").toList, by simp⟩)

def conditionItem (decision : DecisionMeta) (condition : ConditionResult) : List Char × DiffItem :=
  let said := 'C' :: (Text.decimal (condition.index + 1) ++ ' ' :: condition.source.toList)
  (decision.id.toList ++ ':' :: 'c' :: Text.decimal condition.index,
    ⟨decision.file.toList, decision.line, ' ' :: said, by simp⟩)

/-- The conditions covered, under a filter by what the picked tests' own vectors show. -/
def coveredConditions (selected : Option (List String)) (decision : DecisionResult) :
    List ConditionResult :=
  match selected with
  | none => decision.conditions.filter (·.covered)
  | some _ =>
    let shown :=
      match findWitnessesForConditions (selectedVectors selected decision)
        decision.conditions.length with
      | .ok witnesses => witnesses.map Option.isSome
      | .error _ => []
    decision.conditions.filter fun condition => shown.getD condition.index false

def diffSnapshot (index : DiffIndex) (view : CoverageViewId) (selected : Option (List String)) :
    Outcome CoverageIndexError DiffSnapshot := do
  let lines := (CoverageIndex.ofView view index.lines).filter fun line =>
    line.covered && includesSelected selected line.tests true
  let outcomes := (index.decisions.index.hitMetadataOf view).filter fun metadata =>
    metadata.obligation = "branch" && !metadata.tests.isEmpty &&
      includesSelected selected metadata.tests true
  let branches ← Outcome.collect branchItem outcomes
  let decisions ← index.decisions.decisionDetails view
  let mcdc := decisions.flatMap fun decision =>
    (coveredConditions selected decision).map (conditionItem decision.decision)
  return ⟨Ordered.mapOf (lines.map lineItem), Ordered.mapOf branches, Ordered.mapOf mcdc⟩

end Snapshots

section Comparing

structure CoverageDiffQueryOptions where
  olderRun : String
  newerRun : String
  view : CoverageViewId
  kind : Option String
  runner : Option String
  offset : Nat
  limit : Nat
  gainedOnly : Bool

structure CoverageDiffSide where
  lineCount : Nat
  branchCount : Nat
  mcdcCount : Nat
  lines : List (List Char)
  branches : List (List Char)
  mcdc : List (List Char)

structure CoverageDiffCounts where
  lines : Nat
  branches : Nat
  mcdc : Nat
  deriving DecidableEq

structure CoverageDiffFile where
  file : List Char
  lost : CoverageDiffCounts
  gained : CoverageDiffCounts

structure CoverageDiffData where
  filters : CoverageQueryFilters
  older : String
  newer : String
  gained : CoverageDiffSide
  lost : CoverageDiffSide
  files : Nat
  byFile : List CoverageDiffFile
  gainedOnly : Bool

def encodeUtf16 (text : List Char) : List Nat :=
  text.flatMap fun c =>
    if c.toNat < 65536 then [c.toNat]
    else [55296 + (c.toNat - 65536) / 1024, 56320 + (c.toNat - 65536) % 1024]

/-- Whether the one is not behind the other in the order of `js_string_cmp`. -/
def jsStringLe (left right : List Char) : Prop := encodeUtf16 left ≤ encodeUtf16 right

instance (left right : List Char) : Decidable (jsStringLe left right) :=
  inferInstanceAs (Decidable (encodeUtf16 left ≤ encodeUtf16 right))

def difference (items others : DiffItems) : DiffItems :=
  (items.filter fun entry => entry.1 ∉ others.map Prod.fst).insertionSort fun left right =>
    jsStringLe left.2.label right.2.label

def DiffSnapshot.difference (snapshot other : DiffSnapshot) : DiffSnapshot where
  lines := Query.difference snapshot.lines other.lines
  branches := Query.difference snapshot.branches other.branches
  mcdc := Query.difference snapshot.mcdc other.mcdc

def picked (index : DiffIndex) (options : CoverageDiffQueryOptions) :
    Option (Option (List String)) :=
  match selectedTestIds (index.decisions.index.testSummariesOf options.view) options.kind
    options.runner with
  | .ok selected => some selected
  | _ => none

/-- What the newer run gained, and what it lost. -/
def compared (older newer : DiffIndex) (options : CoverageDiffQueryOptions) :
    Outcome QueryError (DiffSnapshot × DiffSnapshot) := do
  Outcome.refuseIf (picked older options = none ∧ picked newer options = none)
    (.testFilterEmpty options.kind options.runner)
  let older ← reading (diffSnapshot older options.view ((picked older options).getD (some [])))
  let newer ← reading (diffSnapshot newer options.view ((picked newer options).getD (some [])))
  return (newer.difference older, older.difference newer)

/-- The file of a label: every label starts `file:line`, "and a file's path holds no space". -/
def fileOfLabel (label : List Char) : List Char :=
  let place := label.takeWhile (· ≠ ' ')
  ((rsplitOnce ':' place).map Prod.fst).getD place

/-- The items of both sides, each with the number of its count. -/
def listed (gained lost : DiffSnapshot) : List (DiffItem × Fin 6) :=
  [(lost.lines, 0), (lost.branches, 1), (lost.mcdc, 2), (gained.lines, 3), (gained.branches, 4),
    (gained.mcdc, 5)].flatMap fun side => side.1.map fun entry => (entry.2, side.2)

def CoverageDiffCounts.add (counts : CoverageDiffCounts) : Nat → CoverageDiffCounts
  | 0 => { counts with lines := counts.lines + 1 }
  | 1 => { counts with branches := counts.branches + 1 }
  | _ => { counts with mcdc := counts.mcdc + 1 }

abbrev FileCounts := List (List Char × CoverageDiffCounts × CoverageDiffCounts)

def bump (counts : CoverageDiffCounts × CoverageDiffCounts) (count : Fin 6) :
    CoverageDiffCounts × CoverageDiffCounts :=
  if count.val < 3 then (counts.1.add (count.val % 3), counts.2)
  else (counts.1, counts.2.add (count.val % 3))

def countFile (files : FileCounts) (entry : DiffItem × Fin 6) : FileCounts :=
  let file := fileOfLabel entry.1.label
  Ordered.put file (bump ((Ordered.find file files).getD (⟨0, 0, 0⟩, ⟨0, 0, 0⟩)) entry.2) files

def byFile (gained lost : DiffSnapshot) : FileCounts := (listed gained lost).foldl countFile []

def diffFiles : Nat := 20

def CoverageDiffCounts.total (counts : CoverageDiffCounts) : Nat :=
  counts.lines + counts.branches + counts.mcdc

def fileLe (left right : CoverageDiffFile) : Prop :=
  toLex (right.lost.total, right.gained.total) < toLex (left.lost.total, left.gained.total) ∨
    (right.lost.total, right.gained.total) = (left.lost.total, left.gained.total) ∧
      jsStringLe left.file right.file

instance (left right : CoverageDiffFile) : Decidable (fileLe left right) :=
  inferInstanceAs (Decidable (_ ∨ _))

def pageOf (options : CoverageDiffQueryOptions) (items : DiffItems) : List (List Char) :=
  ((items.map (·.2.label)).drop options.offset).take options.limit

def DiffSnapshot.side (snapshot : DiffSnapshot) (options : CoverageDiffQueryOptions) :
    CoverageDiffSide where
  lineCount := snapshot.lines.length
  branchCount := snapshot.branches.length
  mcdcCount := snapshot.mcdc.length
  lines := pageOf options snapshot.lines
  branches := pageOf options snapshot.branches
  mcdc := pageOf options snapshot.mcdc

/-- The greatest of six lengths. -/
def longest (gained lost : List Nat) : Nat := (gained ++ lost).foldl max 0

def diffData (options : CoverageDiffQueryOptions) (gained lost : DiffSnapshot) :
    CoverageDiffData × AgentPagination :=
  let files := byFile gained lost
  let listing := files.map fun entry => (⟨entry.1, entry.2.1, entry.2.2⟩ : CoverageDiffFile)
  let gained := gained.side options
  let lost := lost.side options
  let total := longest [gained.lineCount, gained.branchCount, gained.mcdcCount]
    [lost.lineCount, lost.branchCount, lost.mcdcCount]
  let returned := longest [gained.lines.length, gained.branches.length, gained.mcdc.length]
    [lost.lines.length, lost.branches.length, lost.mcdc.length]
  ({ filters := ⟨viewName options.view, options.kind, options.runner⟩
     older := options.olderRun
     newer := options.newerRun
     gained
     lost
     files := files.length
     byFile := (listing.insertionSort fileLe).take diffFiles
     gainedOnly := options.gainedOnly },
    pagination options.offset options.limit returned total)

def coverageDiffQuery (older newer : DiffIndex) (options : CoverageDiffQueryOptions) :
    Outcome QueryError (CoverageDiffData × AgentPagination) := do
  Outcome.refuseIf (options.limit = 0) .invalidPagination
  let (gained, lost) ← compared older newer options
  return diffData options gained (if options.gainedOnly then ⟨[], [], []⟩ else lost)

end Comparing

/-! ## What the counts of a file are -/

section Labels

variable (item : DiffItem)

theorem space_not_mem_fileOfLabel (label : List Char) : ' ' ∉ fileOfLabel label := by
  have place : ' ' ∉ label.takeWhile (· ≠ ' ') := by
    intro member
    have shown := List.mem_takeWhile_imp member
    simp at shown
  rw [fileOfLabel]
  cases split : rsplitOnce ':' (label.takeWhile (· ≠ ' ')) with
  | none => exact place
  | some parts =>
    intro member
    apply place
    rw [rsplitOnce, Option.map_eq_some_iff] at split
    obtain ⟨⟨last, before⟩, parts_eq, rfl⟩ := split
    have within : ' ' ∈ before := List.mem_reverse.mp member
    rw [Text.splitOnce] at parts_eq
    split at parts_eq
    · cases parts_eq
      exact List.mem_reverse.mp ((List.dropWhile_sublist _).mem (List.mem_of_mem_tail within))
    · cases parts_eq

theorem rsplitOnce_append {c : Char} {last : List Char} (absent : c ∉ last) (front : List Char) :
    rsplitOnce c (front ++ c :: last) = some (front, last) := by
  have split := Text.splitOnce_append (fun member => absent (List.mem_reverse.mp member))
    front.reverse
  rw [rsplitOnce, List.reverse_append, List.reverse_cons, List.append_assoc, List.singleton_append,
    split]
  simp

theorem fileOfLabel_label (free : ' ' ∉ item.file) : fileOfLabel item.label = item.file := by
  have digits : ∀ c ∈ Text.decimal item.line, c.isDigit = true := fun c member =>
    Text.isDigit_of_mem_decimal member
  have shown : ∀ c ∈ item.file ++ ':' :: Text.decimal item.line, decide (c ≠ ' ') = true := by
    intro c member
    rw [decide_eq_true_eq]
    rintro rfl
    rcases List.mem_append.mp member with inside | inside
    · exact free inside
    · rcases List.mem_cons.mp inside with same | inside
      · cases same
      · cases digits _ inside
  have whole : item.label = (item.file ++ ':' :: Text.decimal item.line) ++ item.rest := by
    simp [DiffItem.label]
  have place : item.label.takeWhile (· ≠ ' ') = item.file ++ ':' :: Text.decimal item.line := by
    rw [whole, List.takeWhile_append_of_pos shown]
    cases rest : item.rest with
    | nil => rw [List.takeWhile_nil, List.append_nil]
    | cons c others =>
      have first := item.spaced c (by simp [rest])
      rw [List.takeWhile_cons_of_neg (by simp [first]), List.append_nil]
  rw [fileOfLabel, place, rsplitOnce_append fun member => by cases digits _ member]
  rfl

end Labels

section Counts

def measure (counts : CoverageDiffCounts × CoverageDiffCounts) : Fin 6 → Nat :=
  ![counts.1.lines, counts.1.branches, counts.1.mcdc, counts.2.lines, counts.2.branches,
    counts.2.mcdc]

theorem measure_bump (counts : CoverageDiffCounts × CoverageDiffCounts) (count : Fin 6) :
    measure (bump counts count) = measure counts + Pi.single count 1 := by
  funext number
  fin_cases count <;> fin_cases number <;> rfl

variable {gained lost : DiffSnapshot}

theorem gains_countFile (files : FileCounts) (entry : DiffItem × Fin 6) :
    Tally.Gains measure files (countFile files entry)
      [(fileOfLabel entry.1.label, Pi.single entry.2 1)] := by
  apply Tally.Gains.put
  rw [measure_bump, Tally.share, ← Ordered.find]
  congr 1
  cases Ordered.find (fileOfLabel entry.1.label) files with
  | none =>
    funext number
    fin_cases number <;> rfl
  | some counts => rfl

theorem gains_byFile : Tally.Gains measure [] (byFile gained lost)
    ((listed gained lost).flatMap fun entry => [(fileOfLabel entry.1.label, Pi.single entry.2 1)]) :=
  Tally.Gains.foldl [] (listed gained lost) fun files entry _ => gains_countFile files entry

def countsIn (fileOf : DiffItem → List Char) (entries : List (DiffItem × Fin 6))
    (file : List Char) : Fin 6 → Nat := fun count =>
  entries.countP fun entry => fileOf entry.1 = file ∧ entry.2 = count

theorem sumAt_entries (file : List Char) (count : Fin 6) (entries : List (DiffItem × Fin 6)) :
    Tally.sumAt file (entries.flatMap fun entry =>
      [(fileOfLabel entry.1.label, (Pi.single entry.2 1 : Fin 6 → Nat))]) count =
        countsIn (fun item => fileOfLabel item.label) entries file count := by
  induction entries with
  | nil => rfl
  | cons entry entries ih =>
    rw [Tally.sumAt, countsIn] at ih
    rw [Tally.sumAt, countsIn, List.flatMap_cons, List.filter_append, List.map_append,
      List.sum_append, List.countP_cons, Pi.add_apply, ih, Nat.add_comm]
    congr 1
    by_cases same : fileOfLabel entry.1.label = file
    · by_cases number : entry.2 = count
      · simp [same, number]
      · simp [same, number]
    · simp [same]

theorem share_byFile (file : List Char) :
    Tally.share measure file (byFile gained lost) =
      countsIn (fun item => fileOfLabel item.label) (listed gained lost) file := by
  funext count
  rw [gains_byFile.share, Pi.add_apply, sumAt_entries]
  exact Nat.zero_add _

theorem share_byFile_iff :
    (∀ file, Tally.share measure file (byFile gained lost) =
        countsIn (·.file) (listed gained lost) file) ↔
      ∀ entry ∈ listed gained lost, ' ' ∉ entry.1.file := by
  constructor
  · intro own entry member space
    have counted := congrFun (own entry.1.file) entry.2
    have some : 0 < countsIn (·.file) (listed gained lost) entry.1.file entry.2 :=
      List.countP_pos_iff.mpr ⟨entry, member, by simp⟩
    rw [share_byFile] at counted
    rw [← counted] at some
    obtain ⟨other, -, told⟩ := List.countP_pos_iff.mp some
    rw [decide_eq_true_eq] at told
    have file_eq : fileOfLabel other.1.label = entry.1.file := told.1
    exact space_not_mem_fileOfLabel other.1.label (file_eq ▸ space)
  · intro free file
    rw [share_byFile]
    funext count
    apply List.countP_congr
    intro entry member
    simp only [fileOfLabel_label entry.1 (free entry member)]

def totals (gained lost : DiffSnapshot) : Fin 6 → Nat :=
  ![lost.lines.length, lost.branches.length, lost.mcdc.length, gained.lines.length,
    gained.branches.length, gained.mcdc.length]

theorem sum_side (count : Fin 6) (items : DiffItems) :
    ((items.map fun entry => (entry.2, count)).map fun entry =>
      (Pi.single entry.2 1 : Fin 6 → Nat)).sum = Pi.single count items.length := by
  rw [List.map_map]
  induction items with
  | nil => exact (Pi.single_zero count).symm
  | cons entry items ih =>
    rw [List.map_cons, List.sum_cons, ih, Function.comp_apply, ← Pi.single_add, List.length_cons,
      Nat.add_comm]

theorem total_byFile : Tally.total measure (byFile gained lost) = totals gained lost := by
  have singles : ((listed gained lost).flatMap fun entry =>
      [(fileOfLabel entry.1.label, (Pi.single entry.2 1 : Fin 6 → Nat))]).map Prod.snd =
        (listed gained lost).map fun entry => Pi.single entry.2 1 := by
    rw [← List.map_eq_flatMap, List.map_map]
    rfl
  rw [gains_byFile.total List.Pairwise.nil, singles, listed]
  simp only [List.flatMap_cons, List.flatMap_nil, List.map_append, List.sum_append, sum_side]
  funext count
  fin_cases count <;> simp [Tally.total, totals]

end Counts

section Exchanged

variable {older newer : DiffIndex} {options : CoverageDiffQueryOptions}

def CoverageDiffQueryOptions.exchanged (options : CoverageDiffQueryOptions) :
    CoverageDiffQueryOptions :=
  { options with olderRun := options.newerRun, newerRun := options.olderRun }

/-- Nothing of one kind is on both sides. -/
def DiffSnapshot.Apart (gained lost : DiffSnapshot) : Prop :=
  (gained.lines.map Prod.fst).Disjoint (lost.lines.map Prod.fst) ∧
    (gained.branches.map Prod.fst).Disjoint (lost.branches.map Prod.fst) ∧
    (gained.mcdc.map Prod.fst).Disjoint (lost.mcdc.map Prod.fst)

theorem disjoint_difference (items others : DiffItems) :
    ((difference items others).map Prod.fst).Disjoint ((difference others items).map Prod.fst) := by
  intro id gained lost
  obtain ⟨entry, member, rfl⟩ := List.mem_map.mp gained
  obtain ⟨other, member', same⟩ := List.mem_map.mp lost
  have new := (List.mem_filter.mp ((List.mem_insertionSort _).mp member)).2
  have old := (List.mem_filter.mp ((List.mem_insertionSort _).mp member')).1
  rw [decide_eq_true_eq] at new
  exact new (same ▸ List.mem_map_of_mem old)

theorem apart_difference (snapshot other : DiffSnapshot) :
    (snapshot.difference other).Apart (other.difference snapshot) :=
  ⟨disjoint_difference _ _, disjoint_difference _ _, disjoint_difference _ _⟩

theorem compared_exchanged {gained lost : DiffSnapshot}
    (shown : compared older newer options = .ok (gained, lost)) :
    compared newer older options.exchanged = .ok (lost, gained) ∧ gained.Apart lost := by
  obtain ⟨_, refuses, shown⟩ := Outcome.bind_eq_ok.mp shown
  obtain ⟨first, first_eq, shown⟩ := Outcome.bind_eq_ok.mp shown
  obtain ⟨second, second_eq, shown⟩ := Outcome.bind_eq_ok.mp shown
  cases shown
  refine ⟨?_, apart_difference second first⟩
  have refuses' := fun both => Outcome.refuseIf_eq_ok.mp refuses (And.symm both)
  exact Outcome.bind_of_eq_ok (Outcome.refuseIf_neg refuses')
    (Outcome.bind_of_eq_ok second_eq (Outcome.bind_of_eq_ok first_eq rfl))

/-- What a comparison lists and counts. -/
structure Compares (older newer : DiffIndex) (options : CoverageDiffQueryOptions)
    (data : CoverageDiffData) (pages : AgentPagination) : Prop where
  exchanged : ∃ data', coverageDiffQuery newer older options.exchanged = .ok (data', pages) ∧
    data'.gained = data.lost ∧ data'.lost = data.gained
  sides : ∃ gained lost, compared older newer options = .ok (gained, lost) ∧
    data.gained = gained.side options ∧ data.lost = lost.side options ∧
    data.files = (byFile gained lost).length ∧ gained.Apart lost ∧
    Tally.total measure (byFile gained lost) = totals gained lost ∧
    ((∀ file, Tally.share measure file (byFile gained lost) =
        countsIn (·.file) (listed gained lost) file) ↔
      ∀ entry ∈ listed gained lost, ' ' ∉ entry.1.file)

theorem longest_exchanged (gained lost : List Nat) : longest lost gained = longest gained lost :=
  List.Perm.foldl_eq List.perm_append_comm 0

theorem diffData_exchanged (gained lost : DiffSnapshot) :
    (diffData options.exchanged lost gained).1.gained = (diffData options gained lost).1.lost ∧
      (diffData options.exchanged lost gained).1.lost = (diffData options gained lost).1.gained ∧
      (diffData options.exchanged lost gained).2 = (diffData options gained lost).2 := by
  refine ⟨rfl, rfl, ?_⟩
  exact congrArg₂ (pagination options.offset options.limit) (longest_exchanged _ _)
    (longest_exchanged _ _)

/-- Of any two runs, and the counts of each file where no path listed holds a space. -/
theorem compares {data : CoverageDiffData} {pages : AgentPagination}
    (both : options.gainedOnly = false)
    (asked : coverageDiffQuery older newer options = .ok (data, pages)) :
    Compares older newer options data pages := by
  obtain ⟨_, refuses, asked⟩ := Outcome.bind_eq_ok.mp asked
  obtain ⟨⟨gained, lost⟩, shown, asked⟩ := Outcome.bind_eq_ok.mp asked
  obtain ⟨shown', apart⟩ := compared_exchanged shown
  have data_eq : diffData options gained lost = (data, pages) := by
    simp only [both] at asked
    exact Outcome.ok.inj asked
  obtain ⟨gained_eq, lost_eq, pages_eq⟩ := @diffData_exchanged options gained lost
  rw [data_eq] at gained_eq lost_eq pages_eq
  have pages_eq : (diffData options.exchanged lost gained).2 = pages := pages_eq
  constructor
  · refine ⟨(diffData options.exchanged lost gained).1, ?_, gained_eq, lost_eq⟩
    rw [← pages_eq]
    refine Outcome.bind_of_eq_ok refuses (Outcome.bind_of_eq_ok shown' ?_)
    have both' : options.exchanged.gainedOnly = false := both
    simp only [both']
    rfl
  · have fields := congrArg Prod.fst data_eq
    dsimp only at fields
    subst fields
    exact ⟨gained, lost, shown, rfl, rfl, rfl, apart, total_byFile, share_byFile_iff⟩

def oneLine (file : String) (covered : Bool) : DiffIndex :=
  ⟨⟨.empty, [], [], []⟩, [(.all, ⟨file, 1, covered, []⟩)]⟩

def firstPage : CoverageDiffQueryOptions := ⟨"older", "newer", .all, none, none, 0, 10, false⟩

theorem compares_line :
    ∃ data pages, Compares (oneLine "a.ts" false) (oneLine "a.ts" true) firstPage data pages :=
  ⟨_, _, compares rfl rfl⟩

/-- A path with a space: its line is counted for the file that the text before the space names. -/
theorem not_counts_of_space : ¬ ∀ older newer options gained lost,
    compared older newer options = .ok (gained, lost) → ∀ file,
      Tally.share measure file (byFile gained lost) =
        countsIn (·.file) (listed gained lost) file := by
  intro claim
  have shown : compared (oneLine "a b.ts" false) (oneLine "a b.ts" true) firstPage =
      .ok (⟨[lineItem ⟨"a b.ts", 1, true, []⟩], [], []⟩, ⟨[], [], []⟩) := rfl
  have free := share_byFile_iff.mp (claim _ _ _ _ _ shown) ((lineItem ⟨"a b.ts", 1, true, []⟩).2, 3)
    (List.mem_singleton_self _)
  exact free (by decide)

end Exchanged

end Supercov.Query
