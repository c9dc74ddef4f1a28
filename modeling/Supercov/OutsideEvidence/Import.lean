import Supercov.OutsideEvidence.Events

/-!
# Importing lines

What a tracefile records is put together by the files of the project its paths name, and the
run's points on the lines that ran are credited.

Counts that are added up by project file come to their sums where these fit, and are a panic
where one does not.
-/

namespace Supercov.OutsideEvidence

open Ordered (put find)

inductive PointKind where
  | statement
  | function
  deriving DecidableEq

structure PointMeta where
  id : List Char
  kind : PointKind
  file : Name
  line : Nat
  column : Nat
  source : List Char
  label : Option (List Char)
  deriving DecidableEq

/-- The project and the run that lines are imported into. -/
structure Project where
  /-- `project_path`: the file that a recorded path names, or why it names none. -/
  path : Name → Except (List Char) Name
  /-- The points of the run's manifest. -/
  points : List PointMeta
  /-- The files of its branches and decisions. -/
  branching : List Name
  /-- The status and the reason that the run's scope has for a file. -/
  scopeStatus : Name → Option (List Char × List Char)
  /-- The text of a file, where it is one. -/
  read : Name → Option (List Char)

def Project.measured (project : Project) : List Name :=
  Ordered.setOf (project.points.map (·.file) ++ project.branching)

inductive ImportError where
  | lcov (error : LcovError)
  /-- The evidence records a line that the file has not. -/
  | otherSource (line : Nat) (file : Name) (length : Nat)
  | nothingMeasured (skipped : List (Name × List Char))
  | nothingOfProject (skipped : List (Name × List Char))
  deriving DecidableEq

structure Merged where
  byFile : RecordedFiles
  skipped : List (Name × List Char)

def addCounts (held more : Counts) : Outcome ImportError Counts :=
  more.foldlM (fun held entry => do
    let sum ← Checked.add 64 (Counters.count entry.1 held) entry.2
    return put entry.1 sum held) held

def mergeFile (project : Project) (merged : Merged) (recorded : Name × RecordedFile) :
    Outcome ImportError Merged :=
  match project.path recorded.1 with
  | .ok file => do
    let held := (find file merged.byFile).getD { lines := [], functions := [] }
    let lines ← addCounts held.lines recorded.2.lines
    let functions ← addCounts held.functions recorded.2.functions
    return { merged with byFile := put file { lines, functions } merged.byFile }
  | .error reason => .ok { merged with skipped := merged.skipped ++ [(recorded.1, reason)] }

def merge (project : Project) (recorded : RecordedFiles) : Outcome ImportError Merged :=
  recorded.foldlM (mergeFile project) { byFile := [], skipped := [] }

def ranLines (counts : Counts) : List Nat := (counts.filter (0 < ·.2)).map Prod.fst

structure Credited where
  points : List PointMeta
  hits : List (List Char)
  linesRun : Nat
  added : List Name
  skipped : List (Name × List Char)

def credits (record : RecordedFile) (point : PointMeta) : Bool :=
  match point.kind with
  | .statement => point.line ∈ ranLines record.lines
  | .function => point.line ∈ ranLines record.functions

def importedId (file : Name) (line : Nat) : List Char :=
  "imported:".toList ++ file ++ ':' :: Text.decimal line

/-- A line of a file that the run did not measure, as one of its statements. -/
def importedPoint (file : Name) (sourceLines : List (List Char)) (line : Nat) : PointMeta where
  id := importedId file line
  kind := .statement
  file
  line
  column := 0
  source := ((sourceLines[line - 1]?).map Text.trim).getD []
  label := none

/-- The last line recorded, where the file is a text with fewer. -/
def pastEnd (text : Option (List Char)) (counts : Counts) : Option (Nat × Nat) := do
  let text ← text
  let last ← counts.getLast?
  let length := (Text.lines text).length
  if length < last.1 then return (last.1, length) else none

/-- The limitation, the scope entry and the source that the manifest gets for a file that it did
not measure are left out: nothing reads them again. -/
def creditFile (project : Project) (credited : Credited) (entry : Name × RecordedFile) :
    Outcome ImportError Credited :=
  let (file, record) := entry
  let status := (project.scopeStatus file).filter fun status =>
    file ∉ project.measured ∧ status.1 ≠ "included".toList
  match status with
  | some (_, reason) =>
    .ok { credited with
      skipped := credited.skipped ++ [(file, "the run leaves it out: ".toList ++ reason)] }
  | none =>
    match pastEnd (project.read file) record.lines with
    | some (line, length) => .refused (.otherSource line file length)
    | none =>
      let ran := ranLines record.lines
      let credited := { credited with linesRun := credited.linesRun + ran.length }
      if file ∈ project.measured then
        let points := credited.points.filter fun point => point.file = file ∧ credits record point
        .ok { credited with hits := credited.hits ++ points.map (·.id) }
      else
        match project.read file with
        | none =>
          .ok { credited with skipped := credited.skipped ++ [(file, "not a text file".toList)] }
        | some text =>
          .ok { credited with
            points := credited.points ++
              (record.lines.map Prod.fst).map (importedPoint file (Text.lines text))
            hits := credited.hits ++ ran.map (importedId file)
            added := credited.added ++ [file] }

def credit (project : Project) (merged : Merged) : Outcome ImportError Credited :=
  merged.byFile.foldlM (creditFile project)
    { points := project.points, hits := [], linesRun := 0, added := [], skipped := merged.skipped }

structure Imported where
  hits : List (List Char)
  linesRun : Nat
  points : List PointMeta
  added : List Name
  skipped : List (Name × List Char)
  deriving DecidableEq

/-- A tracefile that cannot be read is no import. -/
def recordedIn (text : List Char) : Outcome ImportError RecordedFiles :=
  match parseLcov text with
  | .ok files => .ok files
  | .refused error => .refused (.lcov error)
  | .crashed => .crashed

def importLines (project : Project) (text : List Char) : Outcome ImportError Imported := do
  let recorded ← recordedIn text
  let merged ← merge project recorded
  let credited ← credit project merged
  if merged.byFile ≠ [] ∧
      credited.skipped.length = merged.byFile.length + merged.skipped.length then
    .refused (.nothingMeasured credited.skipped)
  else if merged.byFile = [] then .refused (.nothingOfProject credited.skipped)
  else
    .ok
      { hits := Ordered.setOf credited.hits
        linesRun := credited.linesRun
        points := credited.points
        added := credited.added
        skipped := credited.skipped }

open Ordered (put find Sorted)
open Counters (tallied)
open Tally (sumAt)

section Adding

variable {entries more : Counts}

theorem count_tallied (line : Nat) : Counters.count line (tallied id entries) = sumAt line entries :=
  Counters.count_tallied (fun _ _ => rfl) rfl

theorem tallied_add (entry : Nat × Nat) :
    put entry.1 (sumAt entry.1 entries + entry.2) (tallied id entries) = tallied id (entries ++ [entry]) := by
  rw [Counters.tallied_snoc, Counters.note, count_tallied]
  rfl

theorem addCounts_ok (fits : ∀ line, sumAt line (entries ++ more) < 2 ^ 64) :
    addCounts (tallied id entries) more = .ok (tallied id (entries ++ more)) := by
  induction more generalizing entries with
  | nil => rw [List.append_nil]; rfl
  | cons entry more ih =>
    have whole : entries ++ entry :: more = (entries ++ [entry]) ++ more := by simp
    have first : sumAt entry.1 entries + entry.2 < 2 ^ 64 := by
      have all := fits entry.1
      rw [whole, Counters.sumAt_append, Counters.sumAt_append, Counters.sumAt_singleton,
        if_pos rfl] at all
      omega
    rw [whole] at fits ⊢
    rw [addCounts, List.foldlM_cons, count_tallied, Checked.add_eq_ok first, Outcome.ok_bind,
      tallied_add]
    exact ih fits

theorem addCounts_crashed (before : ∀ line, sumAt line entries < 2 ^ 64)
    (past : ¬ ∀ line, sumAt line (entries ++ more) < 2 ^ 64) :
    addCounts (tallied id entries) more = .crashed := by
  induction more generalizing entries with
  | nil =>
    rw [List.append_nil] at past
    exact absurd before past
  | cons entry more ih =>
    have whole : entries ++ entry :: more = (entries ++ [entry]) ++ more := by simp
    rw [whole] at past
    rw [addCounts, List.foldlM_cons, count_tallied]
    by_cases first : sumAt entry.1 entries + entry.2 < 2 ^ 64
    · rw [Checked.add_eq_ok first, Outcome.ok_bind, tallied_add]
      apply ih _ past
      intro line
      rw [Counters.sumAt_append, Counters.sumAt_singleton]
      split
      · next same => rw [same]; exact first
      · exact before line
    · rw [Checked.add, if_neg first]
      rfl

end Adding

section Merging

variable (project : Project)

def Names (path file : Name) : Prop := project.path path = .ok file

instance (path file : Name) : Decidable (Names project path file) :=
  match named : project.path path with
  | .ok other => decidable_of_iff (other = file) (by rw [Names, named, Except.ok.injEq])
  | .error _ => isFalse fun same => by cases named.symm.trans same

def countsOf (part : RecordedFile → Counts) (file : Name) (recorded : RecordedFiles) : Counts :=
  recorded.flatMap fun entry => if Names project entry.1 file then part entry.2 else []

def SumsFit (recorded : RecordedFiles) : Prop :=
  ∀ file line, sumAt line (countsOf project (·.lines) file recorded) < 2 ^ 64 ∧
    sumAt line (countsOf project (·.functions) file recorded) < 2 ^ 64

/-- The files that recorded paths name, with the sums of their counts. -/
structure MergedOf (recorded : RecordedFiles) (merged : Merged) : Prop where
  sorted : Sorted merged.byFile
  found : ∀ file, find file merged.byFile =
    if ∃ entry ∈ recorded, Names project entry.1 file then
      some { lines := tallied id (countsOf project (·.lines) file recorded)
             functions := tallied id (countsOf project (·.functions) file recorded) }
    else none

variable {project} {recorded : RecordedFiles} {entry : Name × RecordedFile} {merged : Merged}

theorem countsOf_append (part : RecordedFile → Counts) (file : Name) (others : RecordedFiles) :
    countsOf project part file (recorded ++ others) =
      countsOf project part file recorded ++ countsOf project part file others :=
  List.flatMap_append

theorem countsOf_none (part : RecordedFile → Counts) (file : Name)
    (none : ¬ ∃ entry ∈ recorded, Names project entry.1 file) :
    countsOf project part file recorded = [] := by
  rw [countsOf, List.flatMap_eq_nil_iff]
  intro entry member
  exact if_neg fun named => none ⟨entry, member, named⟩

theorem countsOf_singleton (part : RecordedFile → Counts) (file : Name) :
    countsOf project part file [entry] = if Names project entry.1 file then part entry.2 else [] := by
  simp [countsOf]

theorem SumsFit.of_append {others : RecordedFiles} (fits : SumsFit project (recorded ++ others)) :
    SumsFit project recorded := by
  intro file line
  have all := fits file line
  rw [countsOf_append, countsOf_append, Counters.sumAt_append, Counters.sumAt_append] at all
  omega

theorem MergedOf.held (holds : MergedOf project recorded merged) (file : Name) :
    (find file merged.byFile).getD { lines := [], functions := [] } =
      { lines := tallied id (countsOf project (·.lines) file recorded)
        functions := tallied id (countsOf project (·.functions) file recorded) } := by
  rw [holds.found]
  split
  · rfl
  · next none =>
    rw [countsOf_none _ _ none, countsOf_none _ _ none]
    rfl

theorem mergeFile_ok (holds : MergedOf project recorded merged)
    (fits : SumsFit project (recorded ++ [entry])) :
    ∃ next, mergeFile project merged entry = .ok next ∧ MergedOf project (recorded ++ [entry]) next := by
  rw [mergeFile]
  cases named : project.path entry.1 with
  | error reason =>
    refine ⟨_, rfl, holds.sorted, ?_⟩
    intro file
    have unnamed : ¬ Names project entry.1 file := by
      intro same
      cases named.symm.trans same
    rw [countsOf_append, countsOf_append, countsOf_singleton, countsOf_singleton, if_neg unnamed,
      if_neg unnamed, List.append_nil, List.append_nil]
    simp only [List.mem_append, List.mem_singleton, or_and_right, exists_or, exists_eq_left, unnamed,
      or_false]
    exact holds.found file
  | ok file =>
    dsimp only
    have here : Names project entry.1 file := named
    have both := fits file
    simp only [countsOf_append, countsOf_singleton, if_pos here] at both
    rw [holds.held, addCounts_ok fun line => (both line).1, Outcome.ok_bind,
      addCounts_ok fun line => (both line).2, Outcome.ok_bind]
    refine ⟨_, rfl, holds.sorted.put _ _, ?_⟩
    intro other
    rw [Ordered.find_put, countsOf_append, countsOf_append, countsOf_singleton, countsOf_singleton]
    simp only [List.mem_append, List.mem_singleton, or_and_right, exists_or, exists_eq_left]
    by_cases same : other = file
    · subst same
      simp only [here, or_true, if_true]
    · have apart : ¬ Names project entry.1 other := by
        rw [Names, named, Except.ok.injEq]
        exact Ne.symm same
      simp only [same, apart, or_false, if_false, List.append_nil]
      exact holds.found other

theorem mergeFile_crashed (holds : MergedOf project recorded merged)
    (before : SumsFit project recorded) (past : ¬ SumsFit project (recorded ++ [entry])) :
    mergeFile project merged entry = .crashed := by
  obtain ⟨file, past⟩ := not_forall.mp past
  have here : Names project entry.1 file := by
    by_contra unnamed
    apply past
    intro line
    rw [countsOf_append, countsOf_append, countsOf_singleton, countsOf_singleton, if_neg unnamed,
      if_neg unnamed, List.append_nil, List.append_nil]
    exact before file line
  simp only [countsOf_append, countsOf_singleton, if_pos here] at past
  have named : project.path entry.1 = .ok file := here
  rw [mergeFile, named]
  dsimp only
  rw [holds.held]
  by_cases lines : ∀ line, sumAt line (countsOf project (·.lines) file recorded ++ entry.2.lines) < 2 ^ 64
  · rw [addCounts_ok lines, Outcome.ok_bind]
    have functions : ¬ ∀ line,
        sumAt line (countsOf project (·.functions) file recorded ++ entry.2.functions) < 2 ^ 64 :=
      fun functions => past fun line => ⟨lines line, functions line⟩
    rw [addCounts_crashed (fun line => (before file line).2) functions]
    rfl
  · rw [addCounts_crashed (fun line => (before file line).1) lines]
    rfl

theorem foldlM_mergeFile {done todo : RecordedFiles} (holds : MergedOf project done merged)
    (before : SumsFit project done) :
    (SumsFit project (done ++ todo) → ∃ last, todo.foldlM (mergeFile project) merged = .ok last ∧
      MergedOf project (done ++ todo) last) ∧
    (¬ SumsFit project (done ++ todo) → todo.foldlM (mergeFile project) merged = .crashed) := by
  induction todo generalizing done merged with
  | nil =>
    rw [List.append_nil]
    exact ⟨fun _ => ⟨merged, rfl, holds⟩, fun past => absurd before past⟩
  | cons entry todo ih =>
    have whole : done ++ entry :: todo = (done ++ [entry]) ++ todo := by simp
    rw [whole, List.foldlM_cons]
    by_cases first : SumsFit project (done ++ [entry])
    · obtain ⟨next, merges, holds'⟩ := mergeFile_ok holds first
      rw [merges]
      exact ih holds' first
    · constructor
      · exact fun fits => absurd fits.of_append first
      · intro _
        rw [mergeFile_crashed holds before first]
        rfl

theorem mergedOf_nil : MergedOf project [] { byFile := [], skipped := [] } :=
  ⟨List.Pairwise.nil, fun _ => rfl⟩

theorem sumsFit_nil : SumsFit project [] := fun _ _ => ⟨Nat.two_pow_pos 64, Nat.two_pow_pos 64⟩

theorem merge_ok (fits : SumsFit project recorded) :
    ∃ merged, merge project recorded = .ok merged ∧ MergedOf project recorded merged :=
  (foldlM_mergeFile mergedOf_nil sumsFit_nil).1 fits

theorem merge_crashed (past : ¬ SumsFit project recorded) : merge project recorded = .crashed :=
  (foldlM_mergeFile mergedOf_nil sumsFit_nil).2 past

end Merging

section Crediting

variable {project : Project} {files done : RecordedFiles} {credited : Credited}

theorem mem_ranLines {counts : Counts} {line : Nat} :
    line ∈ ranLines counts ↔ 0 < sumAt line counts := by
  rw [Counters.sumAt_pos_iff, ranLines]
  simp

/-- What is credited for the files up to now. -/
structure CreditedOf (project : Project) (done : RecordedFiles) (credited : Credited) : Prop where
  points : ∀ point, point.file ∈ project.measured →
    (point ∈ credited.points ↔ point ∈ project.points)
  hits : ∀ id, id ∈ credited.hits ↔
    (∃ entry ∈ done, entry.1 ∈ project.measured ∧
      ∃ point ∈ project.points, point.file = entry.1 ∧ credits entry.2 point ∧ point.id = id) ∨
    ∃ entry ∈ done, entry.1 ∈ credited.added ∧ ∃ line ∈ ranLines entry.2.lines,
      importedId entry.1 line = id
  added : ∀ file ∈ credited.added, file ∉ project.measured ∧ file ∈ done.map Prod.fst

theorem exists_mem_snoc {α : Type} {items : List α} {item : α} {P : α → Prop} :
    (∃ other ∈ items ++ [item], P other) ↔ (∃ other ∈ items, P other) ∨ P item := by
  simp only [List.mem_append, List.mem_singleton, or_and_right, exists_or, exists_eq_left]

theorem CreditedOf.creditFile {entry : Name × RecordedFile} (holds : CreditedOf project done credited)
    (new : entry.1 ∉ done.map Prod.fst) :
    (creditFile project credited entry).Yields (CreditedOf project (done ++ [entry])) := by
  obtain ⟨file, record⟩ := entry
  have absent : file ∉ credited.added := fun member => new (holds.added file member).2
  rw [OutsideEvidence.creditFile]
  dsimp only
  split
  · next reason left =>
    have unmeasured : file ∉ project.measured := by
      have passed := (Option.filter_eq_some_iff.mp left).2
      exact (of_decide_eq_true passed).1
    refine ⟨holds.points, ?_, ?_⟩
    · intro id
      rw [holds.hits]
      simp only [List.mem_append, List.mem_singleton, or_and_right, exists_or, exists_eq_left,
        unmeasured, absent, false_and, or_false]
    · intro other member
      rw [List.map_append]
      exact ⟨(holds.added other member).1, List.mem_append_left _ (holds.added other member).2⟩
  · split
    · trivial
    · by_cases measured : file ∈ project.measured
      · rw [if_pos measured]
        refine ⟨holds.points, ?_, ?_⟩
        · intro id
          dsimp only
          rw [List.mem_append, holds.hits]
          simp only [List.mem_append, List.mem_singleton, or_and_right, exists_or, exists_eq_left,
            measured, absent, true_and, false_and, or_false, List.mem_map, List.mem_filter,
            Bool.decide_and, Bool.decide_eq_true, Bool.and_eq_true, decide_eq_true_eq]
          have same : (∃ point, (point ∈ credited.points ∧ point.file = file ∧
              credits record point = true) ∧ point.id = id) ↔
              ∃ point, point ∈ project.points ∧ point.file = file ∧ credits record point = true ∧
                point.id = id := by
            apply exists_congr
            intro point
            constructor
            · rintro ⟨⟨member, of, credited⟩, named⟩
              exact ⟨(holds.points point (of ▸ measured)).mp member, of, credited, named⟩
            · rintro ⟨member, of, credited, named⟩
              exact ⟨⟨(holds.points point (of ▸ measured)).mpr member, of, credited⟩, named⟩
          rw [same, or_right_comm]
        · intro other member
          rw [List.map_append]
          exact ⟨(holds.added other member).1, List.mem_append_left _ (holds.added other member).2⟩
      · rw [if_neg measured]
        split
        · refine ⟨holds.points, ?_, ?_⟩
          · intro id
            rw [holds.hits]
            simp only [List.mem_append, List.mem_singleton, or_and_right, exists_or, exists_eq_left,
              measured, absent, false_and, or_false]
          · intro other member
            rw [List.map_append]
            exact ⟨(holds.added other member).1, List.mem_append_left _ (holds.added other member).2⟩
        · next text _ =>
          refine ⟨?_, ?_, ?_⟩
          · intro point of
            dsimp only
            rw [List.mem_append, holds.points point of]
            apply or_iff_left
            intro member
            obtain ⟨line, -, rfl⟩ := List.mem_map.mp member
            exact measured of
          · intro id
            dsimp only
            rw [List.mem_append, holds.hits]
            have others : (∃ entry ∈ done, entry.1 ∈ credited.added ++ [file] ∧
                ∃ line ∈ ranLines entry.2.lines, importedId entry.1 line = id) ↔
                ∃ entry ∈ done, entry.1 ∈ credited.added ∧
                  ∃ line ∈ ranLines entry.2.lines, importedId entry.1 line = id := by
              apply exists_congr
              intro entry
              apply and_congr_right
              intro member
              rw [List.mem_append, List.mem_singleton, or_iff_left]
              intro same
              exact new (List.mem_map.mpr ⟨entry, member, same⟩)
            have now : id ∈ (ranLines record.lines).map (importedId file) ↔
                ∃ line ∈ ranLines record.lines, importedId file line = id := List.mem_map
            rw [exists_mem_snoc, exists_mem_snoc, others, now, or_assoc]
            simp only [measured, false_and, or_false, List.mem_append, List.mem_singleton, or_true,
              true_and]
          · intro other member
            rw [List.map_append]
            rcases List.mem_append.mp member with before | now
            · exact ⟨(holds.added other before).1,
                List.mem_append_left _ (holds.added other before).2⟩
            · rw [List.mem_singleton.mp now]
              exact ⟨measured, by simp⟩

theorem CreditedOf.foldlM {todo : RecordedFiles} (holds : CreditedOf project done credited)
    (once : ((done ++ todo).map Prod.fst).Nodup) :
    (todo.foldlM (OutsideEvidence.creditFile project) credited).Yields
      (CreditedOf project (done ++ todo)) := by
  induction todo generalizing done credited with
  | nil =>
    rw [List.append_nil]
    exact holds
  | cons entry todo ih =>
    have whole : done ++ entry :: todo = (done ++ [entry]) ++ todo := by simp
    have new : entry.1 ∉ done.map Prod.fst := by
      rw [List.map_append, List.map_cons] at once
      intro member
      exact (List.nodup_append.mp once).2.2 _ member _ List.mem_cons_self rfl
    rw [whole] at once ⊢
    rw [List.foldlM_cons]
    exact Outcome.Yields.bind (holds.creditFile new) fun _ holds' => ih holds' once

theorem credit_yields {merged : Merged} (sorted : Sorted merged.byFile) :
    (credit project merged).Yields (CreditedOf project merged.byFile) := by
  have once : (merged.byFile.map Prod.fst).Nodup :=
    (List.pairwise_map.mpr sorted).imp fun before => ne_of_lt before
  have start : CreditedOf project []
      { points := project.points, hits := [], linesRun := 0, added := [], skipped := merged.skipped } :=
    ⟨fun _ _ => Iff.rfl, fun id => by simp, fun file member => by cases member⟩
  exact start.foldlM once

end Crediting

end Supercov.OutsideEvidence
