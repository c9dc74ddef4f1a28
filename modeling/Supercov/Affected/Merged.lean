import Supercov.Affected.Executions

/-!
# Affected tests of a merged run

A merged run records nothing of its own: each run it was merged from answers for its tests.
A test of several of them stands where the one that is most concerned puts it.
-/

namespace Supercov.Affected

open Supercov.Units

structure StoredRun where
  id : Text
  parents : Option (List Text)

/-- Where a test is answered: affected outranks undetermined, which outranks unaffected. -/
def Bucket.rank : Bucket → Nat
  | .affected => 0
  | .undetermined => 1
  | .unaffected => 2

def buckets : List Bucket :=
  [.affected, .undetermined, .unaffected]

def TestsReport.bucket (report : TestsReport) : Bucket → List Entry
  | .affected => report.affected
  | .undetermined => report.undetermined
  | .unaffected => report.unaffected

def Entry.withReasons (entry other : Entry) : Entry :=
  { entry with
    reasons := other.reasons.foldl
      (fun reasons reason => if reason ∈ reasons then reasons else reasons ++ [reason]) entry.reasons }

/-- A test as one more run answers for it. -/
def fileTest (bucket : Bucket) (tests : List (Bucket × Entry)) (test : Entry) :
    List (Bucket × Entry) :=
  if tests.any (·.2.test = test.test) then
    tests.map fun (held, entry) =>
      if entry.test = test.test then
        if held.rank < bucket.rank then (held, entry)
        else if held = bucket then (held, entry.withReasons test)
        else (bucket, test)
      else (held, entry)
  else tests ++ [(bucket, test)]

def fileReport (tests : List (Bucket × Entry)) (report : TestsReport) : List (Bucket × Entry) :=
  buckets.foldl (fun tests bucket => (report.bucket bucket).foldl (fileTest bucket) tests) tests

def noteChanged (changed : List ChangedFile) (file : ChangedFile) : List ChangedFile :=
  if changed.any (·.file = file.file) then changed else changed ++ [file]

/-- The answers of the runs a run was merged from, as one. -/
def mergeReports (reports : List TestsReport) : TestsReport :=
  let tests := (reports.foldl fileReport []).insertionSort fun test other =>
    selectorLe test.2.test other.2.test
  let inBucket (bucket : Bucket) := (tests.filter (·.1 = bucket)).map Prod.snd
  { affected := inBucket .affected
    undetermined := inBucket .undetermined
    unaffected := inBucket .unaffected
    changedFiles := ((reports.flatMap (·.changedFiles)).foldl noteChanged []).insertionSort
      fun file other => textLe file.file other.file }

def answerOfParent (answer : StoredRun → Except Text TestsReport) (runs : List StoredRun)
    (run : StoredRun) (parent : Text) : Except Text TestsReport :=
  match runs.find? (·.id = parent) with
  | none => .error (utf8 "Run " ++ run.id ++ utf8 " was merged from " ++ parent ++
      utf8 (", which is no longer stored, and a merge is answered from the runs it was " ++
        "merged from. Ask the others, or measure the suite again"))
  | some stored => answer stored

/-- `tests affected` of a merged run, where each stored run has its answer. -/
def affectedTestsOfMerge (answer : StoredRun → Except Text TestsReport) (runs : List StoredRun)
    (run : StoredRun) : Except Text TestsReport :=
  match run.parents.filter (· ≠ []) with
  | none => .error (utf8 "This merged run does not say which runs it was merged from")
  | some parents => do
    let reports ← parents.mapM (answerOfParent answer runs run)
    return mergeReports reports

section Strongest

variable {tests : List (Bucket × Entry)} {selector : TestSelector}

def TestsReport.Files (report : TestsReport) (bucket : Bucket) (selector : TestSelector) : Prop :=
  ∃ entry ∈ report.bucket bucket, entry.test = selector

/-- Of what was said of a test the tests hold the strongest, and only that. -/
structure Strongest (tests : List (Bucket × Entry)) (given : Bucket → TestSelector → Prop) : Prop where
  said : ∀ test ∈ tests, given test.1 test.2.test
  strongest : ∀ test ∈ tests, ∀ bucket, given bucket test.2.test → test.1.rank ≤ bucket.rank
  held : ∀ bucket selector, given bucket selector → ∃ test ∈ tests, test.2.test = selector

theorem Bucket.rank_injective : Function.Injective Bucket.rank := by
  intro bucket other same
  cases bucket <;> cases other <;> first | rfl | cases same

theorem mem_fileTest {bucket : Bucket} {test : Entry} {result : Bucket × Entry}
    (member : result ∈ fileTest bucket tests test) :
    (result ∈ tests ∧ result.2.test ≠ test.test) ∨
    (result.2.test = test.test ∧ result.1 = bucket ∧ ∀ held ∈ tests, held.2.test ≠ test.test) ∨
    (result.2.test = test.test ∧ ∃ held ∈ tests, held.2.test = test.test ∧
      (result.1 = held.1 ∧ held.1.rank ≤ bucket.rank ∨
        result.1 = bucket ∧ bucket.rank ≤ held.1.rank)) := by
  unfold fileTest at member
  split at member
  · obtain ⟨⟨held, entry⟩, among, rfl⟩ := List.mem_map.mp member
    dsimp only
    split_ifs with own stronger same
    · exact .inr (.inr ⟨own, _, among, own, .inl ⟨rfl, stronger.le⟩⟩)
    · exact .inr (.inr ⟨own, _, among, own, .inl ⟨rfl, same ▸ le_rfl⟩⟩)
    · exact .inr (.inr ⟨rfl, _, among, own, .inr ⟨rfl, not_lt.mp stronger⟩⟩)
    · exact .inl ⟨among, own⟩
  · rename_i absent
    have others : ∀ held ∈ tests, held.2.test ≠ test.test := by
      intro held among same
      exact absent (List.any_eq_true.mpr ⟨held, among, decide_eq_true same⟩)
    rcases List.mem_append.mp member with among | among
    · exact .inl ⟨among, others result among⟩
    · cases List.mem_singleton.mp among
      exact .inr (.inl ⟨rfl, rfl, others⟩)

theorem exists_fileTest (bucket : Bucket) (test : Entry)
    (filed : (∃ held ∈ tests, held.2.test = selector) ∨ selector = test.test) :
    ∃ result ∈ fileTest bucket tests test, result.2.test = selector := by
  unfold fileTest
  split
  · rename_i present
    have old : ∃ held ∈ tests, held.2.test = selector := by
      rcases filed with old | rfl
      · exact old
      · simpa only [List.any_eq_true, decide_eq_true_eq] using present
    obtain ⟨⟨held, entry⟩, among, rfl⟩ := old
    refine ⟨_, List.mem_map_of_mem among, ?_⟩
    dsimp only
    split_ifs with own <;> first | rfl | exact own.symm
  · rcases filed with ⟨held, among, own⟩ | rfl
    · exact ⟨held, List.mem_append_left _ among, own⟩
    · exact ⟨(bucket, test), List.mem_append_right _ (List.mem_singleton_self _), rfl⟩

theorem Strongest.fileTest {given : Bucket → TestSelector → Prop} (strongest : Strongest tests given)
    (bucket : Bucket) (test : Entry) :
    Strongest (fileTest bucket tests test) fun bucket' selector =>
      given bucket' selector ∨ bucket' = bucket ∧ selector = test.test where
  said result member := by
    rcases mem_fileTest member with ⟨among, -⟩ | ⟨own, same, -⟩ | ⟨own, held, among, own', which⟩
    · exact .inl (strongest.said result among)
    · exact .inr ⟨same, own⟩
    · rcases which with ⟨same, -⟩ | ⟨same, -⟩
      · rw [same, own, ← own']
        exact .inl (strongest.said held among)
      · exact .inr ⟨same, own⟩
  strongest result member bucket' said := by
    rcases mem_fileTest member with ⟨among, other⟩ | ⟨own, same, none⟩ | ⟨own, held, among, own', which⟩
    · rcases said with said | ⟨-, own⟩
      · exact strongest.strongest result among bucket' said
      · exact absurd own other
    · rcases said with said | ⟨rfl, -⟩
      · obtain ⟨held, among, own'⟩ := strongest.held bucket' _ said
        exact absurd (own'.trans own) (none held among)
      · rw [same]
    · have least : result.1.rank ≤ held.1.rank ∧ result.1.rank ≤ bucket.rank := by
        rcases which with ⟨same, le⟩ | ⟨same, le⟩
        · exact ⟨same ▸ le_rfl, same ▸ le⟩
        · exact ⟨same ▸ le, same ▸ le_rfl⟩
      rcases said with said | ⟨rfl, -⟩
      · rw [own, ← own'] at said
        exact least.1.trans (strongest.strongest held among bucket' said)
      · exact least.2
  held bucket' selector said := by
    refine exists_fileTest bucket test ?_
    rcases said with said | ⟨-, own⟩
    · exact .inl (strongest.held bucket' selector said)
    · exact .inr own

theorem Strongest.congr {given given' : Bucket → TestSelector → Prop}
    (strongest : Strongest tests given)
    (same : ∀ bucket selector, given bucket selector ↔ given' bucket selector) :
    Strongest tests given' := by
  have same : given = given' := funext₂ fun bucket selector => propext (same bucket selector)
  exact same ▸ strongest

theorem Strongest.fileTests {given : Bucket → TestSelector → Prop} (strongest : Strongest tests given)
    (bucket : Bucket) (entries : List Entry) :
    Strongest (entries.foldl (Affected.fileTest bucket) tests) fun bucket' selector =>
      given bucket' selector ∨ bucket' = bucket ∧ ∃ entry ∈ entries, entry.test = selector := by
  induction entries generalizing tests given with
  | nil => exact strongest.congr fun bucket' selector => by simp
  | cons entry entries ih =>
    refine (ih (strongest.fileTest bucket entry)).congr fun bucket' selector => ?_
    simp only [List.mem_cons, exists_eq_or_imp, eq_comm (a := selector)]
    tauto

theorem Strongest.fileReport {given : Bucket → TestSelector → Prop} (strongest : Strongest tests given)
    (report : TestsReport) :
    Strongest (fileReport tests report) fun bucket selector =>
      given bucket selector ∨ report.Files bucket selector := by
  refine (((strongest.fileTests .affected report.affected).fileTests .undetermined
    report.undetermined).fileTests .unaffected report.unaffected).congr fun bucket selector => ?_
  cases bucket <;> simp [TestsReport.Files, TestsReport.bucket]

theorem Strongest.fileReports {given : Bucket → TestSelector → Prop}
    (strongest : Strongest tests given) (reports : List TestsReport) :
    Strongest (reports.foldl Affected.fileReport tests) fun bucket selector =>
      given bucket selector ∨ ∃ report ∈ reports, report.Files bucket selector := by
  induction reports generalizing tests given with
  | nil => exact strongest.congr fun bucket selector => by simp
  | cons report reports ih =>
    refine (ih (strongest.fileReport report)).congr fun bucket selector => ?_
    simp only [List.mem_cons, exists_eq_or_imp, or_assoc]

theorem strongest_nil : Strongest [] fun _ _ => False where
  said _ member := absurd member List.not_mem_nil
  strongest _ member := absurd member List.not_mem_nil
  held _ _ said := said.elim

theorem files_iff_of_strongest {given : Bucket → TestSelector → Prop}
    (strongest : Strongest tests given) {bucket : Bucket} :
    (∃ test ∈ tests, test.1 = bucket ∧ test.2.test = selector) ↔
      given bucket selector ∧ ∀ other, given other selector → bucket.rank ≤ other.rank := by
  constructor
  · rintro ⟨test, among, rfl, rfl⟩
    exact ⟨strongest.said test among, strongest.strongest test among⟩
  · rintro ⟨said, least⟩
    obtain ⟨test, among, rfl⟩ := strongest.held bucket selector said
    have same : test.1.rank = bucket.rank :=
      le_antisymm (strongest.strongest test among bucket said) (least _ (strongest.said test among))
    exact ⟨test, among, Bucket.rank_injective same, rfl⟩

theorem files_mergeReports {reports : List TestsReport} {bucket : Bucket} :
    (mergeReports reports).Files bucket selector ↔
      (∃ report ∈ reports, report.Files bucket selector) ∧
      ∀ other, (∃ report ∈ reports, report.Files other selector) → bucket.rank ≤ other.rank := by
  have strongest := (strongest_nil.fileReports reports).congr fun _ _ => Iff.of_eq (false_or _)
  rw [← files_iff_of_strongest strongest]
  cases bucket <;>
    simp [mergeReports, TestsReport.Files, TestsReport.bucket, List.mem_insertionSort, and_assoc]

theorem mem_of_mapM_ok {Item Made Error : Type} {make : Item → Except Error Made}
    {items : List Item} {made : List Made} (all : items.mapM make = .ok made) {result : Made} :
    result ∈ made ↔ ∃ item ∈ items, make item = .ok result := by
  induction items generalizing made with
  | nil =>
    cases all
    simp
  | cons item items ih =>
    rw [List.mapM_cons] at all
    cases own : make item with
    | error error => simp [own, bind, Except.bind] at all
    | ok first =>
      cases others : items.mapM make with
      | error error => simp [own, others, bind, Except.bind] at all
      | ok rest =>
        simp only [own, others, bind, Except.bind, pure, Except.pure, Except.ok.injEq] at all
        subst all
        rw [List.mem_cons, ih others]
        simp only [List.mem_cons, exists_eq_or_imp, own, Except.ok.injEq, eq_comm (a := result)]

section Merge

variable (answer : StoredRun → Except Text TestsReport) (runs : List StoredRun) (run : StoredRun)

/-- A run that the merged one was made of files the test there. -/
def FiledByParent (bucket : Bucket) (selector : TestSelector) : Prop :=
  ∃ parents ∈ run.parents, ∃ parent ∈ parents, ∃ stored ∈ runs.find? (·.id = parent),
    ∃ report, answer stored = .ok report ∧ report.Files bucket selector

theorem files_affectedTestsOfMerge {report : TestsReport}
    (merged : affectedTestsOfMerge answer runs run = .ok report) (bucket : Bucket)
    (selector : TestSelector) :
    report.Files bucket selector ↔ FiledByParent answer runs run bucket selector ∧
      ∀ other, FiledByParent answer runs run other selector → bucket.rank ≤ other.rank := by
  unfold affectedTestsOfMerge at merged
  cases named : run.parents.filter (· ≠ []) with
  | none =>
    rw [named] at merged
    cases merged
  | some parents =>
    rw [named] at merged
    dsimp only at merged
    cases asked : parents.mapM (answerOfParent answer runs run) with
    | error error =>
      rw [asked] at merged
      cases merged
    | ok reports =>
      rw [asked] at merged
      cases merged
      have own : run.parents = some parents := (Option.filter_eq_some_iff.mp named).1
      have filed (bucket : Bucket) :
          (∃ report ∈ reports, report.Files bucket selector) ↔
            FiledByParent answer runs run bucket selector := by
        simp only [FiledByParent, own, Option.mem_some_iff, exists_eq_left', mem_of_mapM_ok asked,
          answerOfParent]
        constructor
        · rintro ⟨report, ⟨parent, among, answered⟩, files⟩
          cases found : runs.find? (·.id = parent) with
          | none =>
            rw [found] at answered
            cases answered
          | some stored =>
            rw [found] at answered
            exact ⟨parent, among, stored, found, report, answered, files⟩
        · rintro ⟨parent, among, stored, found, report, answered, files⟩
          refine ⟨report, ⟨parent, among, ?_⟩, files⟩
          rw [found]
          exact answered
      simp only [files_mergeReports, filed]

end Merge

end Strongest

end Supercov.Affected
