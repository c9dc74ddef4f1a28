import Supercov.Affected.Merged
import Supercov.Affected.Unaffected

/-!
# Tests that did not pass

A test that did not pass has a result to establish.  The record that several tests of one
file and name share has passed where one of them has, so that a test which did not pass is
listed as affected exactly where no other of its name in its file has passed.
-/

namespace Supercov.Affected

open Supercov.Units

section Kept

variable {located : List (Text × File × Nat)}

def Lists (files : List (File × List Nat)) (place : File × Nat) : Prop :=
  ∃ units, (place.1, units) ∈ files ∧ place.2 ∈ units

theorem lists_addUnit {files : List (File × List Nat)} {added place : File × Nat} :
    Lists (addUnit files added) place ↔ Lists files place ∨ place = added := by
  obtain ⟨file, unit⟩ := place
  obtain ⟨file', unit'⟩ := added
  unfold addUnit Lists
  dsimp only
  split
  · rename_i present
    simp only [List.mem_map, Prod.mk.injEq]
    constructor
    · rintro ⟨_, ⟨⟨file, units⟩, among, rfl, rfl⟩, member⟩
      dsimp only at member
      split_ifs at member with same
      · rcases List.mem_append.mp member with member | member
        · exact .inl ⟨units, among, member⟩
        · exact .inr ⟨same, List.mem_singleton.mp member⟩
      · exact .inl ⟨units, among, member⟩
    · rintro (⟨units, among, member⟩ | ⟨rfl, rfl⟩)
      · refine ⟨_, ⟨(file, units), among, rfl, rfl⟩, ?_⟩
        dsimp only
        split_ifs
        · exact List.mem_append_left _ member
        · exact member
      · obtain ⟨⟨file', units⟩, among, same⟩ := List.any_eq_true.mp present
        cases of_decide_eq_true same
        exact ⟨_, ⟨(file', units), among, rfl, rfl⟩, by simp⟩
  · simp only [List.mem_append, List.mem_singleton, Prod.mk.injEq]
    constructor
    · rintro ⟨units, among | ⟨rfl, rfl⟩, member⟩
      · exact .inl ⟨units, among, member⟩
      · exact .inr ⟨rfl, List.mem_singleton.mp member⟩
    · rintro (⟨units, among, member⟩ | ⟨rfl, rfl⟩)
      · exact ⟨units, .inl among, member⟩
      · exact ⟨[unit], .inr ⟨rfl, rfl⟩, List.mem_singleton_self _⟩

theorem keys_addUnit (files : List (File × List Nat)) (added : File × Nat) :
    (addUnit files added).map Prod.fst =
      if files.any (·.1 = added.1) then files.map Prod.fst else files.map Prod.fst ++ [added.1] := by
  unfold addUnit
  split
  · rw [List.map_map]
    rfl
  · rw [List.map_append, List.map_singleton]

theorem nodup_addUnit {files : List (File × List Nat)} (distinct : (files.map Prod.fst).Nodup)
    (added : File × Nat) : ((addUnit files added).map Prod.fst).Nodup := by
  rw [keys_addUnit]
  split
  · exact distinct
  · rename_i absent
    refine distinct.append (List.nodup_singleton _) ?_
    simpa using absent

theorem lists_addUnits {files : List (File × List Nat)} {added : List (File × Nat)}
    {place : File × Nat} :
    Lists (added.foldl addUnit files) place ↔ Lists files place ∨ place ∈ added := by
  induction added generalizing files with
  | nil => simp
  | cons first added ih => rw [List.foldl_cons, ih, lists_addUnit, List.mem_cons, or_assoc]

theorem nodup_addUnits {files : List (File × List Nat)} (distinct : (files.map Prod.fst).Nodup)
    (added : List (File × Nat)) : ((added.foldl addUnit files).map Prod.fst).Nodup := by
  induction added generalizing files with
  | nil => exact distinct
  | cons first added ih => exact ih (nodup_addUnit distinct first)

theorem lists_inOrder {files : List (File × List Nat)} {place : File × Nat} :
    Lists (inOrder files) place ↔ Lists files place := by
  simp [Lists, inOrder, List.mem_insertionSort, Ordered.mem_setOf]

theorem nodup_inOrder {files : List (File × List Nat)} (distinct : (files.map Prod.fst).Nodup) :
    ((inOrder files).map Prod.fst).Nodup := by
  refine ((List.perm_insertionSort _ _).map _).nodup_iff.mpr ?_
  rwa [List.map_map]

def TestRecord.Is (test : TestRecord) (selector : TestSelector) : Prop :=
  test.file = some selector.file ∧ test.name = selector.name

instance (test : TestRecord) (selector : TestSelector) : Decidable (test.Is selector) :=
  inferInstanceAs (Decidable (_ ∧ _))

/-- A record holds what the tests given to it say together. -/
structure Holds (located : List (Text × File × Nat)) (tests : List TestRecord) (record : Execution) :
    Prop where
  passed : record.passed = true ↔ ∃ test ∈ tests, test.outcome = "passed"
  complete : coverageIsComplete record.attribution = true ↔
    ∀ test ∈ tests, coverageIsComplete test.attribution = true
  lists : ∀ place, Lists record.files place ↔ ∃ test ∈ tests, place ∈ reached located test
  distinct : (record.files.map Prod.fst).Nodup

theorem holds_emptyExecution (selector : TestSelector) :
    Holds located [] (emptyExecution selector) where
  passed := by simp [emptyExecution]
  complete := by simp [emptyExecution, coverageIsComplete]
  lists place := by simp [emptyExecution, Lists]
  distinct := List.nodup_nil

theorem Holds.noteTest {tests : List TestRecord} {record : Execution}
    (holds : Holds located tests record) (test : TestRecord) :
    Holds located (tests ++ [test]) (noteTest located record test) where
  passed := by
    simp [Affected.noteTest, holds.passed, or_and_right, exists_or]
  complete := by
    unfold Affected.noteTest
    simp only [List.forall_mem_append, List.forall_mem_singleton, ← holds.complete]
    cases before : coverageIsComplete record.attribution <;>
      cases now : coverageIsComplete test.attribution <;> simp [before, now]
  lists place := by
    simp [Affected.noteTest, lists_addUnits, holds.lists, or_and_right, exists_or]
  distinct := nodup_addUnits holds.distinct _

/-- The records hold the tests given so far, one for each selector. -/
structure Recorded (located : List (Text × File × Nat)) (tests : List TestRecord)
    (records : List Execution) : Prop where
  holds : ∀ record ∈ records, Holds located (tests.filter (·.Is record.test)) record
  given : ∀ record ∈ records, ∃ test ∈ tests, test.Is record.test
  kept : ∀ test ∈ tests, ∀ selector, test.Is selector → ∃ record ∈ records, record.test = selector
  distinct : (records.map (·.test)).Nodup

@[simp] theorem noteTest_test (record : Execution) (test : TestRecord) :
    (noteTest located record test).test = record.test := rfl

theorem is_iff {test : TestRecord} {file : File} (placed : test.file = some file)
    {selector : TestSelector} : test.Is selector ↔ selector = { file, name := test.name } := by
  obtain ⟨file', name⟩ := selector
  simp only [TestRecord.Is, placed, Option.some.injEq, TestSelector.mk.injEq]
  exact and_congr eq_comm eq_comm

theorem filter_is_append {tests : List TestRecord} {test : TestRecord} {selector : TestSelector}
    (own : test.Is selector) :
    (tests ++ [test]).filter (·.Is selector) = tests.filter (·.Is selector) ++ [test] := by
  rw [List.filter_append, List.filter_singleton, decide_eq_true own, cond_true]

theorem filter_not_is_append {tests : List TestRecord} {test : TestRecord}
    {selector : TestSelector} (other : ¬ test.Is selector) :
    (tests ++ [test]).filter (·.Is selector) = tests.filter (·.Is selector) := by
  rw [List.filter_append, List.filter_singleton, decide_eq_false other, cond_false, List.append_nil]

theorem recordTest_of_present {records : List Execution} {test : TestRecord} {file : File}
    (placed : test.file = some file)
    (present : ∃ record ∈ records, record.test = { file, name := test.name }) :
    recordTest located records test = records.map fun record =>
      if test.Is record.test then noteTest located record test else record := by
  unfold recordTest
  rw [placed]
  dsimp only
  rw [if_pos (by simpa only [List.any_eq_true, decide_eq_true_eq] using present)]
  simp only [is_iff placed]

theorem recordTest_of_absent {records : List Execution} {test : TestRecord} {file : File}
    (placed : test.file = some file)
    (absent : ∀ record ∈ records, record.test ≠ { file, name := test.name }) :
    recordTest located records test =
      records ++ [noteTest located (emptyExecution { file, name := test.name }) test] := by
  unfold recordTest
  rw [placed]
  dsimp only
  rw [if_neg (by simpa only [List.any_eq_true, decide_eq_true_eq, not_exists, not_and] using absent)]

theorem Recorded.recordTest {tests : List TestRecord} {records : List Execution}
    (recorded : Recorded located tests records) (test : TestRecord) :
    Recorded located (tests ++ [test]) (recordTest located records test) := by
  cases placed : test.file with
  | none =>
    have never (selector : TestSelector) : ¬ test.Is selector := fun is => by
      cases placed.symm.trans is.1
    have same : Affected.recordTest located records test = records := by
      unfold Affected.recordTest
      rw [placed]
    rw [same]
    refine ⟨fun record among => ?_, fun record among => ?_, fun test' member selector is => ?_,
      recorded.distinct⟩
    · rw [filter_not_is_append (never record.test)]
      exact recorded.holds record among
    · obtain ⟨test', member, is⟩ := recorded.given record among
      exact ⟨test', List.mem_append_left _ member, is⟩
    · rcases List.mem_append.mp member with member | member
      · exact recorded.kept test' member selector is
      · cases List.mem_singleton.mp member
        exact absurd is (never selector)
  | some file =>
    by_cases present : ∃ record ∈ records, record.test = { file, name := test.name }
    · have tests_map : (Affected.recordTest located records test).map (·.test) =
          records.map (·.test) := by
        rw [recordTest_of_present placed present, List.map_map]
        refine List.map_congr_left fun record _ => ?_
        rw [Function.comp_apply]
        split <;> rfl
      have kept_iff (selector : TestSelector) :
          (∃ record ∈ Affected.recordTest located records test, record.test = selector) ↔
            ∃ record ∈ records, record.test = selector := by
        simpa only [List.mem_map] using iff_of_eq (congrArg (selector ∈ ·) tests_map)
      refine ⟨fun record among => ?_, fun record among => ?_, fun test' member selector is => ?_,
        tests_map ▸ recorded.distinct⟩
      · rw [recordTest_of_present placed present] at among
        obtain ⟨record, old, rfl⟩ := List.mem_map.mp among
        split_ifs with own
        · rw [noteTest_test, filter_is_append own]
          exact (recorded.holds record old).noteTest test
        · rw [filter_not_is_append own]
          exact recorded.holds record old
      · obtain ⟨old, among, same⟩ := (kept_iff record.test).mp ⟨record, among, rfl⟩
        obtain ⟨test', member, is⟩ := recorded.given old among
        exact ⟨test', List.mem_append_left _ member, same ▸ is⟩
      · rw [kept_iff]
        rcases List.mem_append.mp member with member | member
        · exact recorded.kept test' member selector is
        · cases List.mem_singleton.mp member
          exact (is_iff placed).mp is ▸ present
    · push Not at present
      rw [recordTest_of_absent placed present]
      have own : test.Is { file, name := test.name } := ⟨placed, rfl⟩
      have none' : tests.filter (·.Is { file, name := test.name }) = [] := by
        refine List.filter_eq_nil_iff.mpr fun test' member is => ?_
        obtain ⟨record, among, same⟩ := recorded.kept test' member _ (of_decide_eq_true is)
        exact present record among same
      refine ⟨fun record among => ?_, fun record among => ?_, fun test' member selector is => ?_, ?_⟩
      · rcases List.mem_append.mp among with among | among
        · rw [filter_not_is_append (mt (is_iff placed).mp (present record among))]
          exact recorded.holds record among
        · cases List.mem_singleton.mp among
          rw [noteTest_test, show (emptyExecution _).test = { file, name := test.name } from rfl,
            filter_is_append own, none']
          exact (holds_emptyExecution _).noteTest test
      · rcases List.mem_append.mp among with among | among
        · obtain ⟨test', member, is⟩ := recorded.given record among
          exact ⟨test', List.mem_append_left _ member, is⟩
        · cases List.mem_singleton.mp among
          exact ⟨test, List.mem_append_right _ (List.mem_singleton_self _), own⟩
      · rcases List.mem_append.mp member with member | member
        · obtain ⟨record, among, same⟩ := recorded.kept test' member selector is
          exact ⟨record, List.mem_append_left _ among, same⟩
        · cases List.mem_singleton.mp member
          exact ⟨_, List.mem_append_right _ (List.mem_singleton_self _),
            ((is_iff placed).mp is).symm⟩
      · rw [List.map_append, List.map_singleton]
        refine recorded.distinct.append (List.nodup_singleton _) ?_
        simpa [emptyExecution] using present

theorem recorded_foldl (located : List (Text × File × Nat)) (tests : List TestRecord) :
    Recorded located tests (tests.foldl (recordTest located) []) := by
  induction tests using List.reverseRecOn with
  | nil => exact ⟨by simp, by simp, by simp, List.nodup_nil⟩
  | append_singleton tests test ih =>
    rw [List.foldl_append, List.foldl_cons, List.foldl_nil]
    exact ih.recordTest test

end Kept

section Judgement

variable {Digest : Type} [DecidableEq Digest] {alphanumeric : Char → Bool}
  {run : RunRecord Digest} {checkout : Checkout Digest} {record : Execution}

theorem judge_affected {bound : List Text} {byTests : List (File × List Text)}
    {filed : Bucket × Entry} (failed : record.passed = false)
    (judged : judge alphanumeric run checkout bound byTests record = some filed) :
    filed.1 = .affected ∧ filed.2.test = record.test := by
  obtain ⟨ran, asked, judged⟩ := Option.bind_eq_some_iff.mp judged
  have own : ownReasons run checkout record ≠ [] := by
    rw [Ne, ownReasons_eq_nil, failed]
    exact fun quiet => Bool.noConfusion quiet.1
  have reasons (more : List Text) : (ownReasons run checkout record ++ more).isEmpty = false := by
    rw [List.isEmpty_eq_false_iff]
    exact fun empty => own (List.append_eq_nil_iff.mp empty).1
  simp only [List.append_assoc, reasons, Bool.false_eq_true, if_false] at judged
  split at judged <;>
  · cases judged
    exact ⟨rfl, rfl⟩

theorem files_affected {report : TestsReport}
    (answered : affectedTests alphanumeric run checkout = some report)
    (member : record ∈ run.executions.tests) (failed : record.passed = false) :
    report.Files .affected record.test := by
  obtain ⟨all, asked, same⟩ := Option.bind_eq_some_iff.mp answered
  cases same
  obtain ⟨bound, -, asked⟩ := Option.bind_eq_some_iff.mp asked
  obtain ⟨byTests, -, asked⟩ := Option.bind_eq_some_iff.mp asked
  obtain ⟨filed, among, judged⟩ := (exists_of_mapM asked).1 record member
  obtain ⟨bucket, own⟩ := judge_affected failed judged
  refine ⟨filed.2, List.mem_map_of_mem (List.mem_filter.mpr ⟨among, ?_⟩), own⟩
  exact decide_eq_true bucket

end Judgement

section Weakest

variable {Digest : Type} {manifest : InputManifest Digest}
  {sources : Option (List (File × List Char))} {view : View}

theorem recorded_of_executions {kept : Executions}
    (placed : executions manifest sources view = some kept) :
    ∃ located ∈ locate manifest sources view.points, ∃ records,
      Recorded located view.tests records ∧ (kept.tests.map (·.test)).Nodup ∧
      ∀ record, record ∈ kept.tests ↔
        ∃ held ∈ records, record = { held with files := inOrder held.files } := by
  obtain ⟨located, found, same⟩ := Option.bind_eq_some_iff.mp placed
  cases same
  have recorded := recorded_foldl located view.tests
  refine ⟨located, found, _, recorded, ?_, fun record => ?_⟩
  · rw [List.map_map]
    exact ((List.perm_insertionSort _ _).map _).nodup_iff.mpr recorded.distinct
  · simp only [List.mem_map, List.mem_insertionSort, eq_comm]

theorem holds_of_executions {kept : Executions}
    (placed : executions manifest sources view = some kept) {record : Execution}
    (member : record ∈ kept.tests) {located : List (Text × File × Nat)}
    (found : locate manifest sources view.points = some located) :
    Holds located (view.tests.filter (·.Is record.test)) record ∧
      ∃ test ∈ view.tests, test.Is record.test := by
  obtain ⟨located', found', records, recorded, -, same⟩ := recorded_of_executions placed
  cases found.symm.trans found'
  obtain ⟨held, among, rfl⟩ := (same record).mp member
  obtain ⟨passed, complete, lists, distinct⟩ := recorded.holds held among
  refine ⟨⟨passed, complete, fun place => ?_, nodup_inOrder distinct⟩, recorded.given held among⟩
  rw [lists_inOrder, lists]

theorem kept_of_executions {kept : Executions}
    (placed : executions manifest sources view = some kept) {test : TestRecord}
    (member : test ∈ view.tests) {selector : TestSelector} (is : test.Is selector) :
    ∃ record ∈ kept.tests, record.test = selector := by
  obtain ⟨located, -, records, recorded, -, same⟩ := recorded_of_executions placed
  obtain ⟨held, among, rfl⟩ := recorded.kept test member selector is
  exact ⟨_, (same _).mpr ⟨held, among, rfl⟩, rfl⟩

variable [DecidableEq Digest] (manifest sources view)

/-- The record of a test is the weakest of what its records say, and a test that did not pass
in one of them, or that one run of a merge files as affected, has its result to establish. -/
structure Weakest (executions : Executions) : Prop where
  kept : ∀ selector, (∃ record ∈ executions.tests, record.test = selector) ↔
    ∃ test ∈ view.tests, test.Is selector
  once : (executions.tests.map (·.test)).Nodup
  passed : ∀ record ∈ executions.tests, record.passed = true ↔
    ∀ test ∈ view.tests, test.Is record.test → test.outcome = "passed"
  files : ∀ record ∈ executions.tests, (record.files.map Prod.fst).Nodup ∧
    ∀ located ∈ locate manifest sources view.points, ∀ place, Lists record.files place ↔
      ∃ test ∈ view.tests, test.Is record.test ∧ ∃ hit ∈ test.hits, located.lookup hit = some place
  complete : ∀ record ∈ executions.tests, coverageIsComplete record.attribution = true ↔
    ∀ test ∈ view.tests, test.Is record.test → coverageIsComplete test.attribution = true
  affected : ∀ alphanumeric checkout report,
    affectedTests alphanumeric ⟨manifest.files, executions⟩ checkout = some report →
      ∀ selector, (∃ test ∈ view.tests, test.Is selector ∧ test.outcome ≠ "passed") →
        report.Files .affected selector
  merged : ∀ answer runs run report, affectedTestsOfMerge answer runs run = .ok report →
    ∀ bucket selector, report.Files bucket selector ↔
      FiledByParent answer runs run bucket selector ∧
        ∀ other, FiledByParent answer runs run other selector → bucket.rank ≤ other.rank

variable {manifest sources view}

/-- The records say the weakest of their tests exactly where no two tests of one file and one
name differ in whether they have passed. -/
theorem weakest_iff {kept : Executions} (placed : executions manifest sources view = some kept) :
    Weakest manifest sources view kept ↔ ∀ selector,
      (∀ test ∈ view.tests, test.Is selector → test.outcome = "passed") ∨
        ∀ test ∈ view.tests, test.Is selector → test.outcome ≠ "passed" := by
  obtain ⟨located, found, -⟩ := recorded_of_executions placed
  have any (record : Execution) (member : record ∈ kept.tests) : record.passed = true ↔
      ∃ test ∈ view.tests, test.Is record.test ∧ test.outcome = "passed" := by
    rw [(holds_of_executions placed member found).1.passed]
    simp only [List.mem_filter, decide_eq_true_eq, and_assoc]
  constructor
  · intro weakest selector
    refine or_iff_not_imp_right.mpr fun mixed => ?_
    push Not at mixed
    obtain ⟨test, member, is, passed⟩ := mixed
    obtain ⟨record, among, rfl⟩ := kept_of_executions placed member is
    exact (weakest.passed record among).mp ((any record among).mpr ⟨test, member, is, passed⟩)
  · intro alike
    refine ⟨fun selector => ?_, ?_, fun record member => ?_, fun record member => ?_,
      fun record member => ?_, ?_, fun answer runs run report merged =>
        files_affectedTestsOfMerge answer runs run merged⟩
    · constructor
      · rintro ⟨record, member, rfl⟩
        exact (holds_of_executions placed member found).2
      · rintro ⟨test, member, is⟩
        exact kept_of_executions placed member is
    · obtain ⟨-, -, -, -, once, -⟩ := recorded_of_executions placed
      exact once
    · rw [any record member]
      obtain ⟨test, among, is⟩ := (holds_of_executions placed member found).2
      constructor
      · rintro ⟨test', among', is', passed⟩
        exact (alike record.test).resolve_right fun never => never test' among' is' passed
      · intro all
        exact ⟨test, among, is, all test among is⟩
    · obtain ⟨holds, -⟩ := holds_of_executions placed member found
      refine ⟨holds.distinct, fun located' found' place => ?_⟩
      cases found.symm.trans found'
      rw [holds.lists]
      simp only [List.mem_filter, decide_eq_true_eq, and_assoc, reached, List.mem_filterMap]
    · rw [(holds_of_executions placed member found).1.complete]
      simp only [List.mem_filter, decide_eq_true_eq, and_imp]
    · rintro alphanumeric checkout report answered selector ⟨test, member, is, failed⟩
      obtain ⟨record, among, rfl⟩ := kept_of_executions placed member is
      refine files_affected answered among (Bool.eq_false_iff.mpr fun passed => failed ?_)
      obtain ⟨test', among', is', passed'⟩ := (any record among).mp passed
      exact (alike record.test).resolve_right (fun never => never test' among' is' passed')
        test member is

end Weakest

section Browsers

/-- One test as a suite of two projects runs it. -/
def browserTest (outcome : String) : TestRecord where
  file := some (utf8 "cart.spec.ts")
  name := utf8 "adds an item"
  outcome := outcome
  attribution := "exact"
  hits := []

def browsersView : View where
  points := []
  tests := [browserTest "failed", browserTest "passed"]

def browsersManifest : InputManifest Text where
  language := "javascript"
  files := []

theorem browsers_placed : (executions browsersManifest (some []) browsersView).isSome := by
  decide +kernel

theorem weakest_iff_browsers :
    Weakest browsersManifest (some []) browsersView (Option.get _ browsers_placed) ↔ ∀ selector,
      (∀ test ∈ browsersView.tests, test.Is selector → test.outcome = "passed") ∨
        ∀ test ∈ browsersView.tests, test.Is selector → test.outcome ≠ "passed" :=
  weakest_iff (Option.some_get browsers_placed).symm

/-- Nothing of the checkout has moved. -/
def browsersCheckout : Checkout Text where
  now _ := none
  source _ := none
  knownTests := []
  measured := some []
  onlyAdded _ _ := false
  loads _ := none
  places _ := true
  support := none

theorem browsers_answered : (affectedTests Char.isAlphanum
    ⟨browsersManifest.files, Option.get _ browsers_placed⟩ browsersCheckout).isSome := by
  decide +kernel

/-- The test that failed is listed as unaffected, and only there. -/
theorem not_weakest_browsers :
    (∃ report, affectedTests Char.isAlphanum
        ⟨browsersManifest.files, Option.get _ browsers_placed⟩ browsersCheckout = some report ∧
      report.affected.map (·.test) = [] ∧
      report.unaffected.map (·.test) = [⟨utf8 "cart.spec.ts", utf8 "adds an item"⟩]) ∧
    ¬ Weakest browsersManifest (some []) browsersView (Option.get _ browsers_placed) := by
  have nowhere : (Option.get _ browsers_answered).affected.map (·.test) = [] := by decide +kernel
  refine ⟨⟨_, (Option.some_get browsers_answered).symm, nowhere, by decide +kernel⟩, fun weakest => ?_⟩
  obtain ⟨entry, among, own⟩ := weakest.affected Char.isAlphanum browsersCheckout _
    (Option.some_get browsers_answered).symm ⟨utf8 "cart.spec.ts", utf8 "adds an item"⟩
    ⟨browserTest "failed", List.mem_cons_self .., ⟨rfl, rfl⟩, by decide⟩
  have listed := List.mem_map_of_mem (f := Entry.test) among
  exact List.not_mem_nil (nowhere ▸ listed)

end Browsers

end Supercov.Affected
