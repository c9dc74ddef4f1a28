import Supercov.Affected.Moved
import Supercov.Affected.Tests
import Mathlib.Data.List.ReduceOption

/-!
# What an unaffected test did not run

A test is said to be unaffected on two grounds: its record, where that is all it ran, or
what the run as a whole covered.  Both rest on the comparison of views by path, which tells
a rename as one unit gone and another come, and a new order of the same units not at all.
-/

namespace Supercov.Affected

open Supercov.Units

section Changes

variable {Digest : Type} [DecidableEq Digest] {run : RunRecord Digest} {checkout : Checkout Digest}

/-- What is known of a captured file's two states where it is judged so. -/
inductive Judged (before : Fingerprint Digest) :
    Option (Fingerprint Digest) → Option (List Nat) → FileChange Digest → Prop where
  | same {after : Fingerprint Digest} {probed : Option (List Nat)}
      (same : before.sha256 = after.sha256) : Judged before (some after) probed .same
  | commentsOnly {after : Fingerprint Digest} {probed : Option (List Nat)} {old new : Code Digest}
      (other : before.sha256 ≠ after.sha256) (first : before.code = some old)
      (second : after.code = some new) (same : old.semantic = new.semantic) :
      Judged before (some after) probed .commentsOnly
  | removed {probed : Option (List Nat)} : Judged before none probed .removed
  | bytes {after : Fingerprint Digest} {probed : Option (List Nat)}
      (other : before.sha256 ≠ after.sha256) (unread : before.code = none ∨ after.code = none) :
      Judged before (some after) probed .bytes
  | code {after : Fingerprint Digest} {probed : Option (List Nat)} {old new : Code Digest}
      {diff : Diff} {narrow : Bool} (other : before.sha256 ≠ after.sha256)
      (first : before.code = some old) (second : after.code = some new)
      (changed : old.semantic ≠ new.semantic) (compared : diff = old.diff new)
      (narrowed : narrow = probed.any fun probed => diff.narrow old probed) :
      Judged before (some after) probed (.code old new diff narrow)

theorem exists_judged (before : Fingerprint Digest) (after : Option (Fingerprint Digest))
    (probed : Option (List Nat)) :
    ∃ change, fileChange (some before) after probed = some change ∧
      Judged before after probed change := by
  cases after with
  | none => exact ⟨_, rfl, .removed⟩
  | some after =>
    unfold fileChange Fingerprint.sameBytes
    by_cases same : before.sha256 = after.sha256
    · exact ⟨_, by simp [same], .same same⟩
    · cases first : before.code with
      | none => exact ⟨_, by simp [same, first], .bytes same (.inl first)⟩
      | some old =>
        cases second : after.code with
        | none => exact ⟨_, by simp [same, first, second], .bytes same (.inr second)⟩
        | some new =>
          by_cases comments : old.semantic = new.semantic
          · exact ⟨_, by simp [same, first, second, comments],
              .commentsOnly same first second comments⟩
          · exact ⟨_, by simp [same, first, second, comments],
              .code same first second comments rfl rfl⟩

theorem lookup_filterMap {Key Value : Type} [BEq Key] [LawfulBEq Key] (make : Key → Option Value)
    (keys : List Key) (key : Key) :
    (keys.filterMap fun key => (make key).map (key, ·)).lookup key =
      if key ∈ keys then make key else none := by
  induction keys with
  | nil => rfl
  | cons first keys ih =>
    rw [List.filterMap_cons]
    cases made : make first with
    | none =>
      by_cases own : key = first
      · subst own
        simp [ih, made]
      · simp [ih, own]
    | some value =>
      by_cases own : key = first
      · subst own
        simp [made]
      · simp [List.lookup_cons, ih, own, beq_eq_false_iff_ne.mpr own]

theorem lookup_changes (file : File) :
    (changes run checkout).lookup file = (run.manifest.lookup file).bind fun before =>
      fileChange (some before) (checkout.now file) (run.executions.probed.lookup file) := by
  have made := lookup_filterMap (fun file => fileChange (run.manifest.lookup file)
    (checkout.now file) (run.executions.probed.lookup file)) (run.manifest.map Prod.fst) file
  rw [List.filterMap_map] at made
  refine made.trans ?_
  cases found : run.manifest.lookup file with
  | none =>
    rw [if_neg]
    · rfl
    · intro member
      obtain ⟨entry, among, rfl⟩ := List.mem_map.mp member
      exact absurd rfl (bne_iff_ne.mp (List.lookup_eq_none_iff.mp found entry among))
  | some before =>
    rw [if_pos]
    · rfl
    · obtain ⟨earlier, later, whole, -⟩ := List.lookup_eq_some_iff.mp found
      simp [whole]

theorem mem_changes {file : File} {change : FileChange Digest} :
    (file, change) ∈ changes run checkout ↔ (changes run checkout).lookup file = some change := by
  constructor
  · intro member
    obtain ⟨⟨file', fingerprint⟩, among, made⟩ := List.mem_filterMap.mp member
    obtain ⟨change', made, same⟩ := Option.map_eq_some_iff.mp made
    cases same
    rw [lookup_changes]
    cases found : run.manifest.lookup file' with
    | none => exact absurd rfl (bne_iff_ne.mp (List.lookup_eq_none_iff.mp found _ among))
    | some before => rwa [found] at made
  · intro found
    obtain ⟨before, after, whole, -⟩ := List.lookup_eq_some_iff.mp found
    simp [whole]

theorem exists_change (checkout : Checkout Digest) {file : File} {before : Fingerprint Digest}
    (captured : run.manifest.lookup file = some before) :
    ∃ change, (changes run checkout).lookup file = some change ∧
      Judged before (checkout.now file) (run.executions.probed.lookup file) change := by
  obtain ⟨change, made, judged⟩ :=
    exists_judged before (checkout.now file) (run.executions.probed.lookup file)
  refine ⟨change, ?_, judged⟩
  rw [lookup_changes, captured]
  exact made

theorem captured_of_lookup {file : File} {change : FileChange Digest}
    (found : (changes run checkout).lookup file = some change) :
    ∃ before, run.manifest.lookup file = some before ∧
      Judged before (checkout.now file) (run.executions.probed.lookup file) change := by
  rw [lookup_changes] at found
  obtain ⟨before, captured, made⟩ := Option.bind_eq_some_iff.mp found
  obtain ⟨change', made', judged⟩ :=
    exists_judged before (checkout.now file) (run.executions.probed.lookup file)
  cases made.symm.trans made'
  exact ⟨before, captured, judged⟩

end Changes

section Claims

variable {Digest : Type} [DecidableEq Digest] (alphanumeric : Char → Bool)
  (run : RunRecord Digest) (checkout : Checkout Digest)

/-- The test's entry stands under `unaffected`. -/
def IsUnaffected (record : Execution) : Prop :=
  ∃ bound ∈ beyondTheRun run checkout, ∃ byTests ∈ namedByTests run checkout,
    ∃ entry, judge alphanumeric run checkout bound byTests record = some (.unaffected, entry)

def Ran (file : File) (units : List Nat) (holder : Nat) : Prop :=
  ∃ unit ∈ units, Within (codeOf run file) unit holder

/-- What was run of a file did not move, nor did the file but for bodies of probed code. -/
def Unmoved (file : File) (units : List Nat) : Prop :=
  ∀ before ∈ run.manifest.lookup file,
    Confined before (checkout.now file) (run.executions.probed.lookup file) ∧
      ∀ holder, Ran run file units holder → ¬ UnitMoved before (checkout.now file) holder

def NothingCoveredMoved : Prop :=
  ∀ file, ∀ before ∈ run.manifest.lookup file, ∀ holder,
    Ran run file ((run.executions.covered.lookup file).getD []) holder →
      ¬ UnitMoved before (checkout.now file) holder

/-- No test that is said to be unaffected could have run what moved. -/
def UnaffectedSafe : Prop :=
  ∀ record ∈ run.executions.tests, IsUnaffected alphanumeric run checkout record →
    if coverageIsComplete record.attribution then
      ∀ reached ∈ record.files, Unmoved run checkout reached.1 reached.2
    else NothingCoveredMoved run checkout

/-- A change that no program can tell. -/
def FileChange.Still : FileChange Digest → Prop
  | .same | .commentsOnly | .added => True
  | _ => False

/-- A changed helper does not reach the test: no process that loaded it served the test, or
the test's imports are all followed and miss it, and some test's do not. -/
def Missed (record : Execution) (helper : File) : Prop :=
  let imported := (followed checkout record).any fun files => decide (helper ∈ files)
  match servedBy checkout record helper, imported with
  | some served, false => served = false
  | _, _ => imported = false ∧ (followed checkout record).isSome ∧ checkout.places helper

/-- The test ran code in the file or is itself in it, or its own file has none of the names. -/
def Unnamed (record : Execution) (file : File) (names : List Text) : Prop :=
  file ∈ record.files.map Prod.fst ∨ file = record.test.file ∨
    ∀ source ∈ checkout.source record.test.file, ∀ text ∈ JsonText.readUtf8 source,
      ∀ name ∈ names, ∀ word ∈ JsonText.readUtf8 name, namesWord alphanumeric word none 0 text = false

/-- Nothing but what it ran says that the test is affected. -/
structure Quiet (record : Execution) : Prop where
  passed : record.passed
  still : ∀ change ∈ (changes run checkout).lookup record.test.file, change.Still
  missed : ∀ helper ∈ helpers run checkout, Missed checkout record helper.1
  unnamed : ∀ byTests ∈ namedByTests run checkout, ∀ names ∈ byTests,
    Unnamed alphanumeric checkout record names.1 names.2

/-- Of one file of the record, only bodies of probed code changed under their paths, and
none of them was run. -/
def Untold (file : File) (units : List Nat) : Prop :=
  ∀ change ∈ (changes run checkout).lookup file, change.Still ∨
    ∃ old new diff, change = .code old new diff true ∧
      ∀ holder, Ran run file units holder → holder ∉ diff.changed

/-- The declarations of a file kept their order, and what a shared path hides is a body of
probed code that was not run. -/
def InOrder (file : File) (units : List Nat) : Prop :=
  ∀ old new diff narrow, (changes run checkout).lookup file = some (.code old new diff narrow) →
    SamePaths old new ∧ ∀ index, Hidden old new index →
      (∃ probed ∈ run.executions.probed.lookup file, ProbedCode old probed index) ∧
        ¬ Ran run file units index

/-- Every captured file is there and read on both sides, and no unit that the run covered
changed under its path. -/
def CoveredUntold : Prop :=
  ∀ file, ∀ change ∈ (changes run checkout).lookup file, change.Still ∨
    ∃ old new diff narrow, change = .code old new diff narrow ∧ ∀ holder,
      Ran run file ((run.executions.covered.lookup file).getD []) holder → holder ∉ diff.changed

/-- No unit that the run covered is gone from under its path, and none is hidden. -/
def CoveredStands : Prop :=
  ∀ file old new diff narrow, (changes run checkout).lookup file = some (.code old new diff narrow) →
    ∀ holder, Ran run file ((run.executions.covered.lookup file).getD []) holder →
      holder ∉ diff.removed ∧ ¬ Hidden old new holder

/-- Paths tell all that moved under a test that nothing says is affected: with a complete
record the declarations of what it ran kept their order, and without one no unit that the
run covered is gone while none changed. -/
def PathsTell : Prop :=
  ∀ record ∈ run.executions.tests, Quiet alphanumeric run checkout record →
    (∀ reached ∈ record.files, Untold run checkout reached.1 reached.2) →
      if coverageIsComplete record.attribution then
        ∀ reached ∈ record.files, InOrder run checkout reached.1 reached.2
      else CoveredUntold run checkout → CoveredStands run checkout

end Claims

section Unmoved

variable {Digest : Type} {before after : Fingerprint Digest} {old new : Code Digest}

theorem not_still_code {diff : Diff} {narrow : Bool} :
    ¬ (FileChange.code old new diff narrow).Still :=
  id

theorem unitMoved_iff {holder : Nat} (other : before.sha256 ≠ after.sha256)
    (first : before.code = some old) (second : after.code = some new)
    (changed : old.semantic ≠ new.semantic) :
    UnitMoved before (some after) holder ↔ Moved old new holder := by
  simp [UnitMoved, first, second, other, changed]

theorem confined_iff {probed : Option (List Nat)} (other : before.sha256 ≠ after.sha256)
    (first : before.code = some old) (second : after.code = some new)
    (changed : old.semantic ≠ new.semantic) :
    Confined before (some after) probed ↔ ∃ probed' ∈ probed, BodiesOnly old new probed' := by
  simp [Confined, first, second, other, changed]

theorem bodies_unmoved_iff [DecidableEq Digest] {probed : Option (List Nat)} {ran : Nat → Prop}
    (narrow : probed.any fun probed => (old.diff new).narrow old probed)
    (unrun : ∀ holder, ran holder → holder ∉ (old.diff new).changed) :
    ((∃ probed' ∈ probed, BodiesOnly old new probed') ∧
        ∀ holder, ran holder → ¬ Moved old new holder) ↔
      SamePaths old new ∧ ∀ index, Hidden old new index →
        (∃ probed' ∈ probed, ProbedCode old probed' index) ∧ ¬ ran index := by
  obtain ⟨probed, rfl, narrow⟩ := (Option.any_eq_true _ _).mp narrow
  simp only [Option.mem_some_iff, exists_eq_left']
  rw [bodiesOnly_iff narrow]
  constructor
  · rintro ⟨⟨paths, bodies⟩, unmoved⟩
    exact ⟨paths, fun index hidden => ⟨bodies index hidden, fun own => unmoved index own hidden.1⟩⟩
  · rintro ⟨paths, hidden⟩
    refine ⟨⟨paths, fun index own => (hidden index own).1⟩, fun holder own moved => ?_⟩
    have removed : holder ∉ (old.diff new).removed := by simp [(mem_narrow narrow).2.1]
    exact (hidden holder (hidden_of_moved moved (unrun holder own) removed)).2 own

end Unmoved

section Safe

variable {Digest : Type} [DecidableEq Digest] {run : RunRecord Digest} {checkout : Checkout Digest}

theorem still_safe {before : Fingerprint Digest} {after : Option (Fingerprint Digest)}
    {probed : Option (List Nat)} {change : FileChange Digest}
    (judged : Judged before after probed change) (still : change.Still) :
    Confined before after probed ∧ ∀ holder, ¬ UnitMoved before after holder := by
  cases judged with
  | same same => exact ⟨.inl same, fun _ moved => moved.1 same⟩
  | commentsOnly other first second same =>
    simp only [Confined, UnitMoved, first, second]
    exact ⟨.inr (.inl same), fun _ moved => moved.2.1 same⟩
  | removed => cases still
  | bytes => cases still
  | code => cases still

theorem unmoved_iff {file : File} {units : List Nat} (untold : Untold run checkout file units) :
    Unmoved run checkout file units ↔ InOrder run checkout file units := by
  unfold Unmoved InOrder
  cases captured : run.manifest.lookup file with
  | none =>
    have none : (changes run checkout).lookup file = none := by simp [lookup_changes, captured]
    simp [none]
  | some before =>
    obtain ⟨change, found, judged⟩ := exists_change checkout captured
    simp only [found, Option.mem_some_iff, forall_eq', Option.some.injEq]
    rcases untold change found with still | ⟨old, new, diff, rfl, unrun⟩
    · obtain ⟨confined, unmoved⟩ := still_safe judged still
      refine iff_of_true ⟨confined, fun holder _ => unmoved holder⟩ ?_
      rintro old new diff narrow rfl
      exact absurd still not_still_code
    · generalize checkout.now file = now at judged
      cases judged with
      | code other first second changed compared narrowed =>
        subst compared
        simp only [confined_iff other first second changed, unitMoved_iff other first second changed,
          bodies_unmoved_iff narrowed.symm unrun]
        constructor
        · rintro kept old' new' diff' narrow' ⟨⟩
          exact kept
        · exact fun kept => kept old new _ true rfl

theorem coveredUnmoved_iff (untold : CoveredUntold run checkout) :
    NothingCoveredMoved run checkout ↔ CoveredStands run checkout := by
  constructor
  · intro unmoved file old new diff narrow found holder own
    obtain ⟨before, captured, judged⟩ := captured_of_lookup found
    have stands := unmoved file before captured holder own
    generalize checkout.now file = now at judged stands
    cases judged with
    | code other first second changed compared narrowed =>
      subst compared
      rw [unitMoved_iff other first second changed] at stands
      exact ⟨fun removed => stands (moved_of_removed removed), fun hidden => stands hidden.1⟩
  · intro stands file before captured holder own
    obtain ⟨change, found, judged⟩ := exists_change checkout captured
    rcases untold file change found with still | ⟨old, new, diff, narrow, rfl, unrun⟩
    · exact (still_safe judged still).2 holder
    · have kept := stands file old new diff narrow found holder own
      generalize checkout.now file = now at judged
      cases judged with
      | code other first second changed compared narrowed =>
        subst compared
        rw [unitMoved_iff other first second changed]
        exact fun moved => kept.2 (hidden_of_moved moved (unrun holder own) kept.1)

end Safe

section Reasons

variable {Digest : Type} [DecidableEq Digest] {run : RunRecord Digest} {checkout : Checkout Digest}

theorem compared_of_lookup {file : File} {old new : Code Digest} {diff : Diff} {narrow : Bool}
    (found : (changes run checkout).lookup file = some (.code old new diff narrow)) :
    diff = old.diff new := by
  obtain ⟨before, captured, judged⟩ := captured_of_lookup found
  generalize checkout.now file = now at judged
  cases judged with
  | code other first second changed compared narrowed => exact compared

theorem isEmpty_pick {old new : Code Digest} {ran : List Nat} :
    (pick old ((old.diff new).changed.filter (· ∈ ran))).isEmpty ↔
      ∀ holder ∈ ran, holder ∉ (old.diff new).changed := by
  unfold pick
  rw [List.isEmpty_iff, List.filterMap_eq_nil_iff]
  constructor
  · intro none holder own told
    obtain ⟨unit, found, -⟩ := mem_changed.mp told
    cases (none holder (List.mem_filter.mpr ⟨told, by simpa using own⟩)).symm.trans found
  · intro unrun index member
    obtain ⟨told, own⟩ := List.mem_filter.mp member
    exact absurd told (unrun index (by simpa using own))

theorem isEmpty_hit (old new : Code Digest) {file : File} {units ran : List Nat}
    (reached : reach (codeOf run file) units = some ran) :
    (pick old ((old.diff new).changed.filter (· ∈ ran))).isEmpty ↔
      ∀ holder, Ran run file units holder → holder ∉ (old.diff new).changed := by
  rw [isEmpty_pick]
  exact forall_congr' fun holder => imp_congr_left (mem_reach reached)

theorem ranReasons_eq_nil {file : File} {units : List Nat} {said : List Text × List ChangedCode}
    (asked : ranReasons run checkout (file, units) = some said) :
    said.1 = [] ↔ Untold run checkout file units := by
  obtain ⟨ran, reached, asked⟩ := Option.bind_eq_some_iff.mp asked
  unfold Untold
  cases found : (changes run checkout).lookup file with
  | none =>
    rw [found] at asked
    cases asked
    simp
  | some change =>
    rw [found] at asked
    simp only [Option.mem_some_iff, forall_eq']
    cases change with
    | same | commentsOnly | added =>
      cases asked
      exact iff_of_true rfl (.inl trivial)
    | removed | bytes =>
      cases asked
      simp [FileChange.Still]
    | code old new diff narrow =>
      obtain rfl := compared_of_lookup found
      cases narrow with
      | false =>
        cases asked
        simp [FileChange.Still]
      | true =>
        cases asked
        dsimp only
        have hit := isEmpty_hit old new reached
        by_cases empty : (pick old ((old.diff new).changed.filter (· ∈ ran))).isEmpty
        · exact iff_of_true (if_pos empty) (.inr ⟨_, _, _, rfl, hit.mp empty⟩)
        · refine iff_of_false (by simp [empty]) ?_
          rintro (still | ⟨_, _, _, ⟨⟩, unrun⟩)
          · exact not_still_code still
          · exact empty (hit.mpr unrun)

theorem boundReason_eq_none {file : File} {change : FileChange Digest} {said : Option Text}
    (found : (changes run checkout).lookup file = some change)
    (asked : boundReason run (file, change) = some said) :
    said = none ↔ change.Still ∨ ∃ old new diff narrow, change = .code old new diff narrow ∧
      ∀ holder, Ran run file ((run.executions.covered.lookup file).getD []) holder →
        holder ∉ diff.changed := by
  cases change with
  | same | commentsOnly | added =>
    cases asked
    exact iff_of_true rfl (.inl trivial)
  | removed | bytes =>
    cases asked
    simp [FileChange.Still]
  | code old new diff narrow =>
    obtain rfl := compared_of_lookup found
    obtain ⟨reached, walked, asked⟩ := Option.bind_eq_some_iff.mp asked
    cases asked
    have hit := isEmpty_hit old new walked
    by_cases empty : (pick old ((old.diff new).changed.filter (· ∈ reached))).isEmpty
    · exact iff_of_true (if_pos empty) (.inr ⟨_, _, _, _, rfl, hit.mp empty⟩)
    · refine iff_of_false (by simp [empty]) ?_
      rintro (still | ⟨_, _, _, _, ⟨⟩, unrun⟩)
      · exact not_still_code still
      · exact empty (hit.mpr unrun)

theorem bound_eq_nil {bound : List Text} (asked : beyondTheRun run checkout = some bound) :
    bound = [] ↔ CoveredUntold run checkout := by
  obtain ⟨each, all, same⟩ := Option.bind_eq_some_iff.mp asked
  cases same
  obtain ⟨forward, backward⟩ := exists_of_mapM all
  have silent : each.reduceOption = [] ↔ ∀ said ∈ each, said = none := by
    simp [List.reduceOption, List.filterMap_eq_nil_iff]
  rw [silent]
  constructor
  · intro none file change found
    obtain ⟨said, among, asked⟩ := forward (file, change) (mem_changes.mpr found)
    exact (boundReason_eq_none found asked).mp (none said among)
  · intro untold said among
    obtain ⟨⟨file, change⟩, member, asked⟩ := backward said among
    have found := mem_changes.mp member
    exact (boundReason_eq_none found asked).mpr (untold file change found)

end Reasons

section Judgement

variable {Digest : Type} {alphanumeric : Char → Bool} {run : RunRecord Digest}
  {checkout : Checkout Digest} {record : Execution}

theorem helperReason_eq_none {file : File} {what : Text} :
    helperReason checkout record (file, what) = none ↔ Missed checkout record file := by
  unfold helperReason Missed
  dsimp only
  generalize (followed checkout record).any (fun files => decide (file ∈ files)) = imported
  cases imported with
  | true => cases servedBy checkout record file <;> simp
  | false =>
    cases servedBy checkout record file with
    | some served => cases served <;> simp
    | none => cases followed checkout record <;> simp

theorem namedReason_eq_none {file : File} {names : List Text} :
    namedReason alphanumeric checkout record (file, names) = none ↔
      Unnamed alphanumeric checkout record file names := by
  unfold namedReason Unnamed
  dsimp only
  split
  · next decided => exact iff_of_true rfl (decided.imp_right .inl)
  · next undecided =>
    rw [not_or] at undecided
    simp only [undecided.1, undecided.2, false_or]
    cases checkout.source record.test.file with
    | none => simp
    | some source =>
      cases read : JsonText.readUtf8 source with
      | none => simp [read]
      | some text =>
        simp only [Option.bind_some, read, Option.mem_some_iff, forall_eq', Option.bind_eq_bind]
        cases found : names.find? fun name =>
            (JsonText.readUtf8 name).any fun word => namesWord alphanumeric word none 0 text with
        | none =>
          refine iff_of_true rfl fun name among word spelled => ?_
          have absent := List.find?_eq_none.mp found name among
          rw [Option.mem_def.mp spelled] at absent
          simpa using absent
        | some name =>
          refine iff_of_false (by simp) fun unnamed => ?_
          have present := List.find?_some found
          obtain ⟨word, spelled, present⟩ := (Option.any_eq_true _ _).mp present
          exact Bool.false_ne_true
            ((unnamed name (List.mem_of_find?_eq_some found) word spelled).symm.trans present)

variable [DecidableEq Digest]

theorem ownReasons_eq_nil : ownReasons run checkout record = [] ↔
    record.passed ∧ ∀ change ∈ (changes run checkout).lookup record.test.file, change.Still := by
  unfold ownReasons
  rw [List.append_eq_nil_iff]
  refine and_congr (by cases record.passed <;> simp) ?_
  cases (changes run checkout).lookup record.test.file with
  | none => simp
  | some change => cases change <;> simp [FileChange.Still]

theorem reasons_eq_nil {byTests : List (File × List Text)}
    {ran : List (List Text × List ChangedCode)}
    (named : namedByTests run checkout = some byTests)
    (asked : record.files.mapM (ranReasons run checkout) = some ran) :
    ownReasons run checkout record ++ ran.flatMap Prod.fst ++
        (helpers run checkout).filterMap (helperReason checkout record) ++
        byTests.filterMap (namedReason alphanumeric checkout record) = [] ↔
      Quiet alphanumeric run checkout record ∧
        ∀ reached ∈ record.files, Untold run checkout reached.1 reached.2 := by
  obtain ⟨forward, backward⟩ := exists_of_mapM asked
  simp only [List.append_eq_nil_iff, List.flatMap_eq_nil_iff, List.filterMap_eq_nil_iff,
    ownReasons_eq_nil]
  constructor
  · rintro ⟨⟨⟨⟨passed, still⟩, silent⟩, missed⟩, unnamed⟩
    refine ⟨⟨passed, still, fun helper member => helperReason_eq_none.mp (missed helper member), ?_⟩, ?_⟩
    · rintro byTests' named' names member
      cases named.symm.trans named'
      exact namedReason_eq_none.mp (unnamed names member)
    · intro reached member
      obtain ⟨said, among, asked⟩ := forward reached member
      exact (ranReasons_eq_nil asked).mp (silent said among)
  · rintro ⟨quiet, untold⟩
    refine ⟨⟨⟨⟨quiet.passed, quiet.still⟩, fun said among => ?_⟩, fun helper member => ?_⟩,
      fun names member => ?_⟩
    · obtain ⟨reached, member, asked⟩ := backward said among
      exact (ranReasons_eq_nil asked).mpr (untold reached member)
    · exact helperReason_eq_none.mpr (quiet.missed helper member)
    · exact namedReason_eq_none.mpr (quiet.unnamed byTests named names member)

theorem judge_unaffected {bound : List Text} {byTests : List (File × List Text)}
    {bucket : Bucket} {entry : Entry} (beyond : beyondTheRun run checkout = some bound)
    (named : namedByTests run checkout = some byTests)
    (judged : judge alphanumeric run checkout bound byTests record = some (bucket, entry)) :
    bucket = .unaffected ↔
      (Quiet alphanumeric run checkout record ∧
        ∀ reached ∈ record.files, Untold run checkout reached.1 reached.2) ∧
      (coverageIsComplete record.attribution = true ∨ CoveredUntold run checkout) := by
  obtain ⟨ran, asked, judged⟩ := Option.bind_eq_some_iff.mp judged
  rw [← reasons_eq_nil named asked, ← bound_eq_nil beyond]
  generalize ownReasons run checkout record ++ _ ++ _ ++ _ = reasons at judged
  have sorted : (bound.insertionSort fun text other => textLe text other).destutter (· ≠ ·) = [] ↔
      bound = [] := by
    rw [List.destutter_eq_nil, ← List.length_eq_zero_iff, List.length_insertionSort,
      List.length_eq_zero_iff]
  cases complete : coverageIsComplete record.attribution with
  | true =>
    rw [complete] at judged
    cases judged
    cases reasons <;> simp
  | false =>
    rw [complete] at judged
    cases reasons with
    | nil =>
      cases judged
      by_cases silent : bound = []
      · rw [if_pos (by rw [sorted.mpr silent]; rfl)]
        simp [silent]
      · rw [if_neg (by rwa [List.isEmpty_iff, sorted])]
        simp [silent]
    | cons reason reasons =>
      cases judged
      simp

theorem isUnaffected_iff {report : TestsReport}
    (answered : affectedTests alphanumeric run checkout = some report)
    (member : record ∈ run.executions.tests) :
    IsUnaffected alphanumeric run checkout record ↔
      (Quiet alphanumeric run checkout record ∧
        ∀ reached ∈ record.files, Untold run checkout reached.1 reached.2) ∧
      (coverageIsComplete record.attribution = true ∨ CoveredUntold run checkout) := by
  obtain ⟨all, asked, -⟩ := Option.bind_eq_some_iff.mp answered
  obtain ⟨bound, beyond, asked⟩ := Option.bind_eq_some_iff.mp asked
  obtain ⟨byTests, named, asked⟩ := Option.bind_eq_some_iff.mp asked
  obtain ⟨⟨bucket, entry⟩, -, judged⟩ := (exists_of_mapM asked).1 record member
  rw [← judge_unaffected beyond named judged]
  simp only [IsUnaffected, beyond, named, Option.mem_some_iff, exists_eq_left', judged,
    Option.some.injEq, Prod.mk.injEq, exists_and_left, exists_eq', and_true]

end Judgement

section Renamed

def functionOutline (name : String) : Outline where
  comments := []
  strings := []
  declarations := [{ name := utf8 name, kind := .function, start := 0, stop := 7, inert := false }]
  separator := utf8 "."

theorem function_built : (build id (utf8 "f=()=>1\n") (functionOutline "f")).isSome := by
  decide +kernel

theorem renamed_built : (build id (utf8 "g=()=>1\n") (functionOutline "g")).isSome := by
  decide +kernel

/-- A test of which only the run as a whole is known, and the one function the run covered. -/
def functionRun : RunRecord Text where
  manifest :=
    [(utf8 "calc.js", ⟨utf8 "f=()=>1\n", some (Option.get _ function_built)⟩)]
  executions :=
    { tests := [⟨⟨utf8 "t.js", utf8 "t"⟩, true, [], "run-wide"⟩]
      probed := [(utf8 "calc.js", [1])]
      covered := [(utf8 "calc.js", [1])] }

/-- The function has another name. -/
def renamedCheckout : Checkout Text where
  now _ := some ⟨utf8 "g=()=>1\n", some (Option.get _ renamed_built)⟩
  source _ := none
  knownTests := []
  measured := some [utf8 "calc.js"]
  onlyAdded _ _ := false
  loads _ := none
  places _ := true
  support := none

theorem renamed_answered : (affectedTests Char.isAlphanum functionRun renamedCheckout).isSome := by
  decide +kernel

end Renamed

end Supercov.Affected
