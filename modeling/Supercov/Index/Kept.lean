import Supercov.Index.Tables
import Supercov.Library.Pointwise
import Mathlib.Data.List.Nodup

/-!
# What is written of tests is read

The tables of several views are read back view by view: each test with all that was
written of it, and nothing of another test or view.
-/

namespace Supercov.Index

open Analysis (McdcVector)
open Report

def detailOf (test : TestCoverageResult) : IndexedTestDetail where
  summary := testSummary test
  retries := test.retries
  attempts := test.attempts
  hits := test.hits
  decisions := test.decisions
  lines := test.lines

abbrev ViewTest := CoverageViewId × TestCoverageResult

def related {Value : Type} (values : TestCoverageResult → List Value) (test : ViewTest) :
    List (TestRelation Value) :=
  (values test.2).map fun value => { view := test.1, test := test.2.id, value }

structure Stored (vectors : List McdcVector) (record : TestRelation TestDecisionRecord)
    (decision : TestRelation TestDecisionResult) : Prop where
  view : record.view = decision.view
  test : record.test = decision.test
  id : record.value.id = decision.value.id
  inside : record.value.vectorsOffset + record.value.vectorsCount ≤ vectors.length
  vectors : (vectors.drop record.value.vectorsOffset).take record.value.vectorsCount =
    decision.value.vectors

structure KeepsTests (index : CoverageIndex) (tests : List ViewTest) : Prop where
  summaries : index.testSummaries = tests.map fun test => (test.1, testSummary test.2)
  retries : index.testRetries = tests.flatMap (related (·.retries))
  attempts : index.testAttempts = tests.flatMap (related (·.attempts))
  lines : index.testLines = tests.flatMap (related (·.lines))
  hits : index.testHits = tests.flatMap (related (·.hits))
  decisions : List.Forall₂ (Stored index.testVectors) index.testDecisions
    (tests.flatMap (related (·.decisions)))

theorem Stored.append {vectors : List McdcVector} {record : TestRelation TestDecisionRecord}
    {decision : TestRelation TestDecisionResult} (stored : Stored vectors record decision)
    (more : List McdcVector) : Stored (vectors ++ more) record decision where
  view := stored.view
  test := stored.test
  id := stored.id
  inside := by
    have inside := stored.inside
    rw [List.length_append]
    omega
  vectors := by
    have inside := stored.inside
    rw [List.drop_append_of_le_length (by omega), List.take_append_of_le_length, stored.vectors]
    rw [List.length_drop]
    omega

theorem KeepsTests.congr {index index' : CoverageIndex} {tests : List ViewTest}
    (keeps : KeepsTests index tests) (summaries : index'.testSummaries = index.testSummaries)
    (retries : index'.testRetries = index.testRetries)
    (attempts : index'.testAttempts = index.testAttempts)
    (lines : index'.testLines = index.testLines) (hits : index'.testHits = index.testHits)
    (decisions : index'.testDecisions = index.testDecisions)
    (vectors : ∃ more, index'.testVectors = index.testVectors ++ more) :
    KeepsTests index' tests where
  summaries := summaries.trans keeps.summaries
  retries := retries.trans keeps.retries
  attempts := attempts.trans keeps.attempts
  lines := lines.trans keeps.lines
  hits := hits.trans keeps.hits
  decisions := by
    obtain ⟨more, vectors⟩ := vectors
    rw [decisions, vectors]
    exact keeps.decisions.imp fun _ _ stored => stored.append more

theorem foldl_writeTestDecision (view : CoverageViewId) (test : String) (index : CoverageIndex)
    (decisions : List TestDecisionResult) :
    ∃ records more,
      decisions.foldl (writeTestDecision view test) index =
        { index with
          testDecisions := index.testDecisions ++ records
          testVectors := index.testVectors ++ more } ∧
      List.Forall₂ (Stored (index.testVectors ++ more)) records
        (decisions.map fun value => { view, test, value }) := by
  induction decisions generalizing index with
  | nil => exact ⟨[], [], by simp, .nil⟩
  | cons decision rest ih =>
    obtain ⟨records, more, written, stored⟩ := ih (writeTestDecision view test index decision)
    refine ⟨testDecisionRecord view test index decision :: records, decision.vectors ++ more, ?_,
      .cons ?_ ?_⟩
    · rw [List.foldl_cons, written]
      simp only [writeTestDecision, List.append_assoc, List.singleton_append]
    · exact
        { view := rfl
          test := rfl
          id := rfl
          inside := by simp [testDecisionRecord]
          vectors := by simp [testDecisionRecord] }
    · rw [← List.append_assoc]
      exact stored

theorem KeepsTests.writeTest {index index' : CoverageIndex} {tests : List ViewTest}
    (keeps : KeepsTests index tests) {view : CoverageViewId} {test : TestCoverageResult}
    (written : Index.writeTest view index test = .ok index') :
    KeepsTests index' (tests ++ [(view, test)]) := by
  obtain ⟨_, -, written⟩ := Outcome.bind_eq_ok.mp written
  obtain ⟨_, -, written⟩ := Outcome.bind_eq_ok.mp written
  obtain ⟨_, -, written⟩ := Outcome.bind_eq_ok.mp written
  rw [Outcome.pure_eq, Outcome.ok.injEq] at written
  obtain ⟨records, more, decided, stored⟩ := foldl_writeTestDecision view test.id
    { index with
      testSummaries := index.testSummaries ++ [(view, testSummary test)]
      testRetries := index.testRetries ++ test.retries.map fun value => { view, test := test.id, value }
      testAttempts :=
        index.testAttempts ++ test.attempts.map fun value => { view, test := test.id, value }
      testLines := index.testLines ++ test.lines.map fun value => { view, test := test.id, value }
      testHits := index.testHits ++ test.hits.map fun value => { view, test := test.id, value } }
    test.decisions
  rw [decided] at written
  subst written
  have single {Value : Type} (values : TestCoverageResult → List Value) :
      (tests ++ [(view, test)]).flatMap (related values) =
        tests.flatMap (related values) ++
          (values test).map fun value => { view, test := test.id, value } := by
    rw [List.flatMap_append, List.flatMap_singleton]
    rfl
  exact
    { summaries := by rw [List.map_append, ← keeps.summaries]; rfl
      retries := by rw [single, ← keeps.retries]
      attempts := by rw [single, ← keeps.attempts]
      lines := by rw [single, ← keeps.lines]
      hits := by rw [single, ← keeps.hits]
      decisions := by
        rw [single]
        exact List.rel_append (keeps.decisions.imp fun _ _ held => held.append more) stored }

theorem KeepsTests.foldlM_writeTest {index index' : CoverageIndex} {tests : List ViewTest}
    (keeps : KeepsTests index tests) {view : CoverageViewId} {more : List TestCoverageResult}
    (written : more.foldlM (Index.writeTest view) index = .ok index') :
    KeepsTests index' (tests ++ more.map fun test => (view, test)) := by
  induction more generalizing index tests with
  | nil =>
    cases written
    simpa using keeps
  | cons test rest ih =>
    rw [List.foldlM_cons] at written
    obtain ⟨next, first, others⟩ := Outcome.bind_eq_ok.mp written
    have all := ih (keeps.writeTest first) others
    rwa [List.append_assoc] at all

abbrev Views := List (CoverageViewId × CoverageView)

def testsOf (views : Views) : List ViewTest :=
  views.flatMap fun item => item.2.tests.map fun test => (item.1, test)

def decisionsOf (views : Views) : List (CoverageViewId × DecisionMeta) :=
  views.flatMap fun item => item.2.decisions.map fun result => (item.1, result.decision)

structure Keeps (index : CoverageIndex) (views : Views) : Prop where
  tests : KeepsTests index (testsOf views)
  decisions : index.decisionMetadata = decisionsOf views

theorem foldl_writeDecision (view : CoverageViewId) (index : CoverageIndex)
    (results : List DecisionResult) :
    ∃ more, results.foldl (writeDecision view) index =
      { index with
        testVectors := index.testVectors ++ more
        decisionMetadata :=
          index.decisionMetadata ++ results.map fun result => (view, result.decision) } := by
  induction results generalizing index with
  | nil => exact ⟨[], by simp⟩
  | cons result rest ih =>
    obtain ⟨more, written⟩ := ih (writeDecision view index result)
    rw [List.foldl_cons, written]
    simp only [writeDecision, List.append_assoc]
    exact ⟨_, rfl⟩

theorem foldlM_writeTest_decisions {view : CoverageViewId} {index index' : CoverageIndex}
    {tests : List TestCoverageResult} (written : tests.foldlM (writeTest view) index = .ok index') :
    index'.decisionMetadata = index.decisionMetadata := by
  induction tests generalizing index with
  | nil =>
    cases written
    rfl
  | cons test rest ih =>
    rw [List.foldlM_cons] at written
    obtain ⟨next, first, others⟩ := Outcome.bind_eq_ok.mp written
    rw [ih others]
    obtain ⟨_, -, first⟩ := Outcome.bind_eq_ok.mp first
    obtain ⟨_, -, first⟩ := Outcome.bind_eq_ok.mp first
    obtain ⟨_, -, first⟩ := Outcome.bind_eq_ok.mp first
    rw [Outcome.pure_eq, Outcome.ok.injEq] at first
    obtain ⟨records, more, decided, -⟩ := foldl_writeTestDecision view test.id _ test.decisions
    rw [← first, decided]

theorem Keeps.writeView {index index' : CoverageIndex} {views : Views} (keeps : Keeps index views)
    {item : CoverageViewId × CoverageView} (written : Index.writeView index item = .ok index') :
    Keeps index' (views ++ [item]) := by
  obtain ⟨id, view⟩ := item
  obtain ⟨_, -, written⟩ := Outcome.bind_eq_ok.mp written
  obtain ⟨tested, tests, written⟩ := Outcome.bind_eq_ok.mp written
  rw [Outcome.ok.injEq] at written
  subst written
  have kept := keeps.tests.foldlM_writeTest tests
  have decisions := foldlM_writeTest_decisions tests
  obtain ⟨more, decided⟩ := foldl_writeDecision id
    { tested with
      phaseSummaries :=
        tested.phaseSummaries ++ view.phases.map fun phase => (id, phaseSummary phase) }
    view.decisions
  rw [decided]
  constructor
  · rw [testsOf, List.flatMap_append, List.flatMap_singleton]
    exact kept.congr rfl rfl rfl rfl rfl rfl ⟨more, rfl⟩
  · rw [decisionsOf, List.flatMap_append, List.flatMap_singleton]
    exact congrArg (· ++ _) (decisions.trans keeps.decisions)

theorem keeps_of_coverageIndexSections {views : Views} {index : CoverageIndex}
    (written : coverageIndexSections views = .ok index) : Keeps index views := by
  obtain ⟨_, wrote, checked⟩ := Outcome.bind_eq_ok.mp written
  obtain ⟨_, -, done⟩ := Outcome.bind_eq_ok.mp checked
  cases done
  clear written checked
  suffices from_ : ∀ earlier start, Keeps start earlier → views.foldlM Index.writeView start = .ok index →
      Keeps index (earlier ++ views) by
    exact from_ [] .empty ⟨⟨rfl, rfl, rfl, rfl, rfl, .nil⟩, rfl⟩ wrote
  clear wrote
  induction views with
  | nil =>
    intro earlier start keeps written
    cases written
    simpa using keeps
  | cons item rest ih =>
    intro earlier start keeps written
    rw [List.foldlM_cons] at written
    obtain ⟨next, first, others⟩ := Outcome.bind_eq_ok.mp written
    have all := ih (earlier ++ [item]) next (keeps.writeView first) others
    rwa [List.append_assoc] at all

def ofTest {Value : Type} (view : CoverageViewId) (test : String)
    (relations : List (TestRelation Value)) : List Value :=
  (relations.filter fun relation => relation.view = view ∧ relation.test = test).map (·.value)

section Reading

variable {Stored Value : Type} {view : CoverageViewId}
  {decode : Stored → Outcome CoverageIndexError Value}
  {change : Value → IndexedTestDetail → IndexedTestDetail}

theorem foldlM_relate {records : List (TestRelation Stored)} {relations : List (TestRelation Value)}
    (keeps : ∀ value detail, (change value detail).summary = detail.summary)
    (decoded : List.Forall₂ (fun record relation =>
      record.view = relation.view ∧ record.test = relation.test ∧
        decode record.value = .ok relation.value) records relations)
    {details : List IndexedTestDetail}
    (known : ∀ relation ∈ relations, relation.view = view →
      ∃ detail ∈ details, detail.summary.id = relation.test) :
    records.foldlM (CoverageIndex.relate view decode change) details =
      .ok (details.map fun detail =>
        (ofTest view detail.summary.id relations).foldl (fun detail value => change value detail)
          detail) := by
  induction decoded generalizing details with
  | nil => simp [ofTest]
  | @cons record relation records relations head _ ih =>
    obtain ⟨sameView, sameTest, value⟩ := head
    obtain ⟨knownHere, knownLater⟩ := List.forall_mem_cons.mp known
    rw [List.foldlM_cons, CoverageIndex.relate]
    by_cases here : record.view = view
    · rw [if_neg (not_not.mpr here)]
      have some : ¬ details.all (·.summary.id ≠ record.test) := by
        obtain ⟨detail, member, same⟩ := knownHere (sameView ▸ here)
        simp only [List.all_eq_true, decide_eq_true_eq, not_forall, not_not]
        exact ⟨detail, member, same.trans sameTest.symm⟩
      rw [if_neg some, value]
      simp only [Outcome.ok_bind, Outcome.pure_eq]
      rw [ih, List.map_map]
      · congr 1
        apply List.map_congr_left
        intro detail _
        rw [Function.comp_apply, ofTest, ofTest, List.filter_cons]
        by_cases own : detail.summary.id = record.test
        · rw [if_pos own, keeps, if_pos (by simp [← sameView, ← sameTest, here, own])]
          rfl
        · rw [if_neg own, if_neg (by simp [← sameTest, Ne.symm own])]
      · intro relation member there
        obtain ⟨detail, member, same⟩ := knownLater relation member there
        refine ⟨_, List.mem_map_of_mem member, ?_⟩
        split
        · rw [keeps]
          exact same
        · exact same
    · rw [if_pos here, Outcome.ok_bind, ih knownLater]
      congr 1
      apply List.map_congr_left
      intro detail _
      rw [ofTest, ofTest, List.filter_cons, if_neg (by simp [← sameView, here])]

end Reading

def viewTests (view : CoverageViewId) (tests : List ViewTest) : List TestCoverageResult :=
  (tests.filter (·.1 = view)).map (·.2)

theorem ofTest_append {Value : Type} (view : CoverageViewId) (test : String)
    (relations more : List (TestRelation Value)) :
    ofTest view test (relations ++ more) = ofTest view test relations ++ ofTest view test more := by
  simp [ofTest]

theorem ofTest_related {Value : Type} (view : CoverageViewId) (id : String)
    (values : TestCoverageResult → List Value) (test : ViewTest) :
    ofTest view id (related values test) =
      if test.1 = view ∧ test.2.id = id then values test.2 else [] := by
  by_cases own : test.1 = view ∧ test.2.id = id
  · simp [ofTest, related, own, List.filter_map, Function.comp_def]
  · simp [ofTest, related, own, List.filter_map, Function.comp_def]

theorem ofTest_flatMap {Value : Type} {view : CoverageViewId} {tests : List ViewTest}
    (distinct : ((viewTests view tests).map (·.id)).Nodup) {test : TestCoverageResult}
    (member : test ∈ viewTests view tests) (values : TestCoverageResult → List Value) :
    ofTest view test.id (tests.flatMap (related values)) = values test := by
  have none (id : String) (rest : List ViewTest) (absent : id ∉ (viewTests view rest).map (·.id)) :
      ofTest view id (rest.flatMap (related values)) = [] := by
    induction rest with
    | nil => rfl
    | cons first rest ih =>
      rw [List.flatMap_cons, ofTest_append, ofTest_related]
      by_cases own : first.1 = view
      · have apart : first.2.id ≠ id ∧ id ∉ (viewTests view rest).map (·.id) := by
          simpa [viewTests, own, eq_comm] using absent
        rw [if_neg (fun same => apart.1 same.2), ih apart.2]
        rfl
      · have later : id ∉ (viewTests view rest).map (·.id) := by
          simpa [viewTests, own] using absent
        rw [if_neg (fun same => own same.1), ih later]
        rfl
  induction tests with
  | nil => cases member
  | cons first rest ih =>
    rw [List.flatMap_cons, ofTest_append, ofTest_related]
    by_cases own : first.1 = view
    · have split : viewTests view (first :: rest) = first.2 :: viewTests view rest := by
        simp [viewTests, own]
      rw [split] at member distinct
      obtain ⟨fresh, others⟩ := List.nodup_cons.mp distinct
      rcases List.mem_cons.mp member with same | later
      · rw [same, if_pos ⟨own, rfl⟩, none _ rest fresh, List.append_nil]
      · have apart : first.2.id ≠ test.id := by
          intro same
          exact fresh (List.mem_map.mpr ⟨test, later, same.symm⟩)
        rw [if_neg (fun same => apart same.2), List.nil_append, ih others later]
    · have split : viewTests view (first :: rest) = viewTests view rest := by
        simp [viewTests, own]
      rw [split] at member distinct
      rw [if_neg (fun same => own same.1), List.nil_append, ih distinct member]

theorem foldlM_relate_tests {Stored Value : Type} {view : CoverageViewId}
    {decode : Stored → Outcome CoverageIndexError Value}
    {change : Value → IndexedTestDetail → IndexedTestDetail} {tests : List ViewTest}
    (distinct : ((viewTests view tests).map (·.id)).Nodup)
    {records : List (TestRelation Stored)} {values : TestCoverageResult → List Value}
    (keeps : ∀ value detail, (change value detail).summary = detail.summary)
    (decoded : List.Forall₂ (fun record relation =>
      record.view = relation.view ∧ record.test = relation.test ∧
        decode record.value = .ok relation.value) records (tests.flatMap (related values)))
    (before after : TestCoverageResult → IndexedTestDetail)
    (summaries : ∀ test, (before test).summary = testSummary test)
    (changes : ∀ test, (values test).foldl (fun detail value => change value detail) (before test) =
      after test) :
    records.foldlM (CoverageIndex.relate view decode change) ((viewTests view tests).map before) =
      .ok ((viewTests view tests).map after) := by
  rw [foldlM_relate keeps decoded, List.map_map]
  · congr 1
    apply List.map_congr_left
    intro test member
    rw [Function.comp_apply, summaries]
    exact (congrArg (List.foldl _ _) (ofTest_flatMap distinct member values)).trans (changes test)
  · intro relation member here
    obtain ⟨test, among, own⟩ := List.mem_flatMap.mp member
    obtain ⟨value, -, rfl⟩ := List.mem_map.mp own
    refine ⟨before test.2, List.mem_map_of_mem ?_, by rw [summaries]; rfl⟩
    exact List.mem_map.mpr ⟨test, List.mem_filter.mpr ⟨among, by simpa using here⟩, rfl⟩

theorem forall₂_self {Value : Type} (relations : List (TestRelation Value)) :
    List.Forall₂ (fun record relation : TestRelation Value =>
      record.view = relation.view ∧ record.test = relation.test ∧
        (Outcome.ok record.value : Outcome CoverageIndexError Value) = .ok relation.value)
      relations relations :=
  List.forall₂_same.mpr fun _ _ => ⟨rfl, rfl, rfl⟩

theorem foldl_push {Detail Value : Type} {step : Detail → Value → Detail}
    (holding : List Value → Detail)
    (pushes : ∀ values value, step (holding values) value = holding (values ++ [value]))
    (values : List Value) : values.foldl step (holding []) = holding values := by
  suffices from_ : ∀ earlier, values.foldl step (holding earlier) = holding (earlier ++ values) by
    exact from_ []
  induction values with
  | nil => simp
  | cons value rest ih =>
    intro earlier
    rw [List.foldl_cons, pushes, ih, List.append_assoc, List.singleton_append]

theorem testDetails_eq {index : CoverageIndex} {views : Views} (keeps : Keeps index views)
    {view : CoverageViewId} (distinct : ((viewTests view (testsOf views)).map (·.id)).Nodup) :
    index.testDetails view = .ok ((viewTests view (testsOf views)).map detailOf) := by
  have summaries : index.testSummariesOf view = (viewTests view (testsOf views)).map testSummary := by
    rw [CoverageIndex.testSummariesOf, CoverageIndex.ofView, keeps.tests.summaries,
      List.filter_map, List.map_map, viewTests, List.map_map]
    rfl
  have ids : ((viewTests view (testsOf views)).map testSummary).map (·.id) =
      (viewTests view (testsOf views)).map (·.id) := by
    rw [List.map_map]
    rfl
  have decoded : List.Forall₂ (fun record relation =>
      record.view = relation.view ∧ record.test = relation.test ∧
        index.testDecision record.value = .ok relation.value)
      index.testDecisions ((testsOf views).flatMap (related (·.decisions))) := by
    apply keeps.tests.decisions.imp
    intro record relation stored
    refine ⟨stored.view, stored.test, ?_⟩
    unfold CoverageIndex.testDecision
    dsimp only
    rw [Outcome.refuseIf_neg (not_lt.mpr stored.inside), Outcome.ok_bind, stored.vectors, stored.id]
  -- The tests after each table: those read before it, and nothing of those after.
  let read (retries : List Nat) (attempts : List TestAttempt) (lines : List SourceLine)
      (hits : List String) (decisions : List TestDecisionResult) (test : TestCoverageResult) :
      IndexedTestDetail :=
    { summary := testSummary test, retries, attempts, hits, decisions, lines }
  unfold CoverageIndex.testDetails
  dsimp only
  rw [summaries, ids, Outcome.refuseIf_neg (not_not.mpr distinct), Outcome.ok_bind, List.map_map,
    keeps.tests.retries, keeps.tests.attempts, keeps.tests.lines, keeps.tests.hits]
  refine Outcome.bind_of_eq_ok (foldlM_relate_tests distinct (by exact fun _ _ => rfl) (forall₂_self _)
    (fun test => read [] [] [] [] [] test) (fun test => read test.retries [] [] [] [] test)
    (fun _ => rfl) fun test => ?retries) ?_
  case retries => exact foldl_push (read · [] [] [] [] test) (fun _ _ => rfl) test.retries
  refine Outcome.bind_of_eq_ok (foldlM_relate_tests distinct (by exact fun _ _ => rfl) (forall₂_self _)
    (fun test => read test.retries [] [] [] [] test)
    (fun test => read test.retries test.attempts [] [] [] test)
    (fun _ => rfl) fun test => ?attempts) ?_
  case attempts =>
    exact foldl_push (read test.retries · [] [] [] test) (fun _ _ => rfl) test.attempts
  refine Outcome.bind_of_eq_ok (foldlM_relate_tests distinct (by exact fun _ _ => rfl) (forall₂_self _)
    (fun test => read test.retries test.attempts [] [] [] test)
    (fun test => read test.retries test.attempts test.lines [] [] test)
    (fun _ => rfl) fun test => ?lines) ?_
  case lines =>
    exact foldl_push (read test.retries test.attempts · [] [] test) (fun _ _ => rfl) test.lines
  refine Outcome.bind_of_eq_ok (foldlM_relate_tests distinct (by exact fun _ _ => rfl) (forall₂_self _)
    (fun test => read test.retries test.attempts test.lines [] [] test)
    (fun test => read test.retries test.attempts test.lines test.hits [] test)
    (fun _ => rfl) fun test => ?hits) ?_
  case hits =>
    exact foldl_push (read test.retries test.attempts test.lines · [] test) (fun _ _ => rfl)
      test.hits
  refine foldlM_relate_tests distinct (by exact fun _ _ => rfl) decoded
    (fun test => read test.retries test.attempts test.lines test.hits [] test) detailOf
    (fun _ => rfl) fun test => ?decisions
  case decisions =>
    exact foldl_push (read test.retries test.attempts test.lines test.hits · test)
      (fun _ _ => rfl) test.decisions

theorem decisionMetadataOf_eq {index : CoverageIndex} {views : Views} (keeps : Keeps index views)
    (view : CoverageViewId) :
    index.decisionMetadataOf view = ((decisionsOf views).filter (·.1 = view)).map (·.2) := by
  rw [CoverageIndex.decisionMetadataOf, CoverageIndex.ofView, keeps.decisions]

end Supercov.Index
