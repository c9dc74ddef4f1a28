import Supercov.Query.DecisionQuery
import Supercov.Query.TestSafety

/-!
# Asking by the id a listing prints

Who asks for a decision by its id gets that decision.  Who asks for a test by its id gets that
test where the id is in lower case, or in the test's name, and names no other test listed.
-/

namespace Supercov.Query

open Report
open Index

variable {toLowercase : String → String}

def Describes (summaries : List IndexedTestSummary) (details : List IndexedTestDetail) : Prop :=
  details.map (·.summary) = summaries

theorem describes_relate {Stored Value : Type} {view : CoverageViewId}
    (decode : Stored → Outcome CoverageIndexError Value)
    {change : Value → IndexedTestDetail → IndexedTestDetail}
    (decodes : ∀ stored, (decode stored).Yields fun _ => True)
    (keeps : ∀ value detail, (change value detail).summary = detail.summary)
    (records : List (TestRelation Stored)) {summaries : List IndexedTestSummary}
    {details : List IndexedTestDetail} (known : Describes summaries details) :
    (records.foldlM (CoverageIndex.relate view decode change) details).Yields
      (Describes summaries) := by
  apply Outcome.Yields.foldlM known
  intro details known record _
  unfold CoverageIndex.relate
  split_ifs
  · exact known
  · trivial
  · apply Outcome.Yields.bind (decodes record.value)
    intro value _
    have same : ∀ detail : IndexedTestDetail,
        (if detail.summary.id = record.test then change value detail else detail).summary =
          detail.summary := by
      intro detail
      split_ifs
      · exact keeps value detail
      · rfl
    simpa [Describes, Function.comp_def, same] using known

theorem testDecision_yields (index : CoverageIndex) (record : TestDecisionRecord) :
    (index.testDecision record).Yields fun _ => True := by
  unfold CoverageIndex.testDecision
  exact Outcome.Yields.refuseIf fun _ => trivial

theorem nodup_testDetails {index : CoverageIndex} {view : CoverageViewId}
    {details : List IndexedTestDetail} (read : index.testDetails view = .ok details) :
    (details.map (·.summary.id)).Nodup := by
  have yields : (index.testDetails view).Yields fun details =>
      (details.map (·.summary.id)).Nodup := by
    unfold CoverageIndex.testDetails
    apply Outcome.Yields.refuseIf
    intro distinct
    rw [not_not] at distinct
    have same : ∀ details, Describes (index.testSummariesOf view) details →
        (details.map (·.summary.id)).Nodup := by
      intro details known
      have ids : details.map (·.summary.id) = (details.map (·.summary)).map (·.id) := by
        rw [List.map_map]
        rfl
      rw [ids, known]
      exact distinct
    have start : Describes (index.testSummariesOf view)
        ((index.testSummariesOf view).map fun summary =>
          { summary, retries := [], attempts := [], hits := [], decisions := [], lines := [] }) := by
      simp [Describes, Function.comp_def]
    apply Outcome.Yields.bind (P := Describes (index.testSummariesOf view))
    · exact describes_relate .ok (fun _ => trivial) (by intros; rfl) _ start
    intro details known
    apply Outcome.Yields.bind (P := Describes (index.testSummariesOf view))
    · exact describes_relate .ok (fun _ => trivial) (by intros; rfl) _ known
    intro details known
    apply Outcome.Yields.bind (P := Describes (index.testSummariesOf view))
    · exact describes_relate .ok (fun _ => trivial) (by intros; rfl) _ known
    intro details known
    apply Outcome.Yields.bind (P := Describes (index.testSummariesOf view))
    · exact describes_relate .ok (fun _ => trivial) (by intros; rfl) _ known
    intro details known
    exact (describes_relate _ (testDecision_yields index) (by intros; rfl) _ known).mono same
  rw [read] at yields
  exact yields

def listedTests (details : List IndexedTestDetail) (kind runner : Option String) :
    List IndexedTestDetail :=
  details.filter fun test =>
    (testsSelected (details.map (·.summary)) kind runner).all (test.summary.id ∈ ·)

def AnswersTest (test : IndexedTestDetail) :
    Outcome QueryError (CoverageTestData × AgentPagination) → Prop
  | .ok (.detail _ _ _ selected, _) => selected.summary = test.summary
  | _ => False

def AnswersDecision (decision : DecisionResult) :
    Outcome DecisionQueryError (CoverageDecisionData × AgentPagination) → Prop
  | .ok (.detail _ _ _ [selected], _) => selected.decision = decision.decision
  | _ => False

/-- The test's id, in lower case, is its id or in its name, and names no other test listed; and of
the decisions on the page the view has each. -/
structure NamesItself (toLowercase : String → String) (listed : List IndexedTestDetail)
    (decisions : List String) (options : CoverageTestQueryOptions) (test : IndexedTestDetail) :
    Prop where
  own : toLowercase test.summary.id = test.summary.id ∨
    (toLowercase test.summary.id).toList <:+: (toLowercase test.summary.name).toList
  others : ∀ other ∈ listed, other.summary.id ≠ test.summary.id →
    other.summary.id ≠ toLowercase test.summary.id ∧
      ¬(toLowercase test.summary.id).toList <:+: (toLowercase other.summary.name).toList
  measured : ∀ decision ∈ page options test.decisions, decision.id ∈ decisions

theorem names_iff {selector : String} {test : IndexedTestSummary} :
    names toLowercase selector test = true ↔ test.id = toLowercase selector ∨
      (toLowercase selector).toList <:+: (toLowercase test.name).toList :=
  decide_eq_true_iff

theorem shownDecision_isOk {decisions : List DecisionMeta} {decision : TestDecisionResult}
    (known : decision.id ∈ decisions.map (·.id)) :
    ∃ shown, shownDecision decisions decision = .ok shown := by
  cases answer : shownDecision decisions decision with
  | ok shown => exact ⟨shown, rfl⟩
  | refused error =>
    unfold shownDecision at answer
    split at answer <;> cases answer
  | crashed => exact absurd known (shownDecision_crashes_iff.mp answer)

theorem collect_shownDecision {decisions : List DecisionMeta} {items : List TestDecisionResult} :
    (∃ shown, Outcome.collect (shownDecision decisions) items = .ok shown) ↔
      ∀ decision ∈ items, decision.id ∈ decisions.map (·.id) := by
  constructor
  · rintro ⟨shown, collected⟩ decision member
    obtain ⟨position, found⟩ := List.getElem?_of_mem member
    obtain ⟨result, -, answer⟩ := Outcome.collect_getElem? collected found
    by_contra unknown
    rw [shownDecision_crashes_iff.mpr unknown] at answer
    cases answer
  · intro known
    exact Outcome.collect_isOk fun decision member => shownDecision_isOk (known decision member)

theorem answersTest_testDetail (index : CoverageIndex) (options : CoverageTestQueryOptions)
    (test other : IndexedTestDetail) :
    AnswersTest test (testDetail index options other) ↔
      other.summary = test.summary ∧ ∀ decision ∈ page options other.decisions,
        decision.id ∈ (index.decisionMetadataOf options.view).map (·.id) := by
  rw [← collect_shownDecision]
  unfold testDetail
  dsimp only
  cases Outcome.collect (shownDecision (index.decisionMetadataOf options.view))
    (page options other.decisions) <;> simp [AnswersTest]

theorem coverageTestQuery_of_listed {index : CoverageIndex} {options : CoverageTestQueryOptions}
    {details : List IndexedTestDetail} {test : IndexedTestDetail} (limit : options.limit ≠ 0)
    (read : index.testDetails options.view = .ok details)
    (listed : test ∈ listedTests details options.kind options.runner) :
    AnswersTest test (coverageTestQuery toLowercase index options) ↔
      ∃ other, (listedTests details options.kind options.runner).filter
          (fun other => names toLowercase options.selector other.summary) = [other] ∧
        AnswersTest test (testDetail index options other) := by
  have selects : testsSelected (details.map (·.summary)) options.kind options.runner ≠ some [] := by
    intro empty
    have within := (List.mem_filter.mp listed).2
    rw [empty] at within
    simp at within
  unfold coverageTestQuery
  rw [Outcome.refuseIf_neg limit, Outcome.ok_bind, read, reading, Outcome.ok_bind]
  unfold selectedTestIds
  dsimp only
  rw [Outcome.refuseIf_neg selects]
  simp only [Outcome.ok_bind, Outcome.pure_eq]
  rw [show matchingTests toLowercase details _ options.selector =
    (listedTests details options.kind options.runner).filter
      (fun other => names toLowercase options.selector other.summary) from rfl]
  split
  · next none =>
    rw [none]
    simp only [List.nil_eq, reduceCtorEq, false_and, exists_false, iff_false]
    split_ifs
    · cases index.testDetails .all <;> simp [reading, AnswersTest]
      split_ifs <;> simp [AnswersTest]
    · simp [AnswersTest]
  · next other sole =>
    rw [sole]
    simp
  · next several _ notSole =>
    simp only [AnswersTest, false_iff, not_exists, not_and]
    exact fun other sole => absurd sole (notSole other)

theorem filter_eq_singleton {Item : Type} {p : Item → Bool} {items : List Item} {item : Item}
    (distinct : items.Nodup) (member : item ∈ items) (holds : p item = true)
    (sole : ∀ other ∈ items, p other = true → other = item) : items.filter p = [item] := by
  have kept : item ∈ items.filter p := List.mem_filter.mpr ⟨member, holds⟩
  have nodup := distinct.filter p
  have all : ∀ other ∈ items.filter p, other = item := fun other among =>
    sole other (List.mem_filter.mp among).1 (List.mem_filter.mp among).2
  cases found : items.filter p with
  | nil =>
    rw [found] at kept
    exact absurd kept List.not_mem_nil
  | cons first rest =>
    rw [found] at nodup all
    obtain ⟨rfl, others⟩ := List.forall_mem_cons.mp all
    cases rest with
    | nil => rfl
    | cons second rest =>
      have same : second = first := others second List.mem_cons_self
      exact absurd (same ▸ List.mem_cons_self) (List.nodup_cons.mp nodup).1

theorem answersTest_iff {index : CoverageIndex} {options : CoverageTestQueryOptions}
    {details : List IndexedTestDetail} {test : IndexedTestDetail}
    (read : index.testDetails options.view = .ok details)
    (listed : test ∈ listedTests details options.kind options.runner)
    (asked : options.selector = test.summary.id) :
    AnswersTest test (coverageTestQuery toLowercase index options) ↔
      options.limit ≠ 0 ∧ NamesItself toLowercase
        (listedTests details options.kind options.runner)
        ((index.decisionMetadataOf options.view).map (·.id)) options test := by
  by_cases limit : options.limit = 0
  · unfold coverageTestQuery
    rw [Outcome.refuseIf_pos limit, Outcome.refused_bind]
    simp [AnswersTest, limit]
  have distinct : (listedTests details options.kind options.runner).Nodup :=
    (List.Nodup.of_map _ (nodup_testDetails read)).filter _
  have byId : ∀ other ∈ listedTests details options.kind options.runner,
      other.summary.id = test.summary.id → other = test := fun other member same =>
    List.inj_on_of_nodup_map (nodup_testDetails read) (List.mem_filter.mp member).1
      (List.mem_filter.mp listed).1 same
  rw [coverageTestQuery_of_listed limit read listed, asked]
  constructor
  · rintro ⟨other, sole, answers⟩
    obtain ⟨same, known⟩ := (answersTest_testDetail index options test other).mp answers
    have among : other ∈ [other] := List.mem_singleton_self other
    rw [← sole] at among
    obtain ⟨member, named⟩ := List.mem_filter.mp among
    have it : other = test := byId other member (congrArg _ same)
    subst it
    refine ⟨limit, ?_, ?_, known⟩
    · exact (names_iff.mp named).imp_left Eq.symm
    · intro another member' different
      have unnamed : ¬names toLowercase other.summary.id another.summary = true := by
        intro named'
        have among' : another ∈ (listedTests details options.kind options.runner).filter
            (fun other' => names toLowercase other.summary.id other'.summary) :=
          List.mem_filter.mpr ⟨member', named'⟩
        rw [sole] at among'
        exact different (congrArg (·.summary.id) (List.mem_singleton.mp among'))
      exact not_or.mp (mt names_iff.mpr unnamed)
  · rintro ⟨-, own, others, known⟩
    refine ⟨test, filter_eq_singleton distinct listed ?_ ?_,
      (answersTest_testDetail index options test test).mpr ⟨rfl, known⟩⟩
    · exact names_iff.mpr (own.imp_left Eq.symm)
    · intro other member named
      by_contra different
      have unnamed := others other member fun same => different (byId other member same)
      exact not_or.mpr unnamed (names_iff.mp named)

theorem answersDecision_iff {index : DecisionIndex} {options : CoverageDecisionQueryOptions}
    {details : List DecisionResult} {decision : DecisionResult} {selected : Option (List String)}
    (filters : selectedTestIds (index.index.testSummariesOf options.view) options.kind
      options.runner = .ok selected)
    (read : index.decisionDetails options.view = .ok details) (listed : decision ∈ details)
    (asked : options.selector = decision.decision.id) :
    AnswersDecision decision (coverageDecisionQuery index options) ↔
      options.limit ≠ 0 ∧ details.countP (·.decision.id = decision.decision.id) = 1 := by
  have kept : decision ∈ details.filter fun other =>
      other.decision.id = decision.decision.id :=
    List.mem_filter.mpr ⟨listed, decide_eq_true rfl⟩
  unfold coverageDecisionQuery matchingDecisions
  by_cases limit : options.limit = 0
  · rw [Outcome.refuseIf_pos limit, Outcome.refused_bind]
    simp [AnswersDecision, limit]
  rw [Outcome.refuseIf_neg limit, Outcome.ok_bind]
  dsimp only
  rw [filters, read, asked, List.countP_eq_length_filter]
  simp only [asking, reading, Outcome.ok_bind]
  cases found : details.filter fun other => other.decision.id = decision.decision.id with
  | nil =>
    rw [found] at kept
    exact absurd kept List.not_mem_nil
  | cons first rest =>
    cases rest with
    | nil =>
      rw [found] at kept
      have it := List.mem_singleton.mp kept
      subst it
      cases selected <;> simp [AnswersDecision, decisionDetailData, selectedDecision, limit]
    | cons second rest => simp [AnswersDecision]

/-- Asked for by the id that a listing prints, under the listing's own filters, a test is the answer
exactly where its id names it and no other, and a decision where it is the one of its id. -/
theorem answers_iff (toLowercase : String → String) :
    (∀ (index : CoverageIndex) (options : CoverageTestQueryOptions)
      (details : List IndexedTestDetail) (test : IndexedTestDetail),
      index.testDetails options.view = .ok details →
      test ∈ listedTests details options.kind options.runner →
      options.selector = test.summary.id →
        (AnswersTest test (coverageTestQuery toLowercase index options) ↔
          options.limit ≠ 0 ∧ NamesItself toLowercase
            (listedTests details options.kind options.runner)
            ((index.decisionMetadataOf options.view).map (·.id)) options test)) ∧
    ∀ (index : DecisionIndex) (options : CoverageDecisionQueryOptions)
      (details : List DecisionResult) (decision : DecisionResult) (selected : Option (List String)),
      selectedTestIds (index.index.testSummariesOf options.view) options.kind options.runner =
        .ok selected →
      index.decisionDetails options.view = .ok details → decision ∈ details →
      options.selector = decision.decision.id →
        (AnswersDecision decision (coverageDecisionQuery index options) ↔
          options.limit ≠ 0 ∧ details.countP (·.decision.id = decision.decision.id) = 1) :=
  ⟨fun _ _ _ _ read listed asked => answersTest_iff read listed asked,
    fun _ _ _ _ _ filters read listed asked => answersDecision_iff filters read listed asked⟩

def asciiLowercase (text : String) : String := String.ofList (text.toList.map Char.toLower)

def addsSummary (id : String) : IndexedTestSummary where
  id := id
  name := "adds"
  file := none
  title := none
  outcome := "passed"
  role := "test"
  attribution := "exact"
  provenance := { runner := "vitest", kind := "unit", project := none, source := "", tags := [] }

def addsDetail (id : String) : IndexedTestDetail where
  summary := addsSummary id
  retries := []
  attempts := []
  hits := []
  decisions := []
  lines := []

def addsIndex (id : String) : CoverageIndex :=
  { CoverageIndex.empty with testSummaries := [(.all, addsSummary id)] }

def askedFor (id : String) : CoverageTestQueryOptions := { asked with selector := id }

theorem answers_lower :
    AnswersTest (addsDetail "t1") (coverageTestQuery asciiLowercase (addsIndex "t1") (askedFor "t1")) :=
  ((answers_iff asciiLowercase).1 (addsIndex "t1") (askedFor "t1") [addsDetail "t1"]
    (addsDetail "t1") rfl (List.mem_singleton_self _) rfl).mpr
    ⟨by decide, Or.inl rfl,
      fun _ member different =>
        absurd (congrArg (·.summary.id) (List.mem_singleton.mp member)) different,
      by simp [addsDetail, page]⟩

/-- A test whose id has a capital letter is not found by it. -/
theorem not_answers_capital :
    ¬∀ (index : CoverageIndex) (options : CoverageTestQueryOptions)
      (details : List IndexedTestDetail) (test : IndexedTestDetail), options.limit ≠ 0 →
      index.testDetails options.view = .ok details →
      test ∈ listedTests details options.kind options.runner →
      options.selector = test.summary.id →
        AnswersTest test (coverageTestQuery asciiLowercase index options) := by
  intro all
  have answers := all (addsIndex "T1") (askedFor "T1") [addsDetail "T1"]
    (addsDetail "T1") (by decide) rfl (List.mem_singleton_self _) rfl
  have named := ((answersTest_iff rfl (List.mem_singleton_self _) rfl).mp answers).2.own
  exact absurd named (by decide)

end Supercov.Query
