import Supercov.Owned.Conservation
import Supercov.Report.Credited

/-!
# What a view of an owned run credits

A test whose record can be told apart from the others of the run is credited with what its record
holds.  Where no two tests share a name, nothing is credited besides but what the totals have.
-/

namespace Supercov.Owned

open Analysis (McdcVector)
open Report

def Package.named (package : Package) : String × List String :=
  (package.directory, package.evidence.tests.map (·.name))

def testIdOf (directory name : String) : String := directory ++ "::" ++ name

/-- No other test of the run has the name, and no other result the id. -/
structure ToldApart (named : List (String × List String)) (language directory name : String) :
    Prop where
  alone : (named.flatMap Prod.snd).count name ≤ 1
  own : ∀ other ∈ named, ∀ name' ∈ other.2,
    testIdOf other.1 name' = testIdOf directory name → name' = name
  apart : language ++ "::background" ≠ testIdOf directory name

section Records

variable {Detail Model : Type} (digest : List String → String)
  (inputs : OwnedRunInputs Detail Model) {packages : List Package} {generatedAt : String}
  {model : CoverageModelDeclaration} {view : CoverageView}

/-- The view that is made of the run's results. -/
def Viewed (packages : List Package) (generatedAt : String) (model : CoverageModelDeclaration)
    (view : CoverageView) : Prop :=
  let request := (buildFrontendRun digest (inputs.ofPackages packages)).request
  createCoverageView request.manifest request.rawResults generatedAt model = .ok view

/-- What a record holds, as a view has it. -/
def OwnedTestEvidence.Says (record : OwnedTestEvidence) : Item → Prop
  | .hit id => id ∈ record.reached inputs.byProbe
  | .vector decision vector => (decision, vector) ∈ record.evaluated inputs.manifest

variable {digest inputs}

theorem mem_itemsOf {raw : RawTestResult} (browser : raw.browser = []) (server : raw.server = [])
    (item : Item) :
    item ∈ itemsOf (settled inputs.manifest) raw ↔
      match item with
      | .hit id => id ∈ hitsOf raw
      | .vector decision vector =>
        Measures (settled inputs.manifest) decision ∧ (decision, vector) ∈ vectorsOf raw := by
  simp only [itemsOf, browser, server, List.append_nil, List.flatMap_nil, List.mem_flatMap,
    snapshotItems, List.mem_append, List.mem_map, mem_decisionItems]
  cases item with
  | hit id => simp [hitsOf]
  | vector decision vector =>
    simp only [vectorsOf, reduceCtorEq, and_false, exists_false, or_false, Set.mem_ofPred_eq,
      Item.vector.injEq]
    constructor
    · rintro ⟨seen, member, held, among, measured, vector', inside, rfl, rfl⟩
      exact ⟨measured, seen, member, held, among, rfl, inside⟩
    · rintro ⟨measured, seen, member, held, among, rfl, inside⟩
      exact ⟨seen, member, held, among, measured, vector, inside, rfl, rfl⟩

theorem measures_of_evaluated {record : OwnedTestEvidence} {decision : String} {vector : McdcVector}
    (evaluated : (decision, vector) ∈ record.evaluated inputs.manifest) :
    Measures (settled inputs.manifest) decision := by
  obtain ⟨index, declared, found, _, _, same⟩ := evaluated
  cases same
  rw [Measures, decisions_settled, List.any_eq_true]
  exact ⟨declared, List.mem_of_getElem? found, decide_eq_true rfl⟩

theorem mem_items_testResult (outcome : OwnedTestOutcome) (item : Item) :
    item ∈ itemsOf (settled inputs.manifest) (inputs.testResult digest outcome) ↔
      (inputs.recordOf outcome).Says inputs item := by
  rw [mem_itemsOf rfl rfl]
  cases item with
  | hit id => rw [hits_testResult]; rfl
  | vector decision vector =>
    rw [vectors_testResult]
    exact and_iff_right_of_imp measures_of_evaluated

theorem not_says_empty (item : Item) : ¬ OwnedTestEvidence.empty.Says inputs item := by
  cases item <;> simp [OwnedTestEvidence.Says]

theorem eq_of_count {records : List OwnedTestEvidence} {record other : OwnedTestEvidence}
    (alone : (records.map (·.name)).count record.name ≤ 1) (member : record ∈ records)
    (member' : other ∈ records) (same : other.name = record.name) : other = record := by
  rw [List.count, List.countP_map, List.countP_eq_length_filter] at alone
  have among {one : OwnedTestEvidence} (inside : one ∈ records) (named : one.name = record.name) :
      one ∈ records.filter ((· == record.name) ∘ (·.name)) :=
    List.mem_filter.mpr ⟨inside, by simpa using named⟩
  have held := among member rfl
  have held' := among member' same
  generalize records.filter ((· == record.name) ∘ (·.name)) = few at alone held held'
  rcases few with _ | ⟨only, _ | ⟨second, rest⟩⟩
  · cases held
  · exact (List.mem_singleton.mp held').trans (List.mem_singleton.mp held).symm
  · simp at alone

theorem mem_recordsOf {package : Package} {record : OwnedTestEvidence} :
    (package, record) ∈ recordsOf packages ↔ package ∈ packages ∧ record ∈ package.evidence.tests := by
  simp [recordsOf]

theorem eq_of_alone {record other : OwnedTestEvidence}
    (alone : ((packages.map Package.named).flatMap Prod.snd).count record.name ≤ 1)
    (member : record ∈ packages.flatMap (·.evidence.tests))
    (member' : other ∈ packages.flatMap (·.evidence.tests)) (same : other.name = record.name) :
    other = record := by
  refine eq_of_count ?_ member member' same
  rw [List.flatMap_map] at alone
  rw [List.map_flatMap]
  exact alone

theorem says_recordOf {package : Package} {record : OwnedTestEvidence}
    (member : (package, record) ∈ recordsOf packages)
    (alone : ((packages.map Package.named).flatMap Prod.snd).count record.name ≤ 1) (item : Item) :
    ((inputs.ofPackages packages).recordOf (package.outcome record)).Says inputs item ↔
      record.unattributed = false ∧ record.Says inputs item := by
  cases attributed : record.unattributed with
  | true =>
    rw [recordOf_unattributed attributed]
    exact iff_of_false (not_says_empty item) (by simp)
  | false =>
    obtain ⟨last, named⟩ := exists_recorded (attributed_iff.mpr ⟨package, member, attributed⟩)
    have own : last = record :=
      eq_of_alone alone (List.mem_flatMap.mpr ⟨package, mem_recordsOf.mp member⟩)
        (List.mem_reverse.mp (List.mem_of_find?_eq_some named)) (by simpa using List.find?_some named)
    rw [recordOf_attributed attributed named, own, and_iff_right rfl]

/-- What the results hold: what is said of each test, and what no test's record claims. -/
theorem mem_log {test : String} {item : Item} :
    (test, item) ∈ logOf (settled inputs.manifest)
        (buildFrontendRun digest (inputs.ofPackages packages)).request.rawResults ↔
      (∃ entry ∈ recordsOf packages, testIdOf entry.1.directory entry.2.name = test ∧
        ((inputs.ofPackages packages).recordOf (entry.1.outcome entry.2)).Says inputs item) ∨
      inputs.declaration.language ++ "::background" = test ∧ ∃ id, item = .hit id ∧
        id ∈ reachedBy inputs.byProbe (unclaimed (inputs.ofPackages packages).evidence) := by
  have results : (buildFrontendRun digest (inputs.ofPackages packages)).request.rawResults =
      (inputs.ofPackages packages).rawResults digest := rfl
  have logged (raw : RawTestResult) : (test, item) ∈ (itemsOf (settled inputs.manifest) raw).map
      (fun item => (rawTestId raw, item)) ↔
        rawTestId raw = test ∧ item ∈ itemsOf (settled inputs.manifest) raw := by
    simp only [List.mem_map, Prod.mk.injEq]
    constructor
    · rintro ⟨_, member, same, rfl⟩
      exact ⟨same, member⟩
    · rintro ⟨same, member⟩
      exact ⟨item, member, same, rfl⟩
  rw [results, logOf, List.mem_flatMap, OwnedRunInputs.rawResults, outcomes_ofPackages]
  simp only [logged, List.mem_append, or_and_right, exists_or, List.map_map]
  apply or_congr
  · simp only [List.mem_map, exists_exists_and_eq_and, Function.comp_apply]
    refine exists_congr fun entry => and_congr_right fun _ => and_congr_right fun _ => ?_
    exact @mem_items_testResult Detail Model digest (inputs.ofPackages packages) _ item
  · have items : item ∈ itemsOf (settled inputs.manifest)
        ((inputs.ofPackages packages).background digest) ↔ ∃ id, item = .hit id ∧
          id ∈ reachedBy inputs.byProbe (unclaimed (inputs.ofPackages packages).evidence) := by
      rw [mem_itemsOf rfl rfl]
      cases item with
      | hit id =>
        rw [hits_background]
        simp
        rfl
      | vector decision vector =>
        rw [vectors_background]
        simp
    split
    · next nothing => simp [nothing, reachedBy]
    · simp only [List.mem_singleton, exists_eq_left, items]
      rfl

/-- A test whose record can be told apart is credited with what the record holds, and with nothing
where nothing can be credited to it. -/
theorem record_credits_iff {package : Package} {record : OwnedTestEvidence}
    (member : (package, record) ∈ recordsOf packages)
    (apart : ToldApart (packages.map Package.named) inputs.declaration.language package.directory
      record.name)
    (viewed : Viewed digest inputs packages generatedAt model view) (shown : Shown) :
    view.Credits (testIdOf package.directory record.name) shown ↔ record.unattributed = false ∧
      ∃ item, record.Says inputs item ∧ Serves (settled inputs.manifest) item shown := by
  obtain ⟨_, _, _, noted, built⟩ := exists_noted viewed
  rw [built.credits_iff noted]
  have logged (item : Item) : (testIdOf package.directory record.name, item) ∈
      logOf (settled inputs.manifest)
        (buildFrontendRun digest (inputs.ofPackages packages)).request.rawResults ↔
      record.unattributed = false ∧ record.Says inputs item := by
    rw [mem_log]
    constructor
    · rintro (⟨⟨other, held⟩, among, same, said⟩ | ⟨same, -⟩)
      · obtain ⟨here, inside⟩ := mem_recordsOf.mp among
        have named : held.name = record.name := apart.own _ (List.mem_map_of_mem here) held.name
          (List.mem_map_of_mem inside) same
        have own : held = record :=
          eq_of_alone apart.alone (List.mem_flatMap.mpr ⟨package, mem_recordsOf.mp member⟩)
            (List.mem_flatMap.mpr ⟨other, here, inside⟩) named
        subst own
        exact (says_recordOf among apart.alone item).mp said
      · exact absurd same apart.apart
    · intro said
      exact .inl ⟨(package, record), member, rfl, (says_recordOf member apart.alone item).mpr said⟩
  refine (exists_congr fun item => and_congr_left fun _ => logged item).trans ?_
  simp only [and_assoc, exists_and_left]
  rfl

/-- Where no two tests share a name, a view credits something to somebody exactly where a record
holds it, or it is a hit of the run's totals. -/
theorem exists_credits_iff (distinct : ((packages.map Package.named).flatMap Prod.snd).Nodup)
    (viewed : Viewed digest inputs packages generatedAt model view) (shown : Shown) :
    (∃ test, view.Credits test shown) ↔ ∃ item, ((∃ record, Attributed packages record ∧
        record.Says inputs item) ∨ ∃ id, item = .hit id ∧
          id ∈ (mergeEvidence (packages.map (·.evidence))).reached inputs.byProbe) ∧
      Serves (settled inputs.manifest) item shown := by
  obtain ⟨_, _, _, noted, built⟩ := exists_noted viewed
  have own (item : Item) : (∃ entry ∈ recordsOf packages,
      ((inputs.ofPackages packages).recordOf (entry.1.outcome entry.2)).Says inputs item) ↔
        ∃ record, Attributed packages record ∧ record.Says inputs item := by
    constructor
    · rintro ⟨⟨package, record⟩, member, said⟩
      obtain ⟨credited, held⟩ :=
        (says_recordOf member (List.nodup_iff_count_le_one.mp distinct _) item).mp said
      exact ⟨record, attributed_iff.mpr ⟨package, member, credited⟩, held⟩
    · rintro ⟨record, attributed, held⟩
      obtain ⟨package, member, credited⟩ := attributed_iff.mp attributed
      exact ⟨_, member, (says_recordOf member (List.nodup_iff_count_le_one.mp distinct _) item).mpr
        ⟨credited, held⟩⟩
  have logged (item : Item) : (∃ test, (test, item) ∈ logOf (settled inputs.manifest)
      (buildFrontendRun digest (inputs.ofPackages packages)).request.rawResults) ↔
        (∃ record, Attributed packages record ∧ record.Says inputs item) ∨ ∃ id, item = .hit id ∧
          id ∈ (mergeEvidence (packages.map (·.evidence))).reached inputs.byProbe := by
    have all : (∃ test, (test, item) ∈ logOf (settled inputs.manifest)
        (buildFrontendRun digest (inputs.ofPackages packages)).request.rawResults) ↔
          (∃ record, Attributed packages record ∧ record.Says inputs item) ∨ ∃ id, item = .hit id ∧
            id ∈ reachedBy inputs.byProbe
              (unclaimed (mergeEvidence (packages.map (·.evidence)))) := by
      simp only [mem_log, exists_or, ← own, exists_and_right, exists_eq', true_and]
      refine or_congr_left ?_
      constructor
      · rintro ⟨_, entry, member, -, said⟩
        exact ⟨entry, member, said⟩
      · rintro ⟨entry, member, said⟩
        exact ⟨_, entry, member, rfl, said⟩
    rw [all]
    cases item with
    | hit id => simpa [OwnedTestEvidence.Says] using @reached_split Detail Model inputs packages id
    | vector decision vector => simp
  simp only [built.credits_iff noted]
  rw [exists_comm]
  refine exists_congr fun item => ?_
  rw [exists_and_right]
  exact and_congr_left fun _ => logged item

end Records

end Supercov.Owned
