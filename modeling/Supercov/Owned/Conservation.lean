import Supercov.Owned.Run
import Mathlib.Data.Set.Lattice

/-!
# What reaches the published run

The hits and vectors of a run's results, against what its processes recorded.
A result is made from the last record of its test's name, whichever process
wrote it, and the background result holds no vectors: nothing is lost or moved
exactly where neither matters.
-/

namespace Supercov.Owned

open Analysis (McdcVector)
open Ordered (mem_setOf)
open Supercov.Report
open Supercov.Runtime

section Reached

variable (byProbe : Index → Option String) (manifest : CoverageManifest)

def reachedBy (probes : List (Index × BitVec 32)) : Set String :=
  {id | ∃ hit ∈ probes, byProbe hit.1 = some id}

def evaluatedBy (vectors : List PackedVector) : Set (String × McdcVector) :=
  {seen | ∃ index decision, manifest.decisions[index]? = some decision ∧
    ∃ key, ⟨.ofNat 32 index, key⟩ ∈ vectors ∧
      seen = (decision.id, unpackVector key (decision.conditions.length % 256))}

def OwnedTestEvidence.reached (record : OwnedTestEvidence) : Set String :=
  reachedBy byProbe record.probes

def OwnedTestEvidence.evaluated (record : OwnedTestEvidence) : Set (String × McdcVector) :=
  evaluatedBy manifest record.vectors

/-- The obligations of the probes a process's totals say it reached. -/
def OwnedEvidence.reached (evidence : OwnedEvidence) : Set String :=
  {id | ∃ index, evidence.global.getD index 0 ≠ 0 ∧ byProbe (.ofNat 32 index) = some id}

def OwnedEvidence.evaluated (evidence : OwnedEvidence) : Set (String × McdcVector) :=
  {seen | ∃ index decision, manifest.decisions[index]? = some decision ∧
    ∃ key ∈ evidence.decisionVectors.getD index [],
      seen = (decision.id, unpackVector key (decision.conditions.length % 256))}

end Reached

def hitsOf (result : RawTestResult) : Set String :=
  {id | ∃ seen ∈ result.runtime, id ∈ seen.hits}

def vectorsOf (result : RawTestResult) : Set (String × McdcVector) :=
  {vector | ∃ seen ∈ result.runtime, ∃ decision ∈ seen.decisions,
    decision.id = vector.1 ∧ vector.2 ∈ decision.vectors}

def recordsOf (packages : List Package) : List (Package × OwnedTestEvidence) :=
  packages.flatMap fun package => package.evidence.tests.map (package, ·)

section Conservation

variable {Detail Model : Type} (inputs : OwnedRunInputs Detail Model) (packages : List Package)

/-- No coverage is lost or moved: the result of every attributed record is its
own, and the results together are the run's totals. -/
structure Conserves (results : List RawTestResult) : Prop where
  own : ∀ (position : Nat) (package : Package) (record : OwnedTestEvidence),
    (recordsOf packages)[position]? = some (package, record) → record.unattributed = false →
      ∃ result : RawTestResult, results[position]? = some result ∧
        result.test = record.name ∧ result.provenance.project = some package.directory ∧
        hitsOf result = record.reached inputs.byProbe ∧
        vectorsOf result = record.evaluated inputs.manifest
  hits : (⋃ result ∈ results, hitsOf result) =
    (mergeEvidence (packages.map (·.evidence))).reached inputs.byProbe
  vectors : (⋃ result ∈ results, vectorsOf result) =
    (mergeEvidence (packages.map (·.evidence))).evaluated inputs.manifest

/-- Every record something can be credited to. -/
def Attributed (record : OwnedTestEvidence) : Prop :=
  (∃ package ∈ packages, record ∈ package.evidence.tests) ∧ record.unattributed = false

def NamesAgree : Prop :=
  ∀ record, Attributed packages record →
    ∀ last, recorded (packages.flatMap (·.evidence.tests)) record.name = some last →
      last.reached inputs.byProbe = record.reached inputs.byProbe ∧
        last.evaluated inputs.manifest = record.evaluated inputs.manifest

def ProbesTotalled : Prop :=
  ∀ record, Attributed packages record → ∀ id ∈ record.reached inputs.byProbe,
    ∃ package ∈ packages, id ∈ package.evidence.reached inputs.byProbe

def VectorsClaimed : Prop :=
  ∀ seen, (∃ package ∈ packages, seen ∈ package.evidence.evaluated inputs.manifest) ↔
    ∃ record, Attributed packages record ∧ seen ∈ record.evaluated inputs.manifest

end Conservation

/-! ## Merging what processes wrote -/

theorem tests_foldl_mergePart (parts : List OwnedEvidence) (merged : OwnedEvidence) :
    (parts.foldl mergePart merged).tests = merged.tests ++ parts.flatMap (·.tests) := by
  induction parts generalizing merged with
  | nil => simp
  | cons part parts ih => rw [List.foldl_cons, ih, mergePart, List.flatMap_cons, List.append_assoc]

theorem tests_mergeEvidence (parts : List OwnedEvidence) :
    (mergeEvidence parts).tests = parts.flatMap (·.tests) := by
  rw [mergeEvidence, tests_foldl_mergePart]
  rfl

theorem global_mergePart (merged part : OwnedEvidence) (index : Nat) :
    (mergePart merged part).global.getD index 0 ≠ 0 ↔
      merged.global.getD index 0 ≠ 0 ∨ part.global.getD index 0 ≠ 0 := by
  simp only [mergePart, getD_updateEach_resize]
  cases found : part.global[index]? with
  | none => simp [List.getD_eq_getElem?_getD, found]
  | some mask =>
    have joined : merged.global[index]?.getD 0 ||| mask = 0 ↔
        merged.global[index]?.getD 0 = 0 ∧ mask = 0 := BitVec.or_eq_zero_iff
    simp only [Option.elim_some, List.getD_eq_getElem?_getD, found, Option.getD_some, ne_eq, joined]
    tauto

theorem decisionVectors_mergePart (merged part : OwnedEvidence) (index : Nat) (key : Word) :
    key ∈ (mergePart merged part).decisionVectors.getD index [] ↔
      key ∈ merged.decisionVectors.getD index [] ∨ key ∈ part.decisionVectors.getD index [] := by
  simp only [mergePart, ← part.aligned, getD_updateEach_resize]
  cases found : part.decisionVectors[index]? with
  | none => simp [List.getD_eq_getElem?_getD, found]
  | some keys =>
    rw [Option.elim_some, mem_foldl_including, List.getD_eq_getElem?_getD (l := part.decisionVectors),
      found, Option.getD_some]

section Merged

variable (byProbe : Index → Option String) (manifest : CoverageManifest)

theorem reached_mergePart (merged part : OwnedEvidence) (id : String) :
    id ∈ (mergePart merged part).reached byProbe ↔
      id ∈ merged.reached byProbe ∨ id ∈ part.reached byProbe := by
  simp only [OwnedEvidence.reached, Set.mem_ofPred_eq, global_mergePart]
  grind

theorem evaluated_mergePart (merged part : OwnedEvidence) (seen : String × McdcVector) :
    seen ∈ (mergePart merged part).evaluated manifest ↔
      seen ∈ merged.evaluated manifest ∨ seen ∈ part.evaluated manifest := by
  simp only [OwnedEvidence.evaluated, Set.mem_ofPred_eq, decisionVectors_mergePart]
  grind

theorem reached_mergeEvidence (parts : List OwnedEvidence) (id : String) :
    id ∈ (mergeEvidence parts).reached byProbe ↔ ∃ part ∈ parts, id ∈ part.reached byProbe := by
  induction parts using List.reverseRecOn with
  | nil => simp [mergeEvidence, OwnedEvidence.reached, OwnedEvidence.empty]
  | append_singleton parts part ih =>
    rw [mergeEvidence] at ih ⊢
    rw [List.foldl_append, List.foldl_cons, List.foldl_nil, reached_mergePart, ih]
    simp [or_and_right, exists_or]

theorem evaluated_mergeEvidence (parts : List OwnedEvidence) (seen : String × McdcVector) :
    seen ∈ (mergeEvidence parts).evaluated manifest ↔
      ∃ part ∈ parts, seen ∈ part.evaluated manifest := by
  induction parts using List.reverseRecOn with
  | nil => simp [mergeEvidence, OwnedEvidence.evaluated, OwnedEvidence.empty]
  | append_singleton parts part ih =>
    rw [mergeEvidence] at ih ⊢
    rw [List.foldl_append, List.foldl_cons, List.foldl_nil, evaluated_mergePart, ih]
    simp [or_and_right, exists_or]

end Merged

/-! ## What a result holds -/

section Results

variable (byProbe : Index → Option String) (manifest : CoverageManifest)

theorem mem_observedHits {probes : List (Index × BitVec 32)} {id : String} :
    id ∈ observedHits byProbe probes ↔ id ∈ reachedBy byProbe probes := by
  simp [observedHits, reachedBy, mem_setOf]

theorem mem_keysOf {vectors : List PackedVector} {decision : Index} {key : Word} :
    key ∈ keysOf vectors decision ↔ ⟨decision, key⟩ ∈ vectors := by
  simp only [keysOf, List.mem_map, List.mem_filter, decide_eq_true_eq]
  constructor
  · intro ⟨vector, ⟨member, of⟩, same⟩
    subst of same
    exact member
  · intro member
    exact ⟨_, ⟨member, rfl⟩, rfl⟩

theorem mem_observedDecisions {vectors : List PackedVector} {seen : DecisionSnapshot} :
    seen ∈ observedDecisions manifest vectors ↔
      ∃ index decision, manifest.decisions[index]? = some decision ∧
        keysOf vectors (.ofNat 32 index) ≠ [] ∧
        seen = observed decision (keysOf vectors (.ofNat 32 index)) := by
  simp only [observedDecisions, List.mem_filterMap, Prod.exists, List.mem_zipIdx_iff_getElem?]
  rw [exists_comm]
  apply exists₂_congr
  intro index decision
  cases keysOf vectors (.ofNat 32 index) with
  | nil => simp
  | cons key keys => simp [eq_comm]

theorem vectors_observedDecisions {vectors : List PackedVector} {seen : String × McdcVector} :
    (∃ decision ∈ observedDecisions manifest vectors,
        decision.id = seen.1 ∧ seen.2 ∈ decision.vectors) ↔ seen ∈ evaluatedBy manifest vectors := by
  obtain ⟨id, vector⟩ := seen
  simp only [mem_observedDecisions, evaluatedBy, Set.mem_ofPred_eq, Prod.mk.injEq]
  constructor
  · rintro ⟨_, ⟨index, decision, found, _, rfl⟩, rfl, member⟩
    obtain ⟨key, recorded, rfl⟩ := List.mem_map.mp member
    exact ⟨index, decision, found, key, mem_keysOf.mp recorded, rfl, rfl⟩
  · rintro ⟨index, decision, found, key, recorded, rfl, rfl⟩
    have member := mem_keysOf.mpr recorded
    exact ⟨_, ⟨index, decision, found, List.ne_nil_of_mem member, rfl⟩, rfl,
      List.mem_map.mpr ⟨key, member, rfl⟩⟩

@[simp]
theorem reached_empty : OwnedTestEvidence.empty.reached byProbe = ∅ := by
  simp [OwnedTestEvidence.reached, reachedBy, OwnedTestEvidence.empty]

@[simp]
theorem evaluatedBy_nil : evaluatedBy manifest [] = ∅ := by
  simp [evaluatedBy]

@[simp]
theorem evaluated_empty : OwnedTestEvidence.empty.evaluated manifest = ∅ :=
  evaluatedBy_nil manifest

variable {Detail Model : Type} (digest : List String → String)
  (inputs : OwnedRunInputs Detail Model)

theorem hits_testResult (outcome : OwnedTestOutcome) :
    hitsOf (inputs.testResult digest outcome) = (inputs.recordOf outcome).reached inputs.byProbe := by
  ext id
  simp [hitsOf, OwnedRunInputs.testResult, snapshot, mem_observedHits,
    OwnedTestEvidence.reached]

theorem vectors_testResult (outcome : OwnedTestOutcome) :
    vectorsOf (inputs.testResult digest outcome) =
      (inputs.recordOf outcome).evaluated inputs.manifest := by
  ext seen
  simp [vectorsOf, OwnedRunInputs.testResult, snapshot, vectors_observedDecisions,
    OwnedTestEvidence.evaluated]

theorem hits_background :
    hitsOf (inputs.background digest) = reachedBy inputs.byProbe (unclaimed inputs.evidence) := by
  ext id
  simp [hitsOf, OwnedRunInputs.background, snapshot, mem_observedHits]

theorem vectors_background : vectorsOf (inputs.background digest) = ∅ := by
  ext seen
  simp [vectorsOf, OwnedRunInputs.background, snapshot, vectors_observedDecisions]

theorem hits_rawResults (id : String) :
    (∃ result ∈ inputs.rawResults digest, id ∈ hitsOf result) ↔
      (∃ outcome ∈ inputs.outcomes, id ∈ (inputs.recordOf outcome).reached inputs.byProbe) ∨
        id ∈ reachedBy inputs.byProbe (unclaimed inputs.evidence) := by
  simp only [OwnedRunInputs.rawResults, List.mem_append, or_and_right, exists_or, List.mem_map]
  apply or_congr
  · simp [hits_testResult]
  · split
    · next nothing => simp [nothing, reachedBy]
    · simp [hits_background]

theorem vectors_rawResults (seen : String × McdcVector) :
    (∃ result ∈ inputs.rawResults digest, seen ∈ vectorsOf result) ↔
      ∃ outcome ∈ inputs.outcomes, seen ∈ (inputs.recordOf outcome).evaluated inputs.manifest := by
  simp only [OwnedRunInputs.rawResults, List.mem_append, or_and_right, exists_or, List.mem_map]
  split <;> simp [vectors_testResult, vectors_background]

end Results

/-! ## Each record's own result -/

section Own

variable {Detail Model : Type} (digest : List String → String)
  {inputs : OwnedRunInputs Detail Model} {packages : List Package}

theorem attributed_iff {record : OwnedTestEvidence} :
    Attributed packages record ↔
      ∃ package, (package, record) ∈ recordsOf packages ∧ record.unattributed = false := by
  simp only [Attributed, recordsOf, List.mem_flatMap, List.mem_map, Prod.mk.injEq]
  grind

theorem outcomes_ofPackages :
    (inputs.ofPackages packages).outcomes =
      (recordsOf packages).map fun entry => entry.1.outcome entry.2 := by
  simp [OwnedRunInputs.ofPackages, recordsOf, List.map_flatMap, List.map_map, Function.comp_def]

theorem exists_recorded {record : OwnedTestEvidence} (attributed : Attributed packages record) :
    ∃ last, recorded (packages.flatMap (·.evidence.tests)) record.name = some last := by
  obtain ⟨⟨package, member, recordedThere⟩, _⟩ := attributed
  rw [← Option.isSome_iff_exists, recorded, List.find?_isSome]
  refine ⟨record, ?_, decide_eq_true rfl⟩
  rw [List.mem_reverse, List.mem_flatMap]
  exact ⟨package, member, recordedThere⟩

theorem recordOf_attributed {package : Package} {record last : OwnedTestEvidence}
    (attributed : record.unattributed = false)
    (named : recorded (packages.flatMap (·.evidence.tests)) record.name = some last) :
    (inputs.ofPackages packages).recordOf (package.outcome record) = last := by
  simp only [OwnedRunInputs.recordOf, OwnedRunInputs.ofPackages, Package.outcome, attributed,
    tests_mergeEvidence, List.flatMap_map, named, Bool.not_false, if_true, Option.getD_some]

theorem recordOf_unattributed {package : Package} {record : OwnedTestEvidence}
    (unattributed : record.unattributed = true) :
    (inputs.ofPackages packages).recordOf (package.outcome record) = .empty := by
  simp [OwnedRunInputs.recordOf, Package.outcome, unattributed]

theorem exists_outcome_iff (agree : NamesAgree inputs packages) {P : OwnedTestEvidence → Prop}
    (nothing : ¬ P .empty)
    (same : ∀ record last : OwnedTestEvidence,
      last.reached inputs.byProbe = record.reached inputs.byProbe →
      last.evaluated inputs.manifest = record.evaluated inputs.manifest →
        (P last ↔ P record)) :
    (∃ outcome ∈ (inputs.ofPackages packages).outcomes,
        P ((inputs.ofPackages packages).recordOf outcome)) ↔
      ∃ record, Attributed packages record ∧ P record := by
  have own (package : Package) (record : OwnedTestEvidence)
      (member : (package, record) ∈ recordsOf packages) (credited : record.unattributed = false) :
      P ((inputs.ofPackages packages).recordOf (package.outcome record)) ↔ P record := by
    have attributed : Attributed packages record := attributed_iff.mpr ⟨package, member, credited⟩
    obtain ⟨last, named⟩ := exists_recorded attributed
    rw [recordOf_attributed credited named]
    exact (agree record attributed last named).elim (same record last)
  rw [outcomes_ofPackages]
  constructor
  · intro ⟨outcome, handedOver, held⟩
    obtain ⟨⟨package, record⟩, member, rfl⟩ := List.mem_map.mp handedOver
    cases credited : record.unattributed with
    | true =>
      rw [recordOf_unattributed credited] at held
      exact absurd held nothing
    | false =>
      exact ⟨record, attributed_iff.mpr ⟨package, member, credited⟩,
        (own package record member credited).mp held⟩
  · intro ⟨record, attributed, held⟩
    obtain ⟨package, member, credited⟩ := attributed_iff.mp attributed
    exact ⟨_, List.mem_map_of_mem member, (own package record member credited).mpr held⟩

theorem rawResults_at {position : Nat} {package : Package} {record : OwnedTestEvidence}
    (found : (recordsOf packages)[position]? = some (package, record)) :
    ((inputs.ofPackages packages).rawResults digest)[position]? =
      some ((inputs.ofPackages packages).testResult digest (package.outcome record)) := by
  rw [OwnedRunInputs.rawResults, outcomes_ofPackages, List.map_map]
  rw [List.getElem?_append_left (by
    rw [List.length_map]
    exact (List.getElem?_eq_some_iff.mp found).1)]
  rw [List.getElem?_map, found]
  rfl

theorem own_iff :
    (∀ (position : Nat) (package : Package) (record : OwnedTestEvidence),
      (recordsOf packages)[position]? = some (package, record) → record.unattributed = false →
        ∃ result, ((inputs.ofPackages packages).rawResults digest)[position]? = some result ∧
          result.test = record.name ∧ result.provenance.project = some package.directory ∧
          hitsOf result = record.reached inputs.byProbe ∧
          vectorsOf result = record.evaluated inputs.manifest) ↔
      NamesAgree inputs packages := by
  constructor
  · intro own record attributed last named
    obtain ⟨package, member, credited⟩ := attributed_iff.mp attributed
    obtain ⟨position, found⟩ := List.mem_iff_getElem?.mp member
    obtain ⟨result, resultFound, -, -, hits, vectors⟩ := own position package record found credited
    rw [rawResults_at digest found, Option.some.injEq] at resultFound
    subst resultFound
    rw [hits_testResult, recordOf_attributed credited named] at hits
    rw [vectors_testResult, recordOf_attributed credited named] at vectors
    exact ⟨hits, vectors⟩
  · intro agree position package record found credited
    have attributed : Attributed packages record :=
      attributed_iff.mpr ⟨package, List.mem_of_getElem? found, credited⟩
    obtain ⟨last, named⟩ := exists_recorded attributed
    obtain ⟨hits, vectors⟩ := agree record attributed last named
    refine ⟨_, rawResults_at digest found, rfl, rfl, ?_, ?_⟩
    · rw [hits_testResult, recordOf_attributed credited named]
      exact hits
    · rw [vectors_testResult, recordOf_attributed credited named]
      exact vectors

theorem reached_split (id : String) :
    (∃ record, Attributed packages record ∧ id ∈ record.reached inputs.byProbe) ∨
        id ∈ reachedBy inputs.byProbe
          (unclaimed (mergeEvidence (packages.map (·.evidence)))) ↔
      (∃ record, Attributed packages record ∧ id ∈ record.reached inputs.byProbe) ∨
        id ∈ (mergeEvidence (packages.map (·.evidence))).reached inputs.byProbe := by
  have claims (probe : Index) :
      probe ∈ claimed (mergeEvidence (packages.map (·.evidence))).tests ↔
        ∃ record, Attributed packages record ∧ ∃ hit ∈ record.probes, hit.1 = probe := by
    simp only [claimed, tests_mergeEvidence, Attributed, List.mem_flatMap, List.mem_filter,
      List.mem_map, List.flatMap_map, Bool.not_eq_true']
  have slots (index : Nat) (mask : BitVec 32)
      (found : (mergeEvidence (packages.map (·.evidence))).global[index]? = some mask) :
      (mergeEvidence (packages.map (·.evidence))).global.getD index 0 = mask := by
    rw [List.getD_eq_getElem?_getD, found, Option.getD_some]
  constructor
  · intro h
    rcases h with attributed | ⟨hit, member, answers⟩
    · exact Or.inl attributed
    · apply Or.inr
      simp only [unclaimed, List.mem_filterMap, Prod.exists, List.mem_zipIdx_iff_getElem?] at member
      obtain ⟨mask, index, found, kept⟩ := member
      split at kept
      · next reached =>
        obtain rfl := Option.some.inj kept
        exact ⟨index, by rw [slots index mask found]; exact reached.1, answers⟩
      · cases kept
  · intro h
    rcases h with attributed | ⟨index, reached, answers⟩
    · exact Or.inl attributed
    · by_cases owned : BitVec.ofNat 32 index ∈
        claimed (mergeEvidence (packages.map (·.evidence))).tests
      · obtain ⟨record, attributed, hit, member, same⟩ := (claims _).mp owned
        exact Or.inl ⟨record, attributed, hit, member, by rw [same]; exact answers⟩
      · apply Or.inr
        cases found : (mergeEvidence (packages.map (·.evidence))).global[index]? with
        | none => simp [List.getD_eq_getElem?_getD, found] at reached
        | some mask =>
          rw [slots index mask found] at reached
          refine ⟨(.ofNat 32 index, mask), ?_, answers⟩
          simp only [unclaimed, List.mem_filterMap, Prod.exists, List.mem_zipIdx_iff_getElem?]
          exact ⟨mask, index, found, if_pos ⟨reached, owned⟩⟩

theorem hits_total_iff (agree : NamesAgree inputs packages) :
    (⋃ result ∈ (inputs.ofPackages packages).rawResults digest, hitsOf result) =
        (mergeEvidence (packages.map (·.evidence))).reached inputs.byProbe ↔
      ProbesTotalled inputs packages := by
  have results (id : String) :
      (∃ result ∈ (inputs.ofPackages packages).rawResults digest, id ∈ hitsOf result) ↔
        (∃ record, Attributed packages record ∧ id ∈ record.reached inputs.byProbe) ∨
          id ∈ (mergeEvidence (packages.map (·.evidence))).reached inputs.byProbe := by
    rw [← reached_split, hits_rawResults]
    apply or_congr_left
    apply exists_outcome_iff (P := fun record => id ∈ record.reached inputs.byProbe) agree
    · simp
    · intro record last reached _
      rw [reached]
  simp only [Set.ext_iff, Set.mem_iUnion, exists_prop, results, or_iff_right_iff_imp]
  simp only [ProbesTotalled, reached_mergeEvidence, List.mem_map, exists_exists_and_eq_and]
  constructor
  · intro within record attributed id reached
    exact within id ⟨record, attributed, reached⟩
  · intro within id ⟨record, attributed, reached⟩
    exact within record attributed id reached

theorem vectors_total_iff (agree : NamesAgree inputs packages) :
    (⋃ result ∈ (inputs.ofPackages packages).rawResults digest, vectorsOf result) =
        (mergeEvidence (packages.map (·.evidence))).evaluated inputs.manifest ↔
      VectorsClaimed inputs packages := by
  have results (seen : String × McdcVector) :
      (∃ result ∈ (inputs.ofPackages packages).rawResults digest, seen ∈ vectorsOf result) ↔
        ∃ record, Attributed packages record ∧ seen ∈ record.evaluated inputs.manifest := by
    rw [vectors_rawResults]
    apply exists_outcome_iff (P := fun record => seen ∈ record.evaluated inputs.manifest) agree
    · simp
    · intro record last _ evaluated
      rw [evaluated]
  simp only [Set.ext_iff, Set.mem_iUnion, exists_prop, results]
  simp only [VectorsClaimed, evaluated_mergeEvidence, List.mem_map, exists_exists_and_eq_and]
  exact forall_congr' fun seen => Iff.comm

end Own

/-- Nothing is lost or moved exactly where every attributed record's name is last
carried by one that holds the same, every probe of an attributed record is in its
run's totals, and no vector is in the totals alone. -/
theorem buildFrontendRun_conserves_iff {Detail Model : Type} (digest : List String → String)
    (inputs : OwnedRunInputs Detail Model) (packages : List Package) :
    Conserves inputs packages
        (buildFrontendRun digest (inputs.ofPackages packages)).request.rawResults ↔
      NamesAgree inputs packages ∧ ProbesTotalled inputs packages ∧
        VectorsClaimed inputs packages := by
  constructor
  · intro conserves
    have agree : NamesAgree inputs packages := (own_iff digest).mp conserves.own
    exact ⟨agree, (hits_total_iff digest agree).mp conserves.hits,
      (vectors_total_iff digest agree).mp conserves.vectors⟩
  · intro ⟨agree, totalled, vectors⟩
    exact
      { own := (own_iff digest).mpr agree
        hits := (hits_total_iff digest agree).mpr totalled
        vectors := (vectors_total_iff digest agree).mpr vectors }

/-- A process that ran the one test `T`, which reached this probe of two. -/
def oneTest (probe : Index) (global : List (BitVec 32)) : OwnedEvidence where
  global := global
  tests :=
    [{ name := "T", status := "passed", runner := "", tags := [], unattributed := false,
       probes := [(probe, 1)], vectors := [] }]
  widths := []
  decisionVectors := []
  aligned := OwnedEvidence.empty.aligned

/-- Two packages, each with a test `T` of its own. -/
def namesakes : List Package :=
  [{ directory := "a", declaredIn := fun _ => none, evidence := oneTest 0 [1, 0] },
   { directory := "b", declaredIn := fun _ => none, evidence := oneTest 1 [0, 1] }]

def namesakeInputs : OwnedRunInputs Unit Unit where
  declaration :=
    { protocolVersion := 1
      frontendId := "supercov-go"
      frontendVersion := "go-owned-v1"
      language := "go"
      structuralSource := .ownedProbes
      runners := [{ runner := "go-test", detail := () }]
      structuralLimitations := [] }
  environment := "go"
  manifest :=
    { decisions := [], points := [], branches := [], limitations := [], unmeasured := [],
      scope := none }
  probes := [(0, .statement "s"), (1, .statement "t")]
  evidence := .empty
  outcomes := []
  runId := "r"
  generatedAt := "now"
  testExitCode := 0
  coverageModel := ()
  declares := List.cons_ne_nil _ _
  named := by simp

/-- The first package's `T` is given what the second's reached. -/
theorem namesakes_moved :
    ¬ Conserves namesakeInputs namesakes
      (buildFrontendRun (fun _ => "") (namesakeInputs.ofPackages namesakes)).request.rawResults := by
  intro conserves
  obtain ⟨result, found, -, -, hits, -⟩ := conserves.own 0 _ _ rfl rfl
  have reached : "s" ∈ hitsOf result := by
    rw [hits]
    exact ⟨(0, 1), List.mem_singleton_self _, rfl⟩
  obtain rfl := Option.some.inj found
  obtain ⟨seen, observed, hit⟩ := reached
  obtain rfl := List.mem_singleton.mp observed
  revert hit
  decide +kernel

end Supercov.Owned
