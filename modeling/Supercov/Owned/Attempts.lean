import Supercov.Owned.Served

/-!
# What an attempt's result holds

What is credited to an attempt is what the windows held that it was alone in.  Its result is
made from the record of the last attempt of its name, and is its own exactly where that one
was alone in as much.
-/

namespace Supercov.Owned

open Analysis (McdcVector)
open Report
open Request (RunDeclaration RunnerDetail FrontendProtocolError validateFrontendReportRequest)
open Supercov.Runtime

section Credited

variable {served : List ServedTest}

def Alone (served : List ServedTest) (window : ServerWindow) (index : Nat) : Prop :=
  (∃ test, served[index]? = some test ∧ test.overlaps window = true) ∧
    ∀ other test, served[other]? = some test → test.overlaps window = true → other = index

theorem mem_running {window : ServerWindow} {index : Nat} :
    index ∈ running served window ↔ ∃ test, served[index]? = some test ∧
      test.overlaps window = true := by
  simp only [running, List.mem_map, List.mem_filter, Prod.exists, List.mem_zipIdx_iff_getElem?]
  constructor
  · rintro ⟨test, index, ⟨found, overlaps⟩, rfl⟩
    exact ⟨test, found, overlaps⟩
  · rintro ⟨test, found, overlaps⟩
    exact ⟨test, index, ⟨found, overlaps⟩, rfl⟩

theorem nodup_running (served : List ServedTest) (window : ServerWindow) : (running served window).Nodup := by
  refine List.Nodup.sublist (List.filter_sublist.map Prod.snd) ?_
  rw [List.zipIdx_map_snd]
  exact List.nodup_range'

theorem ownerOf_running {window : ServerWindow} {index : Nat} :
    ownerOf (running served window) = some index ↔ Alone served window index := by
  have distinct := nodup_running served window
  have alone : Alone served window index ↔
      index ∈ running served window ∧ ∀ other ∈ running served window, other = index := by
    simp only [Alone, mem_running, forall_exists_index, and_imp]
  rw [alone]
  generalize running served window = indices at distinct
  match indices, distinct with
  | [], _ => simp [ownerOf]
  | [only], _ => simp [ownerOf, eq_comm]
  | first :: second :: rest, distinct =>
    refine iff_of_false nofun fun ⟨_, same⟩ => ?_
    have apart := (List.nodup_cons.mp distinct).1
    rw [same first (List.mem_cons_self ..), ← same second (by simp)] at apart
    exact apart (List.mem_cons_self ..)

theorem Alone.unique {window : ServerWindow} {index other : Nat} (alone : Alone served window index)
    (alone' : Alone served window other) : other = index := by
  obtain ⟨test, found, overlaps⟩ := alone'.1
  exact alone.2 other test found overlaps

theorem ofTest_give (credit : Credit) (owner : Option Nat)
    (note : OwnedTestEvidence → OwnedTestEvidence) (index : Nat) :
    ((credit.give owner note).lookup index).getD .empty =
      if owner = some index then note (credit.ofTest index) else credit.ofTest index := by
  cases owner with
  | none => rfl
  | some owner =>
    rw [Credit.give, Ordered.lookup_put]
    by_cases same : index = owner
    · rw [if_pos same, if_pos (congrArg some same.symm), same, Option.getD_some]
    · rw [if_neg same, if_neg fun same' => same (Option.some.inj same').symm, Credit.ofTest]

theorem ofTest_foldl {credit : Credit} {owner : Option Nat} {added : List (Word × Word)}
    {step : Credit → Word × Word → Credit}
    {note : OwnedTestEvidence → Word × Word → OwnedTestEvidence}
    (given : ∀ credit pair, (step credit pair).byTest = credit.give owner (note · pair))
    (index : Nat) :
    (added.foldl step credit).ofTest index =
      if owner = some index then added.foldl note (credit.ofTest index) else credit.ofTest index := by
  induction added generalizing credit with
  | nil => simp
  | cons pair added ih =>
    have first : (step credit pair).ofTest index =
        if owner = some index then note (credit.ofTest index) pair else credit.ofTest index := by
      rw [Credit.ofTest, given, ofTest_give]
    rw [List.foldl_cons, ih, first]
    split <;> rfl

theorem ofTest_creditWindow (credit : Credit) (window : ServerWindow) (index : Nat) :
    (creditWindow served credit window).ofTest index =
      if ownerOf (running served window) = some index then
        (pairs window.vectors).foldl noteVector
          ((pairs window.probes).foldl noteProbe (credit.ofTest index))
      else credit.ofTest index := by
  rw [creditWindow, ofTest_foldl fun _ _ => rfl, ofTest_foldl fun _ _ => rfl]
  split <;> rfl

theorem probes_foldl_noteVector (added : List (Word × Word)) (evidence : OwnedTestEvidence) :
    (added.foldl noteVector evidence).probes = evidence.probes := by
  induction added generalizing evidence with
  | nil => rfl
  | cons pair added ih => rw [List.foldl_cons, ih, noteVector]

theorem vectors_foldl_noteProbe (added : List (Word × Word)) (evidence : OwnedTestEvidence) :
    (added.foldl noteProbe evidence).vectors = evidence.vectors := by
  induction added generalizing evidence with
  | nil => rfl
  | cons pair added ih => rw [List.foldl_cons, ih, noteProbe]

theorem mem_foldl_noteProbe {added : List (Word × Word)} {evidence : OwnedTestEvidence}
    {probe : Index} :
    probe ∈ (added.foldl noteProbe evidence).probes.map Prod.fst ↔
      probe ∈ evidence.probes.map Prod.fst ∨ ∃ pair ∈ added, pair.1.setWidth 32 = probe := by
  induction added generalizing evidence with
  | nil => simp
  | cons pair added ih =>
    rw [List.foldl_cons, ih, noteProbe, Ordered.mem_keys_put, List.exists_mem_cons_iff,
      eq_comm (a := probe)]
    tauto

theorem mem_foldl_noteVector {added : List (Word × Word)} {evidence : OwnedTestEvidence}
    {vector : PackedVector} :
    vector ∈ (added.foldl noteVector evidence).vectors ↔
      vector ∈ evidence.vectors ∨
        ∃ pair ∈ added, vector = { decision := pair.1.setWidth 32, key := pair.2 } := by
  induction added generalizing evidence with
  | nil => simp
  | cons pair added ih =>
    rw [List.foldl_cons, ih, noteVector, List.exists_mem_cons_iff, ← or_assoc]
    refine or_congr_left ?_
    dsimp only
    split
    · rename_i held
      exact ⟨Or.inl, fun either => either.elim id fun same => same ▸ held⟩
    · rw [List.mem_append, List.mem_singleton]

theorem getD_modify {Item : Type} {items : List Item} {index : Nat} (inside : index < items.length)
    (other : Nat) (change : Item → Item) (fill : Item) :
    (items.modify other change).getD index fill =
      if other = index then change (items.getD index fill) else items.getD index fill := by
  simp only [List.getD_eq_getElem?_getD, List.getElem?_modify, List.getElem?_eq_getElem inside]
  rfl

theorem getLsbD_global_foldl {added : List (Word × Word)} {owner : Option Nat} {credit : Credit}
    {index bit : Nat} (inside : index < credit.global.length) :
    ((added.foldl (creditProbe owner) credit).global.getD index 0).getLsbD bit = true ↔
      (credit.global.getD index 0).getLsbD bit = true ∨
        ∃ pair ∈ added, pair.1.toNat = index ∧ (pair.2.setWidth 32).getLsbD bit = true := by
  induction added generalizing credit with
  | nil => simp
  | cons pair added ih =>
    rw [List.foldl_cons, ih (by rwa [creditProbe, List.length_modify]), creditProbe,
      getD_modify inside, List.exists_mem_cons_iff, ← or_assoc]
    refine or_congr_left ?_
    split
    · rename_i same
      rw [BitVec.getLsbD_or, Bool.or_eq_true, and_iff_right same]
    · rename_i other
      simp only [other, false_and, or_false]

theorem mem_decisionVectors_foldl {added : List (Word × Word)} {owner : Option Nat}
    {credit : Credit} {index : Nat} {key : Word} (inside : index < credit.decisionVectors.length) :
    key ∈ (added.foldl (creditVector owner) credit).decisionVectors.getD index [] ↔
      key ∈ credit.decisionVectors.getD index [] ∨
        ∃ pair ∈ added, (pair.1.setWidth 32).toNat = index ∧ pair.2 = key := by
  induction added generalizing credit with
  | nil => simp
  | cons pair added ih =>
    rw [List.foldl_cons, ih (by rwa [creditVector, List.length_modify]), creditVector,
      getD_modify inside, List.exists_mem_cons_iff, ← or_assoc]
    refine or_congr_left ?_
    split
    · rename_i same
      rw [mem_including, and_iff_right same, eq_comm (a := key)]
    · rename_i other
      simp only [other, false_and, or_false]

theorem global_foldl_creditVector (added : List (Word × Word)) (owner : Option Nat)
    (credit : Credit) : (added.foldl (creditVector owner) credit).global = credit.global := by
  induction added generalizing credit with
  | nil => rfl
  | cons pair added ih => rw [List.foldl_cons, ih, creditVector]

theorem decisionVectors_foldl_creditProbe (added : List (Word × Word)) (owner : Option Nat)
    (credit : Credit) :
    (added.foldl (creditProbe owner) credit).decisionVectors = credit.decisionVectors := by
  induction added generalizing credit with
  | nil => rfl
  | cons pair added ih => rw [List.foldl_cons, ih, creditProbe]

theorem length_global_foldl (added : List (Word × Word)) (owner : Option Nat) (credit : Credit) :
    (added.foldl (creditProbe owner) credit).global.length = credit.global.length := by
  induction added generalizing credit with
  | nil => rfl
  | cons pair added ih => rw [List.foldl_cons, ih, creditProbe, List.length_modify]

section Windows

variable {windows : List ServerWindow} {probeCount decisions : Nat}

theorem creditWindows_append (window : ServerWindow) :
    creditWindows served (windows ++ [window]) probeCount decisions =
      creditWindow served (creditWindows served windows probeCount decisions) window := by
  rw [creditWindows, List.foldl_append, List.foldl_cons, List.foldl_nil, creditWindows]

theorem mem_probes_ofTest {index : Nat} {probe : Index} :
    probe ∈ ((creditWindows served windows probeCount decisions).ofTest index).probes.map Prod.fst ↔
      ∃ window ∈ windows, Alone served window index ∧
        ∃ pair ∈ pairs window.probes, pair.1.setWidth 32 = probe := by
  induction windows using List.reverseRecOn with
  | nil => simp [creditWindows, Credit.ofTest, OwnedTestEvidence.empty]
  | append_singleton windows window ih =>
    rw [creditWindows_append, ofTest_creditWindow]
    simp only [ownerOf_running, List.mem_append, List.mem_singleton, or_and_right, exists_or,
      exists_eq_left, ← ih]
    split
    · rename_i alone
      rw [probes_foldl_noteVector, mem_foldl_noteProbe]
      simp only [ownerOf_running.mp alone, true_and]
    · rename_i beside
      simp only [mt ownerOf_running.mpr beside, false_and, or_false]

theorem mem_vectors_ofTest {index : Nat} {vector : PackedVector} :
    vector ∈ ((creditWindows served windows probeCount decisions).ofTest index).vectors ↔
      ∃ window ∈ windows, Alone served window index ∧
        ∃ pair ∈ pairs window.vectors, vector = { decision := pair.1.setWidth 32, key := pair.2 } := by
  induction windows using List.reverseRecOn with
  | nil => simp [creditWindows, Credit.ofTest, OwnedTestEvidence.empty]
  | append_singleton windows window ih =>
    rw [creditWindows_append, ofTest_creditWindow]
    simp only [ownerOf_running, List.mem_append, List.mem_singleton, or_and_right, exists_or,
      exists_eq_left, ← ih]
    split
    · rename_i alone
      rw [mem_foldl_noteVector, vectors_foldl_noteProbe]
      simp only [ownerOf_running.mp alone, true_and]
    · rename_i beside
      simp only [mt ownerOf_running.mpr beside, false_and, or_false]

theorem length_global : (creditWindows served windows probeCount decisions).global.length =
    probeCount := by
  induction windows using List.reverseRecOn with
  | nil => exact List.length_replicate
  | append_singleton windows window ih =>
    rwa [creditWindows_append, creditWindow, global_foldl_creditVector, length_global_foldl]

theorem getLsbD_global {index bit : Nat} (inside : index < probeCount) :
    ((creditWindows served windows probeCount decisions).global.getD index 0).getLsbD bit = true ↔
      ∃ window ∈ windows, ∃ pair ∈ pairs window.probes,
        pair.1.toNat = index ∧ (pair.2.setWidth 32).getLsbD bit = true := by
  induction windows using List.reverseRecOn with
  | nil => simp [creditWindows, List.getD_eq_getElem?_getD, inside]
  | append_singleton windows window ih =>
    rw [creditWindows_append, creditWindow, global_foldl_creditVector,
      getLsbD_global_foldl (by rwa [length_global])]
    simp only [ih, List.mem_append, List.mem_singleton, or_and_right, exists_or, exists_eq_left]

theorem mem_decisionVectors {index : Nat} {key : Word} (inside : index < decisions) :
    key ∈ (creditWindows served windows probeCount decisions).decisionVectors.getD index [] ↔
      ∃ window ∈ windows, ∃ pair ∈ pairs window.vectors,
        (pair.1.setWidth 32).toNat = index ∧ pair.2 = key := by
  induction windows using List.reverseRecOn with
  | nil => simp [creditWindows, List.getD_eq_getElem?_getD, inside]
  | append_singleton windows window ih =>
    rw [creditWindows_append, creditWindow, mem_decisionVectors_foldl,
      decisionVectors_foldl_creditProbe]
    · simp only [ih, List.mem_append, List.mem_singleton, or_and_right, exists_or, exists_eq_left]
    · rwa [decisionVectors_foldl_creditProbe, length_creditWindows]

end Windows

end Credited

section Results

variable {Model : Type} (digest : List String → String) (server : OwnedServer Model)
  (metadata : ServedMetadata) (windows : List ServerWindow) (served : List ServedTest)

def aloneHits (index : Nat) : Set String :=
  {id | ∃ window ∈ windows, Alone served window index ∧
    ∃ pair ∈ pairs window.probes, obligations server.probes (pair.1.setWidth 32) = some id}

def aloneVectors (index : Nat) : Set (String × McdcVector) :=
  {seen | ∃ window ∈ windows, Alone served window index ∧ ∃ pair ∈ pairs window.vectors,
    ∃ place decision, server.manifest.decisions[place]? = some decision ∧
      (pair.1.setWidth 32 : Index) = .ofNat 32 place ∧
      seen = (decision.id, unpackVector pair.2 (decision.conditions.length % 256))}

def lastOf (name : String) : Option (ServedTest × Nat) :=
  served.zipIdx.reverse.find? fun entry => entry.1.name = name

/-- A server's work is credited by time alone. -/
structure CreditedByTime : Prop where
  own : ∀ index test, served[index]? = some test →
    ∃ result, (servedRun digest server metadata windows served).request.rawResults[index]? = some result ∧
      result.test = test.name ∧ result.testFile = some test.file ∧
      hitsOf result = aloneHits server windows served index ∧
      vectorsOf result = aloneVectors server windows served index
  once : ∀ window ∈ windows, ∀ index other, Alone served window index → Alone served window other →
    other = index
  probes : ∀ index < server.probeCount, ∀ bit,
    ((server.inputs metadata windows served).evidence.global.getD index 0).getLsbD bit = true ↔
      ∃ window ∈ windows, ∃ pair ∈ pairs window.probes,
        pair.1.toNat = index ∧ (pair.2.setWidth 32).getLsbD bit = true
  vectors : ∀ index < server.widths.length, ∀ key,
    key ∈ (server.inputs metadata windows served).evidence.decisionVectors.getD index [] ↔
      ∃ window ∈ windows, ∃ pair ∈ pairs window.vectors,
        (pair.1.setWidth 32).toNat = index ∧ pair.2 = key
  order : ∀ windows', windows.Perm windows' → ∀ index < served.length, ∀ result result',
    (servedRun digest server metadata windows served).request.rawResults[index]? = some result →
      (servedRun digest server metadata windows' served).request.rawResults[index]? = some result' →
        hitsOf result = hitsOf result' ∧ vectorsOf result = vectorsOf result'

variable {digest server metadata windows served}

theorem reached_ofTest (index : Nat) {probeCount decisions : Nat} :
    ((creditWindows served windows probeCount decisions).ofTest index).reached
      (obligations server.probes) = aloneHits server windows served index := by
  ext id
  simp only [OwnedTestEvidence.reached, reachedBy, aloneHits, Set.mem_ofPred_eq]
  constructor
  · rintro ⟨hit, member, found⟩
    obtain ⟨window, among, alone, pair, listed, same⟩ :=
      mem_probes_ofTest.mp (List.mem_map_of_mem (f := Prod.fst) member)
    exact ⟨window, among, alone, pair, listed, same ▸ found⟩
  · rintro ⟨window, among, alone, pair, listed, found⟩
    obtain ⟨hit, member, same⟩ := List.mem_map.mp
      ((mem_probes_ofTest).mpr
        ⟨window, among, alone, pair, listed, rfl⟩)
    exact ⟨hit, member, same ▸ found⟩

theorem evaluated_ofTest (index : Nat) {probeCount decisions : Nat} :
    ((creditWindows served windows probeCount decisions).ofTest index).evaluated server.manifest =
      aloneVectors server windows served index := by
  ext seen
  simp only [OwnedTestEvidence.evaluated, evaluatedBy, aloneVectors, Set.mem_ofPred_eq,
    mem_vectors_ofTest, PackedVector.mk.injEq]
  constructor
  · rintro ⟨place, decision, found, key, ⟨window, among, alone, pair, listed, own, rfl⟩, same⟩
    exact ⟨window, among, alone, pair, listed, place, decision, found, own.symm, same⟩
  · rintro ⟨window, among, alone, pair, listed, place, decision, found, own, same⟩
    exact ⟨place, decision, found, pair.2, ⟨window, among, alone, pair, listed, own.symm, rfl⟩, same⟩

theorem recorded_creditedEvidence (served : List ServedTest) (windows : List ServerWindow) (name : String) (probeCount : Nat) (widths : List Nat) :
    recorded (creditedEvidence served windows probeCount widths).tests name =
      (lastOf served name).map
        (creditWindows served windows probeCount widths.length).record := by
  rw [recorded, creditedEvidence, ← List.map_reverse, List.find?_map, lastOf]
  rfl

theorem lastOf_spec {index : Nat} {test : ServedTest} (found : served[index]? = some test) :
    ∃ last place, lastOf served test.name = some (last, place) ∧ served[place]? = some last ∧
      last.name = test.name := by
  have named : (lastOf served test.name).isSome := by
    rw [lastOf, List.find?_isSome]
    refine ⟨(test, index), List.mem_reverse.mpr ?_, decide_eq_true rfl⟩
    rwa [List.mem_zipIdx_iff_getElem?]
  obtain ⟨⟨last, place⟩, same⟩ := Option.isSome_iff_exists.mp named
  refine ⟨last, place, same, ?_, by simpa using List.find?_some (show _ = some (last, place) from same)⟩
  exact List.mem_zipIdx_iff_getElem?.mp (List.mem_reverse.mp (List.mem_of_find?_eq_some same))

theorem result_of_lastOf {index place : Nat} {test last : ServedTest}
    (found : served[index]? = some test) (named : lastOf served test.name = some (last, place)) :
    ∃ result, (servedRun digest server metadata windows served).request.rawResults[index]? = some result ∧
      result.test = test.name ∧ result.testFile = some test.file ∧
      hitsOf result = aloneHits server windows served place ∧
      vectorsOf result = aloneVectors server windows served place := by
  have inside : index < served.length := (List.getElem?_eq_some_iff.mp found).1
  let inputs := server.inputs metadata windows served
  have record : inputs.recordOf (servedOutcome test) =
      (creditWindows served windows server.probeCount server.widths.length).record (last, place) := by
    have known := recorded_creditedEvidence served windows test.name
      server.probeCount server.widths
    rw [named] at known
    exact congrArg (·.getD .empty) known
  refine ⟨nameResult (creditWindows served windows server.probeCount server.widths.length).credited
    (inputs.testResult digest (servedOutcome test)) (test, index), ?_, rfl, rfl, ?_, ?_⟩
  · have listed : (inputs.rawResults digest)[index]? =
        some (inputs.testResult digest (servedOutcome test)) := by
      rw [OwnedRunInputs.rawResults, List.getElem?_append_left]
      · simp [inputs, OwnedServer.inputs, found]
      · simpa [inputs, OwnedServer.inputs] using inside
    have numbered : served.zipIdx[index]? = some (test, index) := by
      simp [List.getElem?_zipIdx, found]
    change (updateEach _ (inputs.rawResults digest) served.zipIdx)[index]? = _
    rw [getElem?_updateEach, listed, numbered]
    rfl
  · change hitsOf (inputs.testResult digest (servedOutcome test)) = _
    rw [hits_testResult, record]
    exact reached_ofTest place
  · change vectorsOf (inputs.testResult digest (servedOutcome test)) = _
    rw [vectors_testResult, record]
    exact evaluated_ofTest place

theorem aloneHits_perm {windows' : List ServerWindow} (perm : windows.Perm windows') (index : Nat) :
    aloneHits server windows served index = aloneHits server windows' served index := by
  simp only [aloneHits, perm.mem_iff]

theorem aloneVectors_perm {windows' : List ServerWindow} (perm : windows.Perm windows') (index : Nat) :
    aloneVectors server windows served index = aloneVectors server windows' served index := by
  simp only [aloneVectors, perm.mem_iff]

/-- A server's work is credited by time alone exactly where any two attempts of one name were
alone while the server did the same. -/
theorem creditedByTime_iff :
    CreditedByTime digest server metadata windows served ↔
      ∀ index other test test', served[index]? = some test → served[other]? = some test' →
        test.name = test'.name →
          aloneHits server windows served index = aloneHits server windows served other ∧
          aloneVectors server windows served index = aloneVectors server windows served other := by
  constructor
  · intro credited index other test test' found found' same
    obtain ⟨last, place, named, -, -⟩ := lastOf_spec found
    have held {index : Nat} {test : ServedTest} (found : served[index]? = some test)
        (named : lastOf served test.name = some (last, place)) :
        aloneHits server windows served index = aloneHits server windows served place ∧
          aloneVectors server windows served index = aloneVectors server windows served place := by
      obtain ⟨result, listed, -, -, hits, vectors⟩ := credited.own index test found
      obtain ⟨result', listed', -, -, hits', vectors'⟩ :=
        result_of_lastOf
          found named
      cases listed.symm.trans listed'
      exact ⟨hits.symm.trans hits', vectors.symm.trans vectors'⟩
    obtain ⟨hits, vectors⟩ := held found named
    obtain ⟨hits', vectors'⟩ := held found' (same ▸ named)
    exact ⟨hits.trans hits'.symm, vectors.trans vectors'.symm⟩
  · intro alike
    refine ⟨fun index test found => ?_, fun window _ index other alone alone' => alone.unique alone',
      fun index inside bit => getLsbD_global inside, fun index inside key => mem_decisionVectors inside,
      fun windows' perm index inside result result' listed listed' => ?_⟩
    · obtain ⟨last, place, named, known, same⟩ := lastOf_spec found
      obtain ⟨hits, vectors⟩ := alike index place test last found known same.symm
      rw [hits, vectors]
      exact result_of_lastOf found named
    · have found := List.getElem?_eq_getElem inside
      obtain ⟨last, place, named, -, -⟩ := lastOf_spec found
      obtain ⟨own, here, -, -, hits, vectors⟩ := result_of_lastOf
        found named
      obtain ⟨own', here', -, -, hits', vectors'⟩ := result_of_lastOf
        found named
      cases listed.symm.trans here
      cases listed'.symm.trans here'
      exact ⟨hits.trans ((aloneHits_perm perm place).trans hits'.symm),
        vectors.trans ((aloneVectors_perm perm place).trans vectors'.symm)⟩

end Results

section Retried

/-- An attempt at one test, by its worker. -/
def attempt (worker status : String) (window : Int × Int) : ServedTest where
  worker := worker
  name := "orders"
  title := "orders"
  file := "orders.spec.ts"
  status := status
  expectedStatus := "passed"
  provenance :=
    { runner := "playwright", kind := "e2e", project := none, source := "explicit", tags := [] }
  window := some window

def retried : List ServedTest :=
  [attempt "playwright:0" "failed" (100, 200), attempt "playwright:1" "passed" (300, 400)]

/-- The first attempt reached one statement, and the second another. -/
def retriedWindows : List ServerWindow :=
  [{ start := 100, stop := 150, probes := [0, 1], vectors := [] },
   { start := 300, stop := 350, probes := [1, 1], vectors := [] }]

def goServer : OwnedServer Unit where
  declaration :=
    { protocolVersion := 2
      frontendId := "supercov-go"
      frontendVersion := "go-owned-v1"
      language := "go"
      structuralSource := .ownedProbes
      runners :=
        [{ runner := "go-test"
           detail :=
            { executionModel := .serialInProcess
              attribution :=
                { run := .exact, worker := .exact, test := .exact, retry := .aggregate
                  phase := .aggregate, action := .unavailable, assertion := .unavailable }
              limitations :=
                [{ id := "no-phases", scopes := [.retry, .phase, .action, .assertion]
                   reason := "one phase" }] } }]
      structuralLimitations := [] }
  environment := "go"
  coverageModel := ()
  manifest :=
    { decisions := [], points := [], branches := [], limitations := [], unmeasured := []
      scope := none }
  probes := [(0, .statement "s"), (1, .statement "t")]
  widths := []
  declares := List.cons_ne_nil _ _
  named := nil_named

def retriedMetadata : ServedMetadata where
  id := "r"
  startedAt := "now"
  testExitCode := some 0

/-- The run is published, and the first attempt's result holds what the second reached. -/
theorem not_creditedByTime_retried :
    (publish (fun _ => "") goServer retriedMetadata retriedWindows retried).isOk = true ∧
    ((servedRun (fun _ => "") goServer retriedMetadata retriedWindows
      retried).request.rawResults.map fun result => result.runtime.map (·.hits)) =
        [[["t"]], [["t"]]] ∧
    ¬ CreditedByTime (fun _ => "") goServer retriedMetadata retriedWindows retried := by
  have shown : (servedRun (fun _ => "") goServer retriedMetadata retriedWindows
      retried).request.rawResults.map (fun result => result.runtime.map (·.hits)) =
        [[["t"]], [["t"]]] := by
    decide +kernel
  refine ⟨by decide +kernel, shown, fun credited => ?_⟩
  obtain ⟨result, found, -, -, hits, -⟩ := credited.own 0 _ rfl
  have reached : "s" ∈ hitsOf result := by
    rw [hits]
    exact ⟨_, List.mem_cons_self .., ownerOf_running.mp (by decide +kernel), (0, 1),
      List.mem_cons_self .., by decide +kernel⟩
  obtain ⟨seen, observed, hit⟩ := reached
  have held := List.mem_map_of_mem (f := fun result : RawTestResult => result.runtime.map (·.hits))
    (List.mem_of_getElem? found)
  rw [shown] at held
  have only : result.runtime.map (·.hits) = [["t"]] := by simpa using held
  have among := List.mem_map_of_mem (f := fun seen : RuntimeSnapshot => seen.hits) observed
  rw [only, List.mem_singleton] at among
  rw [among] at hit
  exact absurd hit (by decide)

end Retried

end Supercov.Owned
