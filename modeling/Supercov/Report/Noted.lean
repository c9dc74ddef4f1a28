import Supercov.Report.Ingest
import Mathlib.Data.List.Nodup

/-!
# What the reading notes

Everything noted of tests is in one log: which test reached which obligation, and
saw which vector.  The order of the log, and every event of a phase, are nothing
to it.
-/

namespace Supercov.Report

open Analysis (McdcVector)
open Ordered (put lookup_put)

/-- What a record says a test did. -/
inductive Item where
  | hit (id : String)
  | vector (decision : String) (vector : McdcVector)
  deriving DecidableEq

abbrev Log := List (String × Item)

section Items

variable (manifest : CoverageManifest)

def Measures (decision : String) : Prop := manifest.decisions.any (·.id = decision) = true

instance (decision : String) : Decidable (Measures manifest decision) :=
  inferInstanceAs (Decidable (_ = true))

def decisionItems (decision : DecisionSnapshot) : List Item :=
  if Measures manifest decision.id then decision.vectors.map (.vector decision.id) else []

def snapshotItems (snapshot : RuntimeSnapshot) : List Item :=
  snapshot.decisions.flatMap (decisionItems manifest) ++ snapshot.hits.map .hit

def recordItems (record : ServerRecord) : List Item :=
  if record.recordType = "decision" then
    match record.id, record.vector with
    | some decision, some vector => decisionItems manifest { id := decision, vectors := [vector] }
    | _, _ => []
  else if record.recordType = "hit" then
    record.id.toList.map .hit
  else
    []

def itemsOf (raw : RawTestResult) : List Item :=
  (raw.runtime ++ raw.browser).flatMap (snapshotItems manifest) ++
    raw.server.flatMap (recordItems manifest)

def logOf (rawResults : List RawTestResult) : Log :=
  rawResults.flatMap fun raw => (itemsOf manifest raw).map fun item => (rawTestId raw, item)

end Items

/-- What the reading holds of tests is the log, but for the tests of whole decisions. -/
structure Held (ingest : Ingest) (log : Log) : Prop where
  known : ∀ test, test ∈ ingest.testOrder ↔ (ingest.tests.lookup test).isSome
  once : ingest.testOrder.Nodup
  logged : ∀ entry ∈ log, entry.1 ∈ ingest.testOrder
  hits : ∀ test id, test ∈ ingest.testsByHit id ↔ (test, .hit id) ∈ log
  seen : ∀ decision vector test,
    (∃ observation ∈ ingest.observations decision,
      observation.vector = vector ∧ test ∈ observation.tests) ↔
      (test, .vector decision vector) ∈ log
  distinct : ∀ decision, ((ingest.observations decision).map (·.vector)).Nodup
  tested : ∀ decision, ∀ observation ∈ ingest.observations decision, observation.tests ≠ []
  testHits : ∀ test record, ingest.tests.lookup test = some record →
    ∀ id, id ∈ record.hits ↔ (test, .hit id) ∈ log
  testVectors : ∀ test record, ingest.tests.lookup test = some record →
    ∀ decision vector, vector ∈ (record.decisions.lookup decision).getD [] ↔
      (test, .vector decision vector) ∈ log
  recorded : ∀ test record, ingest.tests.lookup test = some record →
    ∀ decision, decision ∈ record.decisions.map Prod.fst ↔
      ∃ vector, (test, .vector decision vector) ∈ log
  named : ∀ test record, ingest.tests.lookup test = some record → record.id = test

structure Noted (ingest : Ingest) (log : Log) : Prop extends Held ingest log where
  decided : ∀ decision test, test ∈ ingest.testsByDecision decision ↔
    ∃ vector, (test, .vector decision vector) ∈ log

/-- Nothing but what was noted of phases differs. -/
structure SameTests (ingest ingest' : Ingest) : Prop where
  tests : ingest'.tests = ingest.tests
  testOrder : ingest'.testOrder = ingest.testOrder
  testsByHit : ingest'.testsByHit = ingest.testsByHit
  testsByDecision : ingest'.testsByDecision = ingest.testsByDecision
  seen : ∀ decision,
    (ingest'.observations decision).map (fun seen => (seen.vector, seen.tests)) =
      (ingest.observations decision).map fun seen => (seen.vector, seen.tests)

theorem mem_pushAt {map : String → List String} {key other value item : String} :
    item ∈ pushAt map key value other ↔ item ∈ map other ∨ (other = key ∧ item = value) := by
  by_cases same : other = key
  · subst same
    simp [pushAt]
  · simp [pushAt, same]

@[simp]
theorem lookup_changeAt {Value : Type} (key other : String) (change : Value → Value)
    (map : List (String × Value)) :
    (changeAt key change map).lookup other =
      if other = key then (map.lookup other).map change else map.lookup other := by
  unfold changeAt
  cases held : map.lookup key with
  | none =>
    by_cases same : other = key
    · subst same
      simp [held]
    · simp [same]
  | some value =>
    rw [lookup_put]
    by_cases same : other = key
    · subst same
      simp [held]
    · simp [same]

@[simp]
theorem mem_insertVector {vector other : McdcVector} {vectors : List McdcVector} :
    other ∈ insertVector vector vectors ↔ other ∈ vectors ∨ other = vector := by
  unfold insertVector
  split
  · next held =>
    constructor
    · exact Or.inl
    · intro h
      rcases h with old | rfl
      · exact old
      · exact held
  · simp

theorem nodup_insertVector {vector : McdcVector} {vectors : List McdcVector}
    (distinct : vectors.Nodup) : (insertVector vector vectors).Nodup := by
  unfold insertVector
  split
  · exact distinct
  · next new =>
    rw [← List.concat_eq_append]
    exact distinct.concat new

theorem mem_insertDecision {decision other : String} {vector seen : McdcVector}
    {decisions : List (String × List McdcVector)} :
    seen ∈ ((insertDecision decision vector decisions).lookup other).getD [] ↔
      seen ∈ (decisions.lookup other).getD [] ∨ (other = decision ∧ seen = vector) := by
  rw [insertDecision, lookup_put]
  by_cases same : other = decision
  · subst same
    simp
  · simp [same]

theorem vectors_noteObservation (vector : McdcVector) (test : String)
    (observations : List MutableObservation) :
    (noteObservation vector test observations).map (·.vector) =
      insertVector vector (observations.map (·.vector)) := by
  induction observations with
  | nil => rfl
  | cons observation rest ih =>
    rw [noteObservation]
    by_cases same : observation.vector = vector
    · simp [same, insertVector]
    · rw [if_neg same, List.map_cons, ih]
      have apart : vector ≠ observation.vector := Ne.symm same
      simp only [insertVector, List.map_cons, List.mem_cons, apart, false_or]
      split <;> rfl

theorem tests_noteObservation {vector seen : McdcVector} {test other : String}
    {observations : List MutableObservation} :
    (∃ observation ∈ noteObservation vector test observations,
        observation.vector = seen ∧ other ∈ observation.tests) ↔
      (∃ observation ∈ observations, observation.vector = seen ∧ other ∈ observation.tests) ∨
        (seen = vector ∧ other = test) := by
  induction observations with
  | nil => simp [noteObservation, eq_comm]
  | cons observation rest ih =>
    rw [noteObservation]
    by_cases same : observation.vector = vector
    · rw [if_pos same]
      simp only [List.exists_mem_cons_iff, List.mem_append, List.mem_singleton]
      rw [same]
      constructor
      · intro h
        rcases h with ⟨rfl, old | new⟩ | later
        · exact Or.inl (Or.inl ⟨rfl, old⟩)
        · exact Or.inr ⟨rfl, new⟩
        · exact Or.inl (Or.inr later)
      · intro h
        rcases h with (⟨rfl, old⟩ | later) | ⟨rfl, rfl⟩
        · exact Or.inl ⟨rfl, Or.inl old⟩
        · exact Or.inr later
        · exact Or.inl ⟨rfl, Or.inr rfl⟩
    · rw [if_neg same]
      simp only [List.exists_mem_cons_iff, ih, or_assoc]

theorem tested_noteObservation {vector : McdcVector} {test : String}
    {observations : List MutableObservation}
    (tested : ∀ observation ∈ observations, observation.tests ≠ []) :
    ∀ observation ∈ noteObservation vector test observations, observation.tests ≠ [] := by
  induction observations with
  | nil => simp [noteObservation]
  | cons observation rest ih =>
    obtain ⟨first, others⟩ := List.forall_mem_cons.mp tested
    rw [noteObservation]
    split
    · simp only [List.forall_mem_cons]
      exact ⟨by simp, others⟩
    · exact List.forall_mem_cons.mpr ⟨first, ih others⟩

theorem notePhase_seen (vector : McdcVector) (phase : String) (explicit : Bool)
    (observations : List MutableObservation) :
    (notePhase vector phase explicit observations).map (fun seen => (seen.vector, seen.tests)) =
      observations.map fun seen => (seen.vector, seen.tests) := by
  rw [notePhase, List.map_map]
  apply List.map_congr_left
  intro observation _
  rw [Function.comp_apply]
  split <;> rfl

namespace SameTests

variable {ingest ingest' ingest'' : Ingest}

theorem refl (ingest : Ingest) : SameTests ingest ingest :=
  ⟨rfl, rfl, rfl, rfl, fun _ => rfl⟩

theorem trans (first : SameTests ingest ingest') (second : SameTests ingest' ingest'') :
    SameTests ingest ingest'' where
  tests := second.tests.trans first.tests
  testOrder := second.testOrder.trans first.testOrder
  testsByHit := second.testsByHit.trans first.testsByHit
  testsByDecision := second.testsByDecision.trans first.testsByDecision
  seen decision := (second.seen decision).trans (first.seen decision)

theorem foldl {ι : Type} {step : Ingest → ι → Ingest}
    (each : ∀ ingest item, SameTests ingest (step ingest item)) (ingest : Ingest)
    (items : List ι) : SameTests ingest (items.foldl step ingest) := by
  induction items generalizing ingest with
  | nil => exact refl ingest
  | cons item rest ih => exact (each ingest item).trans (ih (step ingest item))

theorem declarePhase (test : String) (ingest : Ingest) (phase : CoveragePhase) :
    SameTests ingest (ingest.declarePhase test phase) :=
  ⟨rfl, rfl, rfl, rfl, fun _ => rfl⟩

theorem countEvents (phase : String) (browser explicit : Bool) (events : Nat) (ingest : Ingest) :
    SameTests ingest (ingest.countEvents phase browser explicit events) :=
  ⟨rfl, rfl, rfl, rfl, fun _ => rfl⟩

theorem phaseHit (phase : String) (explicit : Bool) (ingest : Ingest) (id : String) :
    SameTests ingest (ingest.phaseHit phase explicit id) :=
  ⟨rfl, rfl, rfl, rfl, fun _ => rfl⟩

theorem phaseVector (phase : String) (explicit : Bool) (decision : String) (ingest : Ingest)
    (vector : McdcVector) :
    SameTests ingest (ingest.phaseVector phase explicit decision vector) := by
  refine ⟨rfl, rfl, rfl, rfl, ?_⟩
  intro other
  by_cases same : other = decision
  · subst same
    simp only [Ingest.phaseVector, Function.update_self, notePhase_seen]
  · simp only [Ingest.phaseVector, Function.update_of_ne same]

theorem event {ordered : List CoveragePhase} {event : RuntimeEvent}
    (read : ingest.event ordered event = .ok ingest') : SameTests ingest ingest' := by
  rw [Ingest.event] at read
  split at read
  · cases read
    exact refl ingest
  · split_ifs at read
    · cases read
      exact refl ingest
    · cases read
      exact (countEvents _ _ _ _ _).trans (phaseHit _ _ _ _)
    · split at read
      · cases read
        exact (countEvents _ _ _ _ _).trans (phaseVector _ _ _ _ _)
      · cases read

theorem snapshotPhase (browser : Bool) (snapshot : RuntimeSnapshot) (ingest : Ingest) :
    SameTests ingest (ingest.snapshotPhase browser snapshot) := by
  rw [Ingest.snapshotPhase]
  split
  · exact refl ingest
  · split_ifs
    · exact refl ingest
    · apply (countEvents _ _ _ _ _).trans
      apply (foldl (phaseHit _ _) _ _).trans
      apply foldl
      intro ingest decision
      exact foldl (phaseVector _ _ _) _ _

theorem serverPhase (ordered : List CoveragePhase) (record : ServerRecord) (id : String)
    (vector : Option McdcVector) (ingest : Ingest) :
    SameTests ingest (ingest.serverPhase ordered record id vector) := by
  rw [Ingest.serverPhase]
  split
  · exact refl ingest
  · split
    · exact refl ingest
    · split_ifs
      · exact refl ingest
      · split
        · exact (countEvents _ _ _ _ _).trans (phaseVector _ _ _ _ _)
        · exact (countEvents _ _ _ _ _).trans (phaseHit _ _ _ _)

theorem exists_seen (same : SameTests ingest ingest') (decision : String)
    {P : McdcVector → List String → Prop} :
    (∃ observation ∈ ingest'.observations decision, P observation.vector observation.tests) ↔
      ∃ observation ∈ ingest.observations decision, P observation.vector observation.tests := by
  have one {ingest ingest' : Ingest} (mapped : (ingest'.observations decision).map
        (fun seen => (seen.vector, seen.tests)) =
      (ingest.observations decision).map fun seen => (seen.vector, seen.tests)) :
      (∃ observation ∈ ingest'.observations decision, P observation.vector observation.tests) →
        ∃ observation ∈ ingest.observations decision,
          P observation.vector observation.tests := by
    intro ⟨observation, member, holds⟩
    have among := List.mem_map_of_mem (f := fun seen => (seen.vector, seen.tests)) member
    rw [mapped] at among
    obtain ⟨other, member, same⟩ := List.mem_map.mp among
    refine ⟨other, member, ?_⟩
    rw [(Prod.mk.inj same).1, (Prod.mk.inj same).2]
    exact holds
  exact ⟨one (same.seen decision), one (same.seen decision).symm⟩

end SameTests

namespace Held

variable {ingest ingest' : Ingest} {log : Log}

theorem congr (held : Held ingest log) (same : SameTests ingest ingest') : Held ingest' log where
  known := by rw [same.tests, same.testOrder]; exact held.known
  once := by rw [same.testOrder]; exact held.once
  logged := by rw [same.testOrder]; exact held.logged
  hits := by rw [same.testsByHit]; exact held.hits
  seen := by
    intro decision vector test
    rw [← held.seen]
    exact same.exists_seen decision (P := fun seen tests => seen = vector ∧ test ∈ tests)
  distinct := by
    intro decision
    have mapped := congrArg (List.map Prod.fst) (same.seen decision)
    rw [List.map_map, List.map_map] at mapped
    exact mapped ▸ held.distinct decision
  tested := by
    intro decision observation member none
    obtain ⟨other, among, empty⟩ :=
      (same.exists_seen decision (P := fun _ tests => tests = [])).mp ⟨observation, member, none⟩
    exact held.tested decision other among empty
  testHits := by rw [same.tests]; exact held.testHits
  testVectors := by rw [same.tests]; exact held.testVectors
  recorded := by rw [same.tests]; exact held.recorded
  named := by rw [same.tests]; exact held.named

theorem lookup_changeAt_known {ingest : Ingest} {test other : String}
    {change : MutableTest → MutableTest} {record : MutableTest}
    (found : (changeAt test change ingest.tests).lookup other = some record) :
    ∃ before, ingest.tests.lookup other = some before ∧
      record = if other = test then change before else before := by
  rw [lookup_changeAt] at found
  by_cases same : other = test
  · rw [if_pos same] at found
    obtain ⟨before, held, changed⟩ := Option.map_eq_some_iff.mp found
    exact ⟨before, held, by rw [if_pos same, changed]⟩
  · rw [if_neg same] at found
    exact ⟨record, found, by rw [if_neg same]⟩

theorem known_changeAt {ingest : Ingest} {test : String} (change : MutableTest → MutableTest)
    (known : ∀ test, test ∈ ingest.testOrder ↔ (ingest.tests.lookup test).isSome) (other : String) :
    other ∈ ingest.testOrder ↔ ((changeAt test change ingest.tests).lookup other).isSome := by
  rw [known, lookup_changeAt]
  split <;> simp

theorem observe {test : String} (held : Held ingest log) (known : test ∈ ingest.testOrder)
    (decision : String) (vector : McdcVector) :
    Held (ingest.observe test decision vector) (log ++ [(test, .vector decision vector)]) where
  known := known_changeAt _ held.known
  once := held.once
  logged := by
    intro entry member
    rcases List.mem_append.mp member with old | new
    · exact held.logged entry old
    · rw [List.mem_singleton.mp new]
      exact known
  hits := by
    intro other id
    rw [List.mem_append, List.mem_singleton]
    simp [Ingest.observe, held.hits]
  seen := by
    intro other seen test'
    rw [List.mem_append, List.mem_singleton, ← held.seen]
    by_cases same : other = decision
    · subst same
      simp only [Ingest.observe, Function.update_self, tests_noteObservation]
      simp only [Prod.mk.injEq, Item.vector.injEq, true_and, and_comm]
    · simp [Ingest.observe, same]
  distinct := by
    intro other
    by_cases same : other = decision
    · subst same
      simp only [Ingest.observe, Function.update_self, vectors_noteObservation]
      exact nodup_insertVector (held.distinct other)
    · simp only [Ingest.observe, Function.update_of_ne same]
      exact held.distinct other
  tested := by
    intro other
    by_cases same : other = decision
    · subst same
      simp only [Ingest.observe, Function.update_self]
      exact tested_noteObservation (held.tested other)
    · simp only [Ingest.observe, Function.update_of_ne same]
      exact held.tested other
  testHits := by
    intro other record found id
    obtain ⟨before, was, rfl⟩ := lookup_changeAt_known found
    rw [List.mem_append, List.mem_singleton, ← held.testHits other before was]
    split <;> simp
  testVectors := by
    intro other record found decision' seen
    obtain ⟨before, was, rfl⟩ := lookup_changeAt_known found
    rw [List.mem_append, List.mem_singleton, ← held.testVectors other before was]
    by_cases same : other = test
    · simp [same, mem_insertDecision]
    · simp [same]
  recorded := by
    intro other record found decision'
    obtain ⟨before, was, rfl⟩ := lookup_changeAt_known found
    simp only [List.mem_append, List.mem_singleton, exists_or, ← held.recorded other before was]
    by_cases same : other = test
    · rw [if_pos same, insertDecision, Ordered.mem_keys_put, or_comm]
      simp [same]
    · simp [same]
  named := by
    intro other record found
    obtain ⟨before, was, rfl⟩ := lookup_changeAt_known found
    split <;> exact held.named other before was

theorem foldl_observe {test : String} (decision : String) (vectors : List McdcVector)
    (held : Held ingest log) (known : test ∈ ingest.testOrder) :
    Held (vectors.foldl (Ingest.observe test decision) ingest)
      (log ++ vectors.map fun vector => (test, .vector decision vector)) := by
  induction vectors generalizing ingest log with
  | nil => simpa using held
  | cons vector rest ih =>
    have observed := ih (held.observe known decision vector) known
    rwa [List.append_assoc, List.singleton_append] at observed

theorem foldl_observe_frame (test decision : String) (vectors : List McdcVector)
    (ingest : Ingest) :
    (vectors.foldl (Ingest.observe test decision) ingest).testsByDecision =
        ingest.testsByDecision ∧
      (vectors.foldl (Ingest.observe test decision) ingest).testOrder = ingest.testOrder := by
  induction vectors generalizing ingest with
  | nil => exact ⟨rfl, rfl⟩
  | cons vector rest ih => exact ih (ingest.observe test decision vector)

end Held

def Log.of (test : String) (items : List Item) : Log := items.map fun item => (test, item)

theorem mem_decisionItems {manifest : CoverageManifest} {decision : DecisionSnapshot} {item : Item} :
    item ∈ decisionItems manifest decision ↔
      Measures manifest decision.id ∧ ∃ vector ∈ decision.vectors,
        item = .vector decision.id vector := by
  rw [decisionItems]
  split
  · next measured => simp [measured, eq_comm]
  · next declined => simp [declined]

namespace Noted

variable {ingest ingest' : Ingest} {log : Log}

theorem congr (noted : Noted ingest log) (same : SameTests ingest ingest') : Noted ingest' log where
  toHeld := noted.toHeld.congr same
  decided := by rw [same.testsByDecision]; exact noted.decided

theorem empty : Noted .empty [] where
  known := by simp [Ingest.empty]
  once := by simp [Ingest.empty]
  logged := by simp
  hits := by simp [Ingest.empty]
  seen := by simp [Ingest.empty]
  distinct := by simp [Ingest.empty]
  tested := by simp [Ingest.empty]
  testHits := by simp [Ingest.empty]
  testVectors := by simp [Ingest.empty]
  recorded := by simp [Ingest.empty]
  named := by simp [Ingest.empty]
  decided := by simp [Ingest.empty]

theorem hit {test : String} (noted : Noted ingest log) (known : test ∈ ingest.testOrder)
    (id : String) : Noted (ingest.hit test id) (log ++ [(test, .hit id)]) where
  known := Held.known_changeAt _ noted.known
  once := noted.once
  logged := by
    intro entry member
    rcases List.mem_append.mp member with old | new
    · exact noted.logged entry old
    · rw [List.mem_singleton.mp new]
      exact known
  hits := by
    intro other id'
    rw [List.mem_append, List.mem_singleton, ← noted.hits]
    simp [Ingest.hit, mem_pushAt, and_comm]
  seen := by
    intro decision vector other
    rw [List.mem_append, List.mem_singleton, ← noted.seen]
    simp [Ingest.hit]
  distinct := noted.distinct
  tested := noted.tested
  testHits := by
    intro other record found id'
    obtain ⟨before, was, rfl⟩ := Held.lookup_changeAt_known found
    rw [List.mem_append, List.mem_singleton, ← noted.testHits other before was]
    by_cases same : other = test <;> simp [same]
  testVectors := by
    intro other record found decision vector
    obtain ⟨before, was, rfl⟩ := Held.lookup_changeAt_known found
    rw [List.mem_append, List.mem_singleton, ← noted.testVectors other before was]
    split <;> simp
  recorded := by
    intro other record found decision
    obtain ⟨before, was, rfl⟩ := Held.lookup_changeAt_known found
    simp only [List.mem_append, List.mem_singleton, exists_or, ← noted.recorded other before was]
    split <;> simp
  named := by
    intro other record found
    obtain ⟨before, was, rfl⟩ := Held.lookup_changeAt_known found
    split <;> exact noted.named other before was
  decided := by
    intro decision other
    simp [Ingest.hit, noted.decided]

theorem observeDecision_order (manifest : CoverageManifest) (test : String) (ingest : Ingest)
    (decision : DecisionSnapshot) :
    (ingest.observeDecision manifest test decision).testOrder = ingest.testOrder := by
  rw [Ingest.observeDecision]
  split
  · dsimp only
    split
    · exact (Held.foldl_observe_frame test decision.id decision.vectors ingest).2
    · exact (Held.foldl_observe_frame test decision.id decision.vectors ingest).2
  · rfl

theorem observeDecision {test : String} (manifest : CoverageManifest)
    (noted : Noted ingest log) (known : test ∈ ingest.testOrder) (decision : DecisionSnapshot) :
    Noted (ingest.observeDecision manifest test decision)
      (log ++ Log.of test (decisionItems manifest decision)) := by
  have observed := noted.toHeld.foldl_observe decision.id decision.vectors known
  obtain ⟨same, -⟩ := Held.foldl_observe_frame test decision.id decision.vectors ingest
  rw [Ingest.observeDecision, decisionItems]
  split
  · next measured =>
    rw [if_pos (c := Measures manifest decision.id) measured, Log.of, List.map_map]
    dsimp only
    split
    · next none =>
      refine ⟨observed, ?_⟩
      rw [List.isEmpty_iff.mp none]
      intro other other'
      simp [noted.decided]
    · next some =>
      refine ⟨{ observed with }, ?_⟩
      intro other other'
      have vectors : ∃ vector, vector ∈ decision.vectors :=
        List.exists_mem_of_ne_nil _ (by simpa using some)
      rw [mem_pushAt, same, noted.decided]
      simp only [List.mem_append, exists_or, List.mem_map, Function.comp_apply, Prod.mk.injEq,
        Item.vector.injEq]
      apply or_congr_right
      constructor
      · rintro ⟨here, mine⟩
        obtain ⟨vector, member⟩ := vectors
        exact ⟨vector, vector, member, mine.symm, here.symm, rfl⟩
      · rintro ⟨vector, -, -, mine, here, -⟩
        exact ⟨here.symm, mine.symm⟩
  · next declined =>
    rw [if_neg (c := Measures manifest decision.id) declined]
    simpa [Log.of] using noted

end Noted

structure Adds (test : String) (items : List Item) (ingest ingest' : Ingest) : Prop where
  order : ingest'.testOrder = ingest.testOrder
  noted : ∀ log, test ∈ ingest.testOrder → Noted ingest log → Noted ingest' (log ++ Log.of test items)

namespace Adds

variable {test : String} {items items' : List Item} {ingest ingest' ingest'' : Ingest}

theorem of_same (same : SameTests ingest ingest') : Adds test [] ingest ingest' where
  order := same.testOrder
  noted log _ noted := by
    rw [Log.of, List.map_nil, List.append_nil]
    exact noted.congr same

theorem trans (first : Adds test items ingest ingest') (second : Adds test items' ingest' ingest'') :
    Adds test (items ++ items') ingest ingest'' where
  order := second.order.trans first.order
  noted log known noted := by
    have both := second.noted _ (first.order ▸ known) (first.noted log known noted)
    rwa [List.append_assoc, Log.of, Log.of, ← List.map_append] at both

theorem foldlM {ι : Type} {step : Ingest → ι → Outcome ReportError Ingest} {itemsOf : ι → List Item}
    (each : ∀ ingest ingest' input, step ingest input = .ok ingest' →
      Adds test (itemsOf input) ingest ingest')
    {inputs : List ι} (read : inputs.foldlM step ingest = .ok ingest') :
    Adds test (inputs.flatMap itemsOf) ingest ingest' := by
  induction inputs generalizing ingest with
  | nil =>
    cases read
    exact of_same (SameTests.refl _)
  | cons input rest ih =>
    rw [List.foldlM_cons] at read
    obtain ⟨next, first, others⟩ := Outcome.bind_eq_ok.mp read
    exact (each ingest next input first).trans (ih others)

theorem foldl {ι : Type} {step : Ingest → ι → Ingest} {itemsOf : ι → List Item}
    (each : ∀ ingest input, Adds test (itemsOf input) ingest (step ingest input))
    (ingest : Ingest) (inputs : List ι) :
    Adds test (inputs.flatMap itemsOf) ingest (inputs.foldl step ingest) := by
  induction inputs generalizing ingest with
  | nil => exact of_same (SameTests.refl ingest)
  | cons input rest ih => exact (each ingest input).trans (ih (step ingest input))

theorem hit (id : String) : Adds test [.hit id] ingest (ingest.hit test id) where
  order := rfl
  noted _ known noted := noted.hit known id

theorem observeDecision (manifest : CoverageManifest) (decision : DecisionSnapshot) :
    Adds test (decisionItems manifest decision) ingest
      (ingest.observeDecision manifest test decision) where
  order := Noted.observeDecision_order manifest test ingest decision
  noted _ known noted := noted.observeDecision manifest known decision

theorem snapshot {manifest : CoverageManifest} {ordered : List CoveragePhase} {browser : Bool}
    {snapshot : RuntimeSnapshot}
    (read : ingest.snapshot manifest test ordered browser snapshot = .ok ingest') :
    Adds test (snapshotItems manifest snapshot) ingest ingest' := by
  obtain ⟨noted, events, done⟩ := Outcome.bind_eq_ok.mp read
  rw [Outcome.pure_eq, Outcome.ok.injEq] at done
  have decided : Adds test (snapshot.decisions.flatMap (decisionItems manifest)) ingest _ :=
    foldl (fun _ => observeDecision manifest) ingest snapshot.decisions
  have reached := decided.trans (foldl (fun _ id => hit id) _ snapshot.hits)
  have evented := reached.trans
    (foldlM (fun _ _ _ read => of_same (SameTests.event read)) events)
  have all := evented.trans (of_same (SameTests.snapshotPhase browser snapshot noted))
  rw [done] at all
  have hits : (snapshot.hits.flatMap fun id => [Item.hit id]) = snapshot.hits.map .hit :=
    List.flatMap_pure_eq_map _ _
  have events : (snapshot.events.flatMap fun _ => ([] : List Item)) = [] := by simp
  rwa [hits, events, List.append_nil, List.append_nil] at all

theorem serverRecord {manifest : CoverageManifest} {ordered : List CoveragePhase}
    {record : ServerRecord}
    (read : ingest.serverRecord manifest test ordered record = .ok ingest') :
    Adds test (recordItems manifest record) ingest ingest' := by
  rw [Ingest.serverRecord] at read
  rw [recordItems]
  split_ifs at read ⊢
  · split at read
    · cases read
    · cases read
    · next decision vector named seen =>
      rw [named, seen]
      dsimp only
      split at read
      · cases read
        have observed : Adds test _ ingest _ :=
          observeDecision manifest { id := decision, vectors := [vector] }
        have all := observed.trans (of_same (SameTests.serverPhase ordered record decision (some vector) _))
        rwa [List.append_nil] at all
      · next declined =>
        cases read
        rw [decisionItems, if_neg (c := Measures manifest decision) declined]
        exact of_same (SameTests.refl ingest)
  · split at read
    · cases read
    · next id named =>
      cases read
      rw [named]
      exact (hit id).trans (of_same (SameTests.serverPhase ordered record id none _))

end Adds

namespace Noted

variable {ingest ingest' : Ingest} {log : Log}

theorem lookup_put_holds {P : String → MutableTest → Prop} {tests : List (String × MutableTest)}
    {name : String} {record : MutableTest} (new : P name record)
    (old : ∀ test record, tests.lookup test = some record → P test record) :
    ∀ test found, (put name record tests).lookup test = some found → P test found := by
  intro test found held
  rw [lookup_put] at held
  split at held
  · next same =>
    cases held
    exact same ▸ new
  · exact old test found held

theorem register (noted : Noted ingest log) (raw : RawTestResult) :
    Noted (ingest.register raw) log ∧
      ∀ test, test ∈ (ingest.register raw).testOrder ↔
        test ∈ ingest.testOrder ∨ test = rawTestId raw := by
  cases found : ingest.tests.lookup (rawTestId raw) with
  | some before =>
    have registers : ingest.register raw =
        { ingest with tests := put (rawTestId raw) (before.register raw) ingest.tests } := by
      simp only [Ingest.register, found]
    rw [registers]
    have known : rawTestId raw ∈ ingest.testOrder := by simp [noted.known, found]
    constructor
    · refine { noted with
        known := ?_
        testHits := lookup_put_holds (noted.testHits _ before found) noted.testHits
        testVectors := lookup_put_holds (noted.testVectors _ before found) noted.testVectors
        recorded := lookup_put_holds (noted.recorded _ before found) noted.recorded
        named := lookup_put_holds (noted.named _ before found) noted.named }
      intro test
      rw [noted.known, lookup_put]
      split
      · next same => simp [same, found]
      · rfl
    · intro test
      constructor
      · exact Or.inl
      · intro h
        rcases h with old | rfl
        · exact old
        · exact known
  | none =>
    have registers : ingest.register raw =
        { ingest with
          testOrder := ingest.testOrder ++ [rawTestId raw]
          tests := put (rawTestId raw) ((MutableTest.of raw).register raw) ingest.tests } := by
      simp only [Ingest.register, found]
    rw [registers]
    have unknown : rawTestId raw ∉ ingest.testOrder := by simp [noted.known, found]
    have unlogged (item : Item) : (rawTestId raw, item) ∉ log :=
      fun member => unknown (noted.logged _ member)
    constructor
    · refine { noted with
        known := ?_
        once := ?_
        logged := fun entry member => List.mem_append_left _ (noted.logged entry member)
        testHits := lookup_put_holds ?_ noted.testHits
        testVectors := lookup_put_holds ?_ noted.testVectors
        recorded := lookup_put_holds ?_ noted.recorded
        named := lookup_put_holds rfl noted.named }
      · intro test
        rw [List.mem_append, List.mem_singleton, noted.known, lookup_put]
        split
        · next same => simp [same]
        · next different => simp [different]
      · rw [← List.concat_eq_append]
        exact noted.once.concat unknown
      · simp [unlogged, MutableTest.register, MutableTest.of]
      · simp [unlogged, MutableTest.register, MutableTest.of]
      · simp [unlogged, MutableTest.register, MutableTest.of]
    · intro test
      rw [List.mem_append, List.mem_singleton]

theorem result {manifest : CoverageManifest} {raw : RawTestResult} (noted : Noted ingest log)
    (read : ingest.result manifest raw = .ok ingest') :
    Noted ingest' (log ++ Log.of (rawTestId raw) (itemsOf manifest raw)) ∧
      ∀ test, test ∈ ingest'.testOrder ↔ test ∈ ingest.testOrder ∨ test = rawTestId raw := by
  obtain ⟨run, ran, rest⟩ := Outcome.bind_eq_ok.mp read
  obtain ⟨browsed, browser, served⟩ := Outcome.bind_eq_ok.mp rest
  obtain ⟨registered, order⟩ := noted.register raw
  have declared : SameTests (ingest.register raw) _ :=
    SameTests.foldl (SameTests.declarePhase (rawTestId raw)) _ (orderedPhases raw)
  have ran := Adds.foldlM (fun _ _ _ read => Adds.snapshot read) ran
  have browser := Adds.foldlM (fun _ _ _ read => Adds.snapshot read) browser
  have served := Adds.foldlM (fun _ _ _ read => Adds.serverRecord read) served
  have all := ((Adds.of_same declared).trans (ran.trans browser)).trans served
  constructor
  · have after := all.noted log ((order _).mpr (Or.inr rfl)) registered
    rwa [List.nil_append, ← List.flatMap_append] at after
  · intro test
    rw [all.order, order]

theorem ingestResults {manifest : CoverageManifest} {rawResults : List RawTestResult}
    (read : ingestResults manifest rawResults = .ok ingest) :
    Noted ingest (logOf manifest rawResults) ∧
      ∀ test, test ∈ ingest.testOrder ↔ ∃ raw ∈ rawResults, rawTestId raw = test := by
  suffices from_ : ∀ start log, Noted start log →
      rawResults.foldlM (Ingest.result manifest) start = .ok ingest →
      Noted ingest (log ++ logOf manifest rawResults) ∧
        ∀ test, test ∈ ingest.testOrder ↔
          test ∈ start.testOrder ∨ ∃ raw ∈ rawResults, rawTestId raw = test by
    obtain ⟨noted, order⟩ := from_ .empty [] Noted.empty read
    exact ⟨noted, fun test => by simp [order, Ingest.empty]⟩
  clear read
  induction rawResults with
  | nil =>
    intro start log noted read
    cases read
    exact ⟨by simpa [logOf] using noted, by simp⟩
  | cons raw rest ih =>
    intro start log noted read
    rw [List.foldlM_cons] at read
    obtain ⟨next, first, others⟩ := Outcome.bind_eq_ok.mp read
    obtain ⟨after, order⟩ := noted.result first
    obtain ⟨all, known⟩ := ih next _ after others
    constructor
    · rwa [List.append_assoc] at all
    · intro test
      rw [known, order, List.exists_mem_cons_iff, or_assoc, eq_comm (a := test)]

end Noted

end Supercov.Report
