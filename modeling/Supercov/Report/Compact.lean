import Supercov.Report.Unordered

/-!
# Snapshots that name their phase

A frontend that observes a whole phase at once names the phase in the snapshot, and the analysis
reads it as the explicit events of that phase that the frontend no longer writes.
-/

namespace Supercov.Report

open Ordered (put)

/-- The events that a snapshot of a phase stands for, without their times. -/
def phaseEvents (browser : Bool) (phase : String) (snapshot : RuntimeSnapshot) : List RuntimeEvent :=
  let environment := if browser then "browser" else "server"
  snapshot.hits.map (fun hit =>
      { eventType := "hit", id := hit, vector := none, timestampMs := 0, phaseId := some phase
        environment }) ++
    snapshot.decisions.flatMap fun decision => decision.vectors.map fun vector =>
      { eventType := "decision", id := decision.id, vector := some vector, timestampMs := 0
        phaseId := some phase, environment }

def RuntimeEvent.untimed (event : RuntimeEvent) : RuntimeEvent := { event with timestampMs := 0 }

/-- The snapshot as it was written before: its events behind those it has, each at some time. -/
inductive WrittenOut (browser : Bool) : RuntimeSnapshot → RuntimeSnapshot → Prop
  | same (snapshot) : WrittenOut browser snapshot snapshot
  | events {snapshot phase} (named : snapshot.phaseId = some phase) {events : List RuntimeEvent}
      (written : events.map RuntimeEvent.untimed = phaseEvents browser phase snapshot) :
      WrittenOut browser snapshot
        { snapshot with phaseId := none, events := snapshot.events ++ events }

structure RawTestResult.WrittenOut (raw other : RawTestResult) : Prop where
  same : other = { raw with runtime := other.runtime, browser := other.browser }
  runtime : List.Forall₂ (Report.WrittenOut false) raw.runtime other.runtime
  browser : List.Forall₂ (Report.WrittenOut true) raw.browser other.browser

section Changes

variable {Value : Type}

theorem put_put (key : String) (value other : Value) (map : List (String × Value)) :
    put key value (put key other map) = put key value map := by
  induction map with
  | nil => simp [put]
  | cons entry map ih =>
    obtain ⟨held, old⟩ := entry
    rw [put, put]
    by_cases before : key < held
    · rw [if_pos before, if_pos before, put, if_neg (lt_irrefl key), if_pos rfl]
    · rw [if_neg before, if_neg before]
      by_cases same : key = held
      · rw [if_pos same, if_pos same, put, if_neg (lt_irrefl key), if_pos rfl]
      · rw [if_neg same, if_neg same, put, if_neg before, if_neg same, ih]

theorem put_of_lookup {key : String} {value : Value} {map : List (String × Value)}
    (sorted : Ordered.Sorted map) (held : map.lookup key = some value) : put key value map = map := by
  induction map with
  | nil => cases held
  | cons entry map ih =>
    obtain ⟨other, old⟩ := entry
    have ⟨first, sorted⟩ := List.pairwise_cons.mp sorted
    rw [Ordered.lookup_cons_ite] at held
    rw [put]
    by_cases same : key = other
    · rw [if_pos same] at held
      cases held
      rw [if_neg (by rw [same]; exact lt_irrefl other), if_pos same, same]
    · rw [if_neg same] at held
      have key_mem : key ∈ map.map (·.1) := Ordered.mem_keys_iff_lookup.mpr ⟨value, held⟩
      obtain ⟨entry, member, rfl⟩ := List.mem_map.mp key_mem
      rw [if_neg (not_lt_of_gt (first entry member)), if_neg same, ih sorted held]

theorem changeAt_changeAt (key : String) (first second : Value → Value)
    (map : List (String × Value)) :
    changeAt key second (changeAt key first map) =
      changeAt key (fun value => second (first value)) map := by
  have after := lookup_changeAt key key first map
  rw [if_pos rfl] at after
  rw [changeAt, after]
  cases held : map.lookup key with
  | none => simp only [Option.map_none, changeAt, held]
  | some value => simp only [Option.map_some, changeAt, held, put_put]

theorem changeAt_same {key : String} {change : Value → Value} {map : List (String × Value)}
    (sorted : Ordered.Sorted map) (same : ∀ value, change value = value) :
    changeAt key change map = map := by
  rw [changeAt]
  cases held : map.lookup key with
  | none => rfl
  | some value =>
    dsimp only
    rw [same, put_of_lookup sorted held]

theorem sorted_changeAt {key : String} {change : Value → Value} {map : List (String × Value)}
    (sorted : Ordered.Sorted map) : Ordered.Sorted (changeAt key change map) := by
  rw [changeAt]
  split
  · exact sorted.put _ _
  · exact sorted

end Changes

namespace Ingest

section Steps

variable {ingest : Ingest} {phase : String} {browser : Bool}

theorem phaseHit_countEvents (events : Nat) (id : String) :
    (ingest.countEvents phase browser true events).phaseHit phase true id =
      (ingest.phaseHit phase true id).countEvents phase browser true events := by
  simp only [phaseHit, countEvents, changeAt_changeAt]

theorem phaseVector_countEvents (events : Nat) (decision : String) (vector : Analysis.McdcVector) :
    (ingest.countEvents phase browser true events).phaseVector phase true decision vector =
      (ingest.phaseVector phase true decision vector).countEvents phase browser true events := by
  simp only [phaseVector, countEvents, changeAt_changeAt]

theorem countEvents_countEvents (first second : Nat) :
    (ingest.countEvents phase browser true first).countEvents phase browser true second =
      ingest.countEvents phase browser true (first + second) := by
  simp only [countEvents, changeAt_changeAt]
  cases browser <;> simp [Nat.add_assoc]

theorem countEvents_zero (sorted : Ordered.Sorted ingest.phases) :
    ingest.countEvents phase browser true 0 = ingest := by
  rw [countEvents, changeAt_same sorted fun held => by simp]

theorem foldl_counted {Item : Type} {note : Ingest → Item → Ingest}
    (apart : ∀ (ingest : Ingest) (item : Item) (events : Nat),
      note (ingest.countEvents phase browser true events) item =
        (note ingest item).countEvents phase browser true events)
    (kept : ∀ (ingest : Ingest) (item : Item), Ordered.Sorted ingest.phases →
      Ordered.Sorted (note ingest item).phases)
    (items : List Item) (sorted : Ordered.Sorted ingest.phases) :
    items.foldl (fun ingest item => note (ingest.countEvents phase browser true 1) item) ingest =
      items.foldl note (ingest.countEvents phase browser true items.length) := by
  induction items generalizing ingest with
  | nil => exact (countEvents_zero sorted).symm
  | cons item items ih =>
    rw [List.foldl_cons, List.foldl_cons, apart, apart, ih (sorted_changeAt (kept _ _ sorted)),
      countEvents_countEvents, Nat.add_comm, List.length_cons]

end Steps

section Snapshot

variable {ingest : Ingest} {ordered : List CoveragePhase} {phase : String} {browser : Bool}

abbrev Observed := String ⊕ (String × Analysis.McdcVector)

def observedOf (snapshot : RuntimeSnapshot) : List Observed :=
  snapshot.hits.map .inl ++ snapshot.decisions.flatMap fun decision =>
    decision.vectors.map fun vector => .inr (decision.id, vector)

def Observed.event (browser : Bool) (phase : String) (observed : Observed) : RuntimeEvent :=
  let environment := if browser then "browser" else "server"
  match observed with
  | .inl hit =>
    { eventType := "hit", id := hit, vector := none, timestampMs := 0, phaseId := some phase
      environment }
  | .inr (decision, vector) =>
    { eventType := "decision", id := decision, vector := some vector, timestampMs := 0
      phaseId := some phase, environment }

def noteObserved (phase : String) (ingest : Ingest) : Observed → Ingest
  | .inl hit => ingest.phaseHit phase true hit
  | .inr (decision, vector) => ingest.phaseVector phase true decision vector

theorem phaseEvents_eq (snapshot : RuntimeSnapshot) :
    phaseEvents browser phase snapshot =
      (observedOf snapshot).map (Observed.event browser phase) := by
  rw [phaseEvents, observedOf, List.map_append, List.map_map, List.map_flatMap]
  simp only [List.map_map]
  rfl

theorem sorted_noteObserved (ingest : Ingest) (observed : Observed)
    (sorted : Ordered.Sorted ingest.phases) :
    Ordered.Sorted (ingest.noteObserved phase observed).phases := by
  cases observed <;> exact sorted_changeAt sorted

theorem noteObserved_countEvents (ingest : Ingest) (observed : Observed) (events : Nat) :
    (ingest.countEvents phase browser true events).noteObserved phase observed =
      (ingest.noteObserved phase observed).countEvents phase browser true events := by
  cases observed with
  | inl hit => exact phaseHit_countEvents events hit
  | inr vector => exact phaseVector_countEvents events vector.1 vector.2

theorem event_observed (observed : Observed) :
    ingest.event ordered (observed.event browser phase) =
      .ok (if (ingest.phases.lookup phase).isNone then ingest
        else (ingest.countEvents phase browser true 1).noteObserved phase observed) := by
  cases browser <;> rcases observed with hit | ⟨decision, vector⟩ <;>
    simp [event, Observed.event, noteObserved] <;> split <;> rfl

theorem lookup_noteObserved (observed : Observed) :
    (((ingest.countEvents phase browser true 1).noteObserved phase observed).phases.lookup
      phase).isNone = (ingest.phases.lookup phase).isNone := by
  cases observed <;> simp [noteObserved, phaseHit, phaseVector, countEvents]

theorem foldlM_observed (items : List Observed) :
    (items.map (Observed.event browser phase)).foldlM (event ordered) ingest =
      .ok (if (ingest.phases.lookup phase).isNone then ingest
        else items.foldl (fun ingest observed =>
          (ingest.countEvents phase browser true 1).noteObserved phase observed) ingest) := by
  induction items generalizing ingest with
  | nil => simp
  | cons observed items ih =>
    rw [List.map_cons, List.foldlM_cons, event_observed, Outcome.ok_bind, ih]
    by_cases absent : (ingest.phases.lookup phase).isNone
    · simp only [if_pos absent]
    · rw [if_neg absent, lookup_noteObserved, if_neg absent, if_neg absent, List.foldl_cons]

theorem event_untimed {event : RuntimeEvent} (named : event.phaseId.isSome) :
    ingest.event ordered event = ingest.event ordered event.untimed := by
  obtain ⟨eventType, id, vector, timestampMs, phaseId, environment⟩ := event
  cases phaseId with
  | none => cases named
  | some phase => rfl

theorem foldlM_untimed {events : List RuntimeEvent} (named : ∀ event ∈ events, event.phaseId.isSome) :
    events.foldlM (event ordered) ingest =
      (events.map RuntimeEvent.untimed).foldlM (event ordered) ingest := by
  induction events generalizing ingest with
  | nil => rfl
  | cons event events ih =>
    have ⟨first, rest⟩ := List.forall_mem_cons.mp named
    rw [List.map_cons, List.foldlM_cons, List.foldlM_cons, event_untimed first]
    congr 1
    exact funext fun _ => ih rest

theorem snapshotPhase_observed {snapshot : RuntimeSnapshot} (named : snapshot.phaseId = some phase)
    (sorted : Ordered.Sorted ingest.phases) :
    ingest.snapshotPhase browser snapshot =
      if (ingest.phases.lookup phase).isNone then ingest
      else (observedOf snapshot).foldl (fun ingest observed =>
        (ingest.countEvents phase browser true 1).noteObserved phase observed) ingest := by
  rw [snapshotPhase, named]
  dsimp only
  split
  · rfl
  · rw [foldl_counted noteObserved_countEvents sorted_noteObserved _ sorted]
    have length : (observedOf snapshot).length =
        snapshot.hits.length + (snapshot.decisions.map (·.vectors.length)).sum := by
      simp [observedOf, List.length_flatMap]
    rw [length, observedOf, List.foldl_append, List.foldl_map, List.foldl_flatMap]
    simp only [List.foldl_map]
    rfl

theorem sorted_foldl {Item : Type} (step : Ingest → Item → Ingest)
    (kept : ∀ (ingest : Ingest) (item : Item), Ordered.Sorted ingest.phases →
      Ordered.Sorted (step ingest item).phases)
    (items : List Item) (sorted : Ordered.Sorted ingest.phases) :
    Ordered.Sorted (items.foldl step ingest).phases :=
  List.foldlRecOn (motive := fun ingest : Ingest => Ordered.Sorted ingest.phases) items step sorted
    fun ingest sorted item _ => kept ingest item sorted

theorem sorted_observeDecision {manifest : CoverageManifest} {test : String}
    (decision : DecisionSnapshot) (sorted : Ordered.Sorted ingest.phases) :
    Ordered.Sorted (ingest.observeDecision manifest test decision).phases := by
  have observed : Ordered.Sorted (decision.vectors.foldl (observe test decision.id) ingest).phases :=
    sorted_foldl (observe test decision.id) (fun _ _ sorted => sorted) _ sorted
  rw [observeDecision]
  split
  · dsimp only
    split <;> exact observed
  · exact sorted

theorem sorted_reached (manifest : CoverageManifest) (test : String) (snapshot : RuntimeSnapshot)
    (sorted : Ordered.Sorted ingest.phases) :
    Ordered.Sorted (snapshot.hits.foldl (hit test)
      (snapshot.decisions.foldl (observeDecision manifest test) ingest)).phases :=
  sorted_foldl (hit test) (fun _ _ sorted => sorted) _
    (sorted_foldl (observeDecision manifest test)
      (fun _ decision sorted => sorted_observeDecision decision sorted) _ sorted)

theorem sorted_event {event : RuntimeEvent} (sorted : Ordered.Sorted ingest.phases) :
    (ingest.event ordered event).Yields fun next => Ordered.Sorted next.phases := by
  rw [Ingest.event]
  split
  · exact sorted
  · split_ifs
    · exact sorted
    · exact sorted_changeAt (sorted_changeAt sorted)
    · split
      · exact sorted_changeAt (sorted_changeAt sorted)
      · trivial
    · trivial

theorem sorted_events {events : List RuntimeEvent} (sorted : Ordered.Sorted ingest.phases) :
    (events.foldlM (event ordered) ingest).Yields fun next => Ordered.Sorted next.phases :=
  Outcome.Yields.foldlM sorted fun _ sorted _ _ => sorted_event sorted

theorem sorted_snapshotPhase (snapshot : RuntimeSnapshot) (sorted : Ordered.Sorted ingest.phases) :
    Ordered.Sorted (ingest.snapshotPhase browser snapshot).phases := by
  rw [snapshotPhase]
  split
  · exact sorted
  · split_ifs
    · exact sorted
    · apply sorted_foldl _ fun _ _ sorted => sorted_foldl _ (fun _ _ => sorted_changeAt) _ sorted
      exact sorted_foldl _ (fun _ _ => sorted_changeAt) _ (sorted_changeAt sorted)

theorem snapshot_writtenOut {manifest : CoverageManifest} {test : String}
    {snapshot other : RuntimeSnapshot} (sorted : Ordered.Sorted ingest.phases)
    (written : WrittenOut browser snapshot other) :
    ingest.snapshot manifest test ordered browser snapshot =
      ingest.snapshot manifest test ordered browser other := by
  cases written with
  | same => rfl
  | @events phase named events written =>
    have phased : ∀ event ∈ events, event.phaseId.isSome := by
      intro event member
      have among := List.mem_map_of_mem (f := RuntimeEvent.untimed) member
      rw [written, phaseEvents_eq] at among
      obtain ⟨observed, -, same⟩ := List.mem_map.mp among
      have same := congrArg RuntimeEvent.phaseId same
      cases observed <;> exact same ▸ rfl
    have reached := sorted_reached manifest test snapshot sorted
    rw [Ingest.snapshot, Ingest.snapshot]
    dsimp only
    rw [Outcome.foldlM_append_bind]
    cases noted : snapshot.events.foldlM (event ordered) (snapshot.hits.foldl (hit test)
      (snapshot.decisions.foldl (observeDecision manifest test) ingest)) with
    | refused error => rfl
    | crashed => rfl
    | ok noted' =>
      have sorted := (sorted_events reached).of_ok noted
      rw [Outcome.ok_bind, Outcome.ok_bind, foldlM_untimed phased, written, phaseEvents_eq,
        foldlM_observed, snapshotPhase_observed named sorted]
      rfl

end Snapshot

section Results

variable {ingest : Ingest} {ordered : List CoveragePhase} {browser : Bool}
  {manifest : CoverageManifest} {test : String}

theorem sorted_snapshot {snapshot : RuntimeSnapshot} (sorted : Ordered.Sorted ingest.phases) :
    (ingest.snapshot manifest test ordered browser snapshot).Yields
      fun next => Ordered.Sorted next.phases :=
  Outcome.Yields.bind (sorted_events (sorted_reached _ _ snapshot sorted))
    fun _ sorted => sorted_snapshotPhase snapshot sorted

theorem snapshots_writtenOut {snapshots others : List RuntimeSnapshot}
    (written : List.Forall₂ (WrittenOut browser) snapshots others)
    (sorted : Ordered.Sorted ingest.phases) :
    snapshots.foldlM (snapshot manifest test ordered browser) ingest =
      others.foldlM (snapshot manifest test ordered browser) ingest := by
  induction written generalizing ingest with
  | nil => rfl
  | @cons snapshot other snapshots others first _ ih =>
    rw [List.foldlM_cons, List.foldlM_cons, ← snapshot_writtenOut sorted first]
    cases read : ingest.snapshot manifest test ordered browser snapshot with
    | refused error => rfl
    | crashed => rfl
    | ok next => exact ih ((sorted_snapshot sorted).of_ok read)

theorem sorted_snapshots {snapshots : List RuntimeSnapshot}
    (sorted : Ordered.Sorted ingest.phases) :
    (snapshots.foldlM (snapshot manifest test ordered browser) ingest).Yields
      fun next => Ordered.Sorted next.phases :=
  Outcome.Yields.foldlM sorted fun _ sorted _ _ => sorted_snapshot sorted

theorem sorted_serverPhase {record : ServerRecord} {id : String}
    {vector : Option Analysis.McdcVector} (sorted : Ordered.Sorted ingest.phases) :
    Ordered.Sorted (ingest.serverPhase ordered record id vector).phases := by
  rw [serverPhase]
  split
  · exact sorted
  · split
    · exact sorted
    · split_ifs
      · exact sorted
      · split <;> exact sorted_changeAt (sorted_changeAt sorted)

theorem sorted_serverRecord {record : ServerRecord} (sorted : Ordered.Sorted ingest.phases) :
    (ingest.serverRecord manifest test ordered record).Yields
      fun next => Ordered.Sorted next.phases := by
  rw [serverRecord]
  split_ifs
  · split
    · trivial
    · trivial
    · split_ifs
      · exact sorted_serverPhase (sorted_observeDecision _ sorted)
      · exact sorted
  · split
    · trivial
    · exact sorted_serverPhase sorted
  · trivial

theorem sorted_declared (raw : RawTestResult) (sorted : Ordered.Sorted ingest.phases) :
    Ordered.Sorted ((orderedPhases raw).foldl (declarePhase (rawTestId raw))
      (ingest.register raw)).phases := by
  apply sorted_foldl _ fun _ phase sorted => sorted.put _ _
  rw [register]
  split <;> exact sorted

theorem sorted_result {raw : RawTestResult} (sorted : Ordered.Sorted ingest.phases) :
    (ingest.result manifest raw).Yields fun next => Ordered.Sorted next.phases :=
  Outcome.Yields.bind (sorted_snapshots (sorted_declared raw sorted)) fun _ sorted =>
    Outcome.Yields.bind (sorted_snapshots sorted) fun _ sorted =>
      Outcome.Yields.foldlM sorted fun _ sorted _ _ => sorted_serverRecord sorted

theorem result_writtenOut {raw other : RawTestResult} (written : raw.WrittenOut other)
    (sorted : Ordered.Sorted ingest.phases) :
    ingest.result manifest raw = ingest.result manifest other := by
  obtain ⟨same, runtime, browser⟩ := written
  rw [same, result, result]
  change _ = (other.runtime.foldlM (snapshot manifest (rawTestId raw) (orderedPhases raw) false)
    ((orderedPhases raw).foldl (declarePhase (rawTestId raw)) (ingest.register raw)) >>= fun run =>
      other.browser.foldlM (snapshot manifest (rawTestId raw) (orderedPhases raw) true) run >>=
        fun browsed => raw.server.foldlM
          (serverRecord manifest (rawTestId raw) (orderedPhases raw)) browsed)
  rw [← snapshots_writtenOut runtime (sorted_declared raw sorted)]
  cases ran : raw.runtime.foldlM (snapshot manifest (rawTestId raw) (orderedPhases raw) false)
    ((orderedPhases raw).foldl (declarePhase (rawTestId raw)) (ingest.register raw)) with
  | refused error => rfl
  | crashed => rfl
  | ok run =>
    have sorted := (sorted_snapshots (sorted_declared raw sorted)).of_ok ran
    dsimp only [Outcome.ok_bind]
    rw [snapshots_writtenOut browser sorted]

end Results

end Ingest

theorem ingestResults_writtenOut {manifest : CoverageManifest}
    {raws others : List RawTestResult}
    (written : List.Forall₂ RawTestResult.WrittenOut raws others) :
    ingestResults manifest raws = ingestResults manifest others := by
  suffices fold : ∀ ingest : Ingest, Ordered.Sorted ingest.phases →
      raws.foldlM (Ingest.result manifest) ingest = others.foldlM (Ingest.result manifest) ingest from
    fold .empty List.Pairwise.nil
  induction written with
  | nil => exact fun _ _ => rfl
  | @cons raw other raws others first _ ih =>
    intro ingest sorted
    rw [List.foldlM_cons, List.foldlM_cons, ← Ingest.result_writtenOut first sorted]
    cases read : ingest.result manifest raw with
    | refused error => rfl
    | crashed => rfl
    | ok next => exact ih next ((Ingest.sorted_result sorted).of_ok read)

/-- A view cannot tell the snapshots of a phase from the events that were written before. -/
theorem createCoverageView_writtenOut (declared : CoverageManifest)
    {raws others : List RawTestResult} (generatedAt : String)
    (model : CoverageModelDeclaration) (written : List.Forall₂ RawTestResult.WrittenOut raws others) :
    createCoverageView declared raws generatedAt model =
      createCoverageView declared others generatedAt model := by
  rw [createCoverageView, createCoverageView, ingestResults_writtenOut written]

/-- A phase of one test in which `p` was reached and one vector of `d` seen. -/
def reachingPhase (phaseId : Option String) (events : List RuntimeEvent) : RawTestResult :=
  { declaring with
    runtime := [
      { decisions := [{ id := "d", vectors := [{ values := [some true], outcome := true }] }]
        hits := ["p"]
        events
        phaseId }] }

def reachingEvents : List RuntimeEvent := [
  { eventType := "hit", id := "p", vector := none, timestampMs := 3, phaseId := some "q"
    environment := "server" },
  { eventType := "decision", id := "d", vector := some { values := [some true], outcome := true }
    timestampMs := 5, phaseId := some "q", environment := "server" }]

theorem createCoverageView_writtenOut_phase :
    createCoverageView (oneDecision []) [reachingPhase (some "q") []] "" bareModel =
      createCoverageView (oneDecision []) [reachingPhase none reachingEvents] "" bareModel := by
  apply createCoverageView_writtenOut
  refine .cons ⟨rfl, .cons ?_ .nil, .nil⟩ .nil
  exact .events rfl rfl

end Supercov.Report
