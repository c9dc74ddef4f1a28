import Supercov.Library.Runs
import Mathlib.Data.Finset.Image
import Mathlib.Data.Finset.Option
import Mathlib.Data.Finset.SDiff
import Mathlib.Logic.Function.Basic

/-!
# The JavaScript runtime's epochs

A probe is recorded once for each context: each table of probes holds the epoch in which a probe
was last recorded, and a probe that finds the epoch of the moment there is skipped.  A reset
empties the snapshot and begins a new epoch, but leaves the tables and the epochs that contexts
saved as they are.
-/

namespace Supercov.Js

/-- The epoch of the moment; the clock begins at no number. -/
abbrev Epoch := Option Nat

def wrapAt : Nat := 4294967295

/-- The epochs of a table's cells. A typed array has a length, and a zero in it is no epoch; a map
has neither. -/
structure EpochTable where
  length : Option Nat
  cells : Nat → Option Nat

namespace EpochTable

def array (length : Nat) : EpochTable where
  length := some length
  cells := fun _ => none

def map : EpochTable where
  length := none
  cells := fun _ => none

/-- What is written past the end of an array is dropped. -/
def store (index : Nat) (epoch : Epoch) (table : EpochTable) : EpochTable :=
  if table.length.any (· ≤ index) then table
  else { table with cells := Function.update table.cells index epoch }

def clear (table : EpochTable) : EpochTable := { table with cells := fun _ => none }

end EpochTable

/-- A strict comparison with the epoch of the moment. -/
def holds (cell : Option Nat) (epoch : Epoch) : Bool := cell.isSome && cell = epoch

/-- What a file registers. -/
structure ProbeDefinition where
  decisions : List String
  decisionWidths : List Nat
  pointIds : List String
  /-- The first point of the selections' outcomes and the number of selections. -/
  selectionPoints : Option (Nat × Nat)

structure ProbeFile where
  definition : ProbeDefinition
  hitEpochs : EpochTable
  decisionEpochs : List EpochTable
  sized : decisionEpochs.length = definition.decisionWidths.length

namespace ProbeFile

def new (definition : ProbeDefinition) : ProbeFile where
  definition
  hitEpochs := EpochTable.array definition.pointIds.length
  decisionEpochs := definition.decisionWidths.map fun width =>
    if width ≤ 6 then EpochTable.array (2 * 3 ^ width) else EpochTable.map
  sized := List.length_map _

def clear (file : ProbeFile) : ProbeFile where
  definition := file.definition
  hitEpochs := file.hitEpochs.clear
  decisionEpochs := file.decisionEpochs.map EpochTable.clear
  sized := (List.length_map _).trans file.sized

def storeHit (index : Nat) (epoch : Epoch) (file : ProbeFile) : ProbeFile :=
  { file with hitEpochs := file.hitEpochs.store index epoch }

def storeDecision (decision index : Nat) (epoch : Epoch) (file : ProbeFile) : ProbeFile where
  definition := file.definition
  hitEpochs := file.hitEpochs
  decisionEpochs := file.decisionEpochs.modify decision (EpochTable.store index epoch)
  sized := (List.length_modify _ _ _).trans file.sized

end ProbeFile

structure McdcVector where
  values : List (Option Bool)
  outcome : Bool
  deriving DecidableEq, Repr

/-- What the snapshot holds one by one. -/
inductive Observation where
  | hit (id : String)
  | vector (id : String) (vector : McdcVector)
  | selection (branch : String) (right truthy : Bool)
  deriving DecidableEq, Repr

/-- The state of the runtime, with the epochs that running calls of `withProbeV2Context` saved and
those of the asynchronous callbacks that have begun. -/
structure RuntimeState where
  clock : Epoch
  fast : Bool
  contextEpochs : String → Option Nat
  nextEpoch : Nat
  files : List ProbeFile
  hitEpochs : String → Option Nat
  hits : Finset String
  decisions : Finset String
  vectors : Finset (String × McdcVector)
  logicals : Finset (String × Bool × Bool)
  contexts : List Epoch
  hooks : List Epoch

namespace RuntimeState

def initial : RuntimeState where
  clock := none
  fast := false
  contextEpochs := fun _ => none
  nextEpoch := 1
  files := []
  hitEpochs := fun _ => none
  hits := ∅
  decisions := ∅
  vectors := ∅
  logicals := ∅
  contexts := []
  hooks := []

/-- The counter begins again, and every file's tables with it. -/
def wrapped (state : RuntimeState) : RuntimeState :=
  { state with
    nextEpoch := 1
    contextEpochs := fun _ => none
    files := state.files.map ProbeFile.clear }

def nextEpochOf (state : RuntimeState) : RuntimeState :=
  if wrapAt ≤ state.nextEpoch + 1 then state.wrapped
  else { state with nextEpoch := state.nextEpoch + 1 }

def beginEpoch (key : String) (state : RuntimeState) : RuntimeState :=
  let state := state.nextEpochOf
  { state with
    contextEpochs := Function.update state.contextEpochs key (some state.nextEpoch)
    clock := some state.nextEpoch }

/-- `activateProbeV2Key`; a forced activation begins an epoch even for a key that has one. -/
def activate (key : String) (force : Bool) (state : RuntimeState) : RuntimeState :=
  match if force then none else state.contextEpochs key with
  | some epoch => { state with clock := some epoch }
  | none => state.beginEpoch key

/-- The state in which a probe is looked up: without hooks that keep the clock, the context of the
moment is activated first. -/
def current (key : String) (state : RuntimeState) : RuntimeState :=
  if state.fast then state else state.activate key false

def restore (previous : Epoch) (state : RuntimeState) : RuntimeState :=
  if state.fast then state else { state with clock := previous }

/-- `recordCoverageHit` -/
def recordHit (id key : String) (state : RuntimeState) : RuntimeState :=
  let previous := state.clock
  let state := { state with hits := insert id state.hits }
  let state := state.current key
  let epoch := state.clock
  let state := state.restore previous
  if holds (state.hitEpochs id) epoch then state
  else { state with hitEpochs := Function.update state.hitEpochs id epoch }

/-- `coverageHit` -/
def hit (id key : String) (state : RuntimeState) : RuntimeState :=
  if state.fast && holds (state.hitEpochs id) state.clock then state else state.recordHit id key

/-- The branch of an outcome's id: what stands before its last colon. -/
def branchOf (id : String) : Option String :=
  match id.toList.reverse.dropWhile (· ≠ ':') with
  | [] | [_] => none
  | _ :: before => some (String.ofList before.reverse)

/-- `recordSelectionOutcome` -/
def selection (id : String) (right truthy : Bool) (state : RuntimeState) : RuntimeState :=
  match branchOf id with
  | none => state
  | some branch => { state with logicals := insert (branch, right, truthy) state.logicals }

def changeFile (file : Nat) (change : ProbeFile → ProbeFile) (state : RuntimeState) : RuntimeState :=
  { state with files := state.files.modify file change }

def hitCell (file index : Nat) (state : RuntimeState) : Option Nat :=
  (state.files[file]?).bind fun file => file.hitEpochs.cells index

def decisionTable (file decision : Nat) (state : RuntimeState) : Option EpochTable :=
  (state.files[file]?).bind fun file => file.decisionEpochs[decision]?

end RuntimeState

namespace ProbeDefinition

variable (definition : ProbeDefinition)

def pointId (index : Nat) : Option String := definition.pointIds[index]?.filter (· ≠ "")

def decisionId (decision : Nat) : Option String := definition.decisions[decision]?.filter (· ≠ "")

/-- The outcome of a selection that a point stands for: whether the right operand was evaluated and
whether the result is truthy. -/
def outcomeAt (index : Nat) : Option (Bool × Bool) :=
  definition.selectionPoints.bind fun (first, count) =>
    if first ≤ index ∧ index < first + 4 * count then
      let outcome := (index - first) &&& 3
      some (2 ≤ outcome, outcome &&& 1 = 1)
    else
      none

end ProbeDefinition

def decodeValues : Nat → Nat → List (Option Bool) × Nat
  | 0, encoded => ([], encoded)
  | count + 1, encoded =>
    let digit := encoded % 3
    let (values, remaining) := decodeValues count (encoded / 3)
    ((if digit = 0 then none else some (digit = 2)) :: values, remaining)

def maxSafeInteger : Nat := 2 ^ 53 - 1

def decodeVector (width : Option Nat) (encoded : Nat) (outcome : Bool) : Option McdcVector :=
  match width with
  | none => none
  | some width =>
    if 32 < width then none
    else
      let (values, remaining) := decodeValues width encoded
      if remaining = 0 then some { values, outcome } else none

def vectorIndex (encoded : Nat) (value : Bool) : Nat := encoded * 2 + value.toNat

namespace RuntimeState

def selectionAt (definition : ProbeDefinition) (index : Nat) (id : String) (state : RuntimeState) :
    RuntimeState :=
  match definition.outcomeAt index with
  | none => state
  | some (right, truthy) => state.selection id right truthy

/-- `recordCoverageHitV2` -/
def recordHitV2 (file index : Nat) (definition : ProbeDefinition) (key : String)
    (state : RuntimeState) : RuntimeState :=
  match definition.pointId index with
  | none => state
  | some id =>
    let previous := state.clock
    let state := state.current key
    let epoch := state.clock
    let state :=
      if holds (state.hitCell file index) epoch then state
      else
        let state := state.changeFile file (ProbeFile.storeHit index epoch)
        (state.hit id key).selectionAt definition index id
    state.restore previous

/-- `coverageHitV2` -/
def hitV2 (file index : Nat) (key : String) (state : RuntimeState) : RuntimeState :=
  match state.files[file]? with
  | none => state
  | some probes =>
    if state.fast && holds (state.hitCell file index) state.clock then state
    else state.recordHitV2 file index probes.definition key

/-- `mcdcEnd`, of a decision that has its entry. -/
def keepVector (id : String) (vector : Option McdcVector) (state : RuntimeState) : RuntimeState :=
  match vector with
  | none => state
  | some vector => { state with vectors := insert (id, vector) state.vectors }

/-- `recordMcdcEndV2`; the counts of the vectors seen are read by nothing. -/
def recordMcdcEndV2 (file decision encoded : Nat) (value : Bool) (definition : ProbeDefinition)
    (key : String) (state : RuntimeState) : RuntimeState :=
  match definition.decisionId decision with
  | none => state
  | some id =>
    if maxSafeInteger < encoded ∨ maxSafeInteger < vectorIndex encoded value then state
    else
      let previous := state.clock
      let state := state.current key
      let epoch := state.clock
      let state :=
        match state.decisionTable file decision with
        | none => state
        | some seen =>
          if holds (seen.cells (vectorIndex encoded value)) epoch then state
          else
            let state := state.changeFile file
              (ProbeFile.storeDecision decision (vectorIndex encoded value) epoch)
            let state := { state with decisions := insert id state.decisions }
            state.keepVector id
              (decodeVector definition.decisionWidths[decision]? encoded value)
      state.restore previous

/-- `mcdcEndV2`; only an array is looked up before the record is begun. -/
def mcdcEndV2 (file decision encoded : Nat) (value : Bool) (key : String) (state : RuntimeState) :
    RuntimeState :=
  match state.files[file]? with
  | none => state
  | some probes =>
    if encoded = 0 then state
    else if state.fast && (state.decisionTable file decision).any fun seen =>
        seen.length.isSome && holds (seen.cells (vectorIndex encoded value)) state.clock then state
    else state.recordMcdcEndV2 file decision encoded value probes.definition key

/-- What a module runs in. -/
inductive Host where
  | browser
  | node (hooks : Bool)
  deriving DecidableEq, Repr

/-- `registerProbeV2` -/
def register (definition : ProbeDefinition) (host : Host) (key : String) (state : RuntimeState) :
    RuntimeState :=
  let state := { state with files := state.files ++ [ProbeFile.new definition] }
  match host with
  | .browser => { state with fast := true }.activate key false
  | .node hooks =>
    let state := { state with fast := state.fast || hooks }
    if state.clock = none then state.activate key false else state

/-- `resetCoverage` -/
def reset (state : RuntimeState) : RuntimeState :=
  activate ("reset\x00" ++ toString state.nextEpoch) true
    { state with
      decisions := ∅
      vectors := ∅
      hits := ∅
      logicals := ∅
      contextEpochs := fun _ => none }

end RuntimeState

/-- What happens to the runtime, each with the key of the context of the moment. -/
inductive RuntimeStep where
  | register (definition : ProbeDefinition) (host : RuntimeState.Host) (key : String)
  | hitV2 (file index : Nat) (key : String)
  | hit (id key : String)
  | mcdcEndV2 (file decision encoded : Nat) (value : Bool) (key : String)
  | selection (id : String) (right truthy : Bool)
  | activate (key : String)
  | activateBrowser (key : String)
  | enter (key : String)
  | leave
  | before (key : String)
  | after
  | reset

namespace RuntimeStep

def apply : RuntimeStep → RuntimeState → RuntimeState
  | .register definition host key, state => state.register definition host key
  | .hitV2 file index key, state => state.hitV2 file index key
  | .hit id key, state => state.hit id key
  | .mcdcEndV2 file decision encoded value key, state =>
    state.mcdcEndV2 file decision encoded value key
  | .selection id right truthy, state => state.selection id right truthy
  | .activate key, state => state.activate key false
  | .activateBrowser key, state => { state with fast := true }.activate key false
  | .enter key, state => { state with contexts := state.clock :: state.contexts }.activate key false
  | .leave, state =>
    match state.contexts with
    | [] => state
    | previous :: contexts => { state with clock := previous, contexts }
  | .before key, state => { state with hooks := state.clock :: state.hooks }.activate key false
  | .after, state =>
    match state.hooks with
    | [] => state
    | previous :: hooks => { state with clock := previous, hooks }
  | .reset, state => state.reset

end RuntimeStep

section Snapshot

/-- `coverageSnapshot`, without the events. -/
def RuntimeState.snapshot (state : RuntimeState) : Finset Observation :=
  state.hits.image .hit ∪ state.vectors.image (fun (id, vector) => .vector id vector) ∪
    state.logicals.image fun (branch, right, truthy) => .selection branch right truthy

def outcomeObserved (definition : ProbeDefinition) (index : Nat) (id : String) :
    Finset Observation :=
  match definition.outcomeAt index, RuntimeState.branchOf id with
  | some (right, truthy), some branch => {.selection branch right truthy}
  | _, _ => ∅

def hitObserved (definition : ProbeDefinition) (index : Nat) : Finset Observation :=
  match definition.pointId index with
  | none => ∅
  | some id => insert (.hit id) (outcomeObserved definition index id)

def vectorObserved (definition : ProbeDefinition) (decision encoded : Nat) (value : Bool) :
    Finset Observation :=
  match definition.decisionId decision, decodeVector definition.decisionWidths[decision]? encoded value with
  | some id, some vector => if encoded = 0 then ∅ else {.vector id vector}
  | _, _ => ∅

/-- What the program passes in a step: the hits, vectors and outcomes of its probes, whatever the
runtime does with them. -/
def RuntimeStep.passes (definitions : List ProbeDefinition) : RuntimeStep → Finset Observation
  | .hitV2 file index _ =>
    match definitions[file]? with
    | none => ∅
    | some definition => hitObserved definition index
  | .hit id _ => {.hit id}
  | .mcdcEndV2 file decision encoded value _ =>
    match definitions[file]? with
    | none => ∅
    | some definition => vectorObserved definition decision encoded value
  | .selection id right truthy =>
    match RuntimeState.branchOf id with
    | none => ∅
    | some branch => {.selection branch right truthy}
  | _ => ∅

def RuntimeState.definitions (state : RuntimeState) : List ProbeDefinition :=
  state.files.map ProbeFile.definition

/-- A hit that `coverageHit` leaves out, since its cell holds the epoch of the moment. -/
def RuntimeState.skippedHit (id : String) (state : RuntimeState) : Finset Observation :=
  if state.fast && holds (state.hitEpochs id) state.clock then {.hit id} else ∅

/-- What a step leaves out, since the cell of its probe holds the epoch it runs in. -/
def RuntimeStep.skips (state : RuntimeState) : RuntimeStep → Finset Observation
  | .hitV2 file index key =>
    match state.definitions[file]? with
    | none => ∅
    | some definition =>
      if holds ((state.current key).hitCell file index) (state.current key).clock then
        hitObserved definition index
      else
        match definition.pointId index with
        | none => ∅
        | some id => state.skippedHit id
  | .hit id _ => state.skippedHit id
  | .mcdcEndV2 file decision encoded value key =>
    match state.definitions[file]?, (state.current key).decisionTable file decision with
    | some definition, some seen =>
      if holds (seen.cells (vectorIndex encoded value)) (state.current key).clock then
        vectorObserved definition decision encoded value
      else
        ∅
    | _, _ => ∅
  | _ => ∅

end Snapshot

section Step

variable (state : RuntimeState) (id key : String)

namespace RuntimeState

theorem snapshot_hits :
    snapshot { state with hits := insert id state.hits } = insert (.hit id) state.snapshot := by
  simp only [snapshot, Finset.image_insert, Finset.insert_union]

theorem snapshot_keepVector (vector : Option McdcVector) :
    (state.keepVector id vector).snapshot =
      state.snapshot ∪ (vector.map fun vector => Observation.vector id vector).toFinset := by
  cases vector with
  | none => simp [keepVector]
  | some vector =>
    simp only [keepVector, snapshot, Finset.image_insert, Option.map_some, Option.toFinset_some]
    ext observed
    simp only [Finset.mem_union, Finset.mem_insert, Finset.mem_singleton]
    tauto

theorem snapshot_selection (right truthy : Bool) :
    (state.selection id right truthy).snapshot = state.snapshot ∪
      ((branchOf id).map fun branch => Observation.selection branch right truthy).toFinset := by
  unfold selection
  cases branchOf id with
  | none => simp
  | some branch =>
    simp only [snapshot, Finset.image_insert, Option.map_some, Option.toFinset_some]
    ext observed
    simp only [Finset.mem_union, Finset.mem_insert, Finset.mem_singleton]
    tauto

@[simp]
theorem snapshot_activate (force : Bool) :
    (state.activate key force).snapshot = state.snapshot := by
  unfold activate
  split
  · rfl
  · unfold beginEpoch nextEpochOf
    split <;> rfl

@[simp]
theorem snapshot_current : (state.current key).snapshot = state.snapshot := by
  unfold current
  split
  · rfl
  · exact snapshot_activate state key false

@[simp]
theorem snapshot_restore (previous : Epoch) :
    (state.restore previous).snapshot = state.snapshot := by
  unfold restore
  split <;> rfl

@[simp]
theorem snapshot_changeFile (file : Nat) (change : ProbeFile → ProbeFile) :
    (state.changeFile file change).snapshot = state.snapshot := rfl

theorem snapshot_recordHit :
    (state.recordHit id key).snapshot = insert (.hit id) state.snapshot := by
  unfold recordHit
  dsimp only
  split
  · rw [snapshot_restore, snapshot_current, snapshot_hits]
  · show ((current key { state with hits := insert id state.hits }).restore state.clock).snapshot = _
    rw [snapshot_restore, snapshot_current, snapshot_hits]

theorem snapshot_hit :
    (state.hit id key).snapshot = state.snapshot ∪ ({.hit id} \ state.skippedHit id) := by
  unfold hit skippedHit
  split
  · simp
  · rw [snapshot_recordHit, Finset.sdiff_empty, Finset.insert_eq, Finset.union_comm]

theorem snapshot_selectionAt (definition : ProbeDefinition) (index : Nat) :
    (state.selectionAt definition index id).snapshot =
      state.snapshot ∪ outcomeObserved definition index id := by
  unfold selectionAt outcomeObserved
  cases definition.outcomeAt index with
  | none => simp
  | some outcome =>
    dsimp only
    rw [snapshot_selection]
    cases branchOf id <;> rfl

@[simp]
theorem fast_activate (force : Bool) : (state.activate key force).fast = state.fast := by
  unfold activate
  split
  · rfl
  · unfold beginEpoch nextEpochOf
    split <;> rfl

@[simp]
theorem fast_current : (state.current key).fast = state.fast := by
  unfold current
  split
  · rfl
  · exact fast_activate state key false

theorem current_of_fast (fast : state.fast = true) : state.current key = state := if_pos fast

theorem skippedHit_current {file : Nat} {change : ProbeFile → ProbeFile} :
    skippedHit id ((state.current key).changeFile file change) = state.skippedHit id := by
  cases fast : state.fast with
  | true =>
    rw [current_of_fast state key fast]
    rfl
  | false =>
    have slow : ((state.current key).changeFile file change).fast = false :=
      (fast_current state key).trans fast
    simp [skippedHit, slow, fast]

theorem eq_hit_of_mem_skippedHit {observed : Observation} (skipped : observed ∈ state.skippedHit id) :
    observed = .hit id := by
  unfold skippedHit at skipped
  split at skipped
  · exact Finset.mem_singleton.mp skipped
  · cases skipped

theorem hit_not_mem_outcomeObserved {definition : ProbeDefinition} {index : Nat} {id other : String} :
    Observation.hit other ∉ outcomeObserved definition index id := by
  unfold outcomeObserved
  split <;> simp

theorem definition_of_file {file : Nat} {probes : ProbeFile} (known : state.files[file]? = some probes) :
    state.definitions[file]? = some probes.definition := by
  rw [definitions, List.getElem?_map, known, Option.map_some]

theorem definition_of_no_file {file : Nat} (absent : state.files[file]? = none) :
    state.definitions[file]? = none := by
  rw [definitions, List.getElem?_map, absent, Option.map_none]

theorem snapshot_recordHitV2 (file index : Nat) (definition : ProbeDefinition) :
    (state.recordHitV2 file index definition key).snapshot = state.snapshot ∪
      (hitObserved definition index \
        if holds ((state.current key).hitCell file index) (state.current key).clock then
          hitObserved definition index
        else
          match definition.pointId index with
          | none => ∅
          | some id => state.skippedHit id) := by
  unfold recordHitV2 hitObserved
  cases definition.pointId index with
  | none => simp
  | some id =>
    dsimp only
    rw [snapshot_restore]
    split
    · rw [snapshot_current, Finset.sdiff_self, Finset.union_empty]
    · have apart : Disjoint (outcomeObserved definition index id) (state.skippedHit id) := by
        apply Finset.disjoint_left.mpr
        intro observed outcome skipped
        rw [eq_hit_of_mem_skippedHit state id skipped] at outcome
        exact hit_not_mem_outcomeObserved outcome
      rw [snapshot_selectionAt, snapshot_hit, snapshot_changeFile, snapshot_current,
        skippedHit_current, Finset.insert_eq, Finset.union_sdiff_distrib,
        Finset.sdiff_eq_self_of_disjoint apart, Finset.union_assoc]

theorem snapshot_hitV2 (file index : Nat) :
    (state.hitV2 file index key).snapshot = state.snapshot ∪
      ((RuntimeStep.hitV2 file index key).passes state.definitions \
        (RuntimeStep.hitV2 file index key).skips state) := by
  unfold hitV2
  cases known : state.files[file]? with
  | none => simp [RuntimeStep.passes, definition_of_no_file state known]
  | some probes =>
    simp only [RuntimeStep.passes, RuntimeStep.skips, definition_of_file state known]
    split
    · next skipped =>
      obtain ⟨fast, held⟩ := Bool.and_eq_true_iff.mp skipped
      rw [current_of_fast state key fast, if_pos held, Finset.sdiff_self, Finset.union_empty]
    · exact snapshot_recordHitV2 state key file index probes.definition

theorem decodeValues_remaining (count encoded : Nat) :
    (decodeValues count encoded).2 = encoded / 3 ^ count := by
  induction count generalizing encoded with
  | zero => simp [decodeValues]
  | succ count ih =>
    rw [decodeValues]
    dsimp only
    rw [ih, Nat.div_div_eq_div_mul, Nat.pow_succ']

theorem safe_of_decodeVector {width : Option Nat} {encoded : Nat} {value : Bool} {vector : McdcVector}
    (decoded : decodeVector width encoded value = some vector) :
    ¬ (maxSafeInteger < encoded ∨ maxSafeInteger < vectorIndex encoded value) := by
  unfold decodeVector at decoded
  cases width with
  | none => cases decoded
  | some width =>
    dsimp only at decoded
    split at decoded
    · cases decoded
    · next narrow =>
      split at decoded
      · next ended =>
        rw [decodeValues_remaining] at ended
        have small : encoded < 3 ^ width :=
          Nat.lt_of_div_eq_zero (Nat.pow_pos (by decide)) ended
        have most : 3 ^ width ≤ 3 ^ 32 := Nat.pow_le_pow_right (by decide) (by omega)
        have bit := Bool.toNat_le value
        simp only [maxSafeInteger, vectorIndex]
        omega
      · cases decoded

@[simp]
theorem definitions_activate (force : Bool) :
    (state.activate key force).definitions = state.definitions := by
  unfold activate
  split
  · rfl
  · unfold beginEpoch nextEpochOf
    split
    · simp only [definitions, wrapped, List.map_map]
      rfl
    · rfl

@[simp]
theorem definitions_current : (state.current key).definitions = state.definitions := by
  unfold current
  split
  · rfl
  · exact definitions_activate state key false

theorem width_of_no_table {file decision : Nat} {definition : ProbeDefinition}
    (known : state.definitions[file]? = some definition)
    (absent : state.decisionTable file decision = none) :
    definition.decisionWidths[decision]? = none := by
  rw [definitions, List.getElem?_map, Option.map_eq_some_iff] at known
  obtain ⟨probes, found, rfl⟩ := known
  rw [decisionTable, found, Option.bind_some, List.getElem?_eq_none_iff, probes.sized] at absent
  exact List.getElem?_eq_none absent

theorem vectorObserved_of_decodes {definition : ProbeDefinition} {decision encoded : Nat}
    {value : Bool} (known : definition.decisionId decision = some id) (some_ : encoded ≠ 0) :
    vectorObserved definition decision encoded value =
      ((decodeVector definition.decisionWidths[decision]? encoded value).map fun vector =>
        Observation.vector id vector).toFinset := by
  unfold vectorObserved
  rw [known]
  cases decodeVector definition.decisionWidths[decision]? encoded value with
  | none => rfl
  | some vector => exact if_neg some_

theorem snapshot_recordMcdcEndV2 {file decision encoded : Nat} {value : Bool}
    {definition : ProbeDefinition} (known : state.definitions[file]? = some definition)
    (some_ : encoded ≠ 0) :
    (state.recordMcdcEndV2 file decision encoded value definition key).snapshot = state.snapshot ∪
      (vectorObserved definition decision encoded value \
        (RuntimeStep.mcdcEndV2 file decision encoded value key).skips state) := by
  unfold recordMcdcEndV2
  simp only [RuntimeStep.skips, known]
  cases named : definition.decisionId decision with
  | none => simp [vectorObserved, named]
  | some id =>
    have observed : vectorObserved definition decision encoded value = _ :=
      vectorObserved_of_decodes id named some_
    dsimp only
    split
    · next unsafe_ =>
      cases decoded : decodeVector definition.decisionWidths[decision]? encoded value with
      | none => simp [observed, decoded]
      | some vector => exact absurd unsafe_ (safe_of_decodeVector decoded)
    · rw [snapshot_restore]
      cases found : (state.current key).decisionTable file decision with
      | none =>
        have width := width_of_no_table (state.current key)
          ((congrArg (·[file]?) (definitions_current state key)).trans known) found
        simp [observed, width, decodeVector]
      | some seen =>
        dsimp only
        split
        · rw [snapshot_current, Finset.sdiff_self, Finset.union_empty]
        · rw [snapshot_keepVector, Finset.sdiff_empty, observed]
          show (state.current key).snapshot ∪ _ = _
          rw [snapshot_current]

theorem snapshot_mcdcEndV2 (file decision encoded : Nat) (value : Bool) :
    (state.mcdcEndV2 file decision encoded value key).snapshot = state.snapshot ∪
      ((RuntimeStep.mcdcEndV2 file decision encoded value key).passes state.definitions \
        (RuntimeStep.mcdcEndV2 file decision encoded value key).skips state) := by
  unfold mcdcEndV2
  cases known : state.files[file]? with
  | none => simp [RuntimeStep.passes, definition_of_no_file state known]
  | some probes =>
    have definition := definition_of_file state known
    simp only [RuntimeStep.passes, definition]
    split
    · next zero =>
      have nothing : vectorObserved probes.definition decision encoded value = ∅ := by
        unfold vectorObserved
        split
        · exact if_pos zero
        · rfl
      rw [nothing, Finset.empty_sdiff, Finset.union_empty]
    · next some_ =>
      split
      · next skipped =>
        obtain ⟨fast, seen⟩ := Bool.and_eq_true_iff.mp skipped
        cases found : state.decisionTable file decision with
        | none =>
          rw [found] at seen
          cases seen
        | some table =>
          rw [found, Option.any_some] at seen
          obtain ⟨_, held⟩ := Bool.and_eq_true_iff.mp seen
          simp only [RuntimeStep.skips, definition, current_of_fast state key fast, found]
          rw [if_pos held, Finset.sdiff_self, Finset.union_empty]
      · exact snapshot_recordMcdcEndV2 state key definition some_

end RuntimeState

private theorem union_nothing (held skipped : Finset Observation) : held = held ∪ (∅ \ skipped) := by
  rw [Finset.empty_sdiff, Finset.union_empty]

theorem snapshot_apply (step : RuntimeStep) :
    (step.apply state).snapshot = match step with
      | .reset => ∅
      | step => state.snapshot ∪ (step.passes state.definitions \ step.skips state) := by
  cases step with
  | register definition host key =>
    have kept : (RuntimeState.register definition host key state).snapshot = state.snapshot := by
      unfold RuntimeState.register
      cases host with
      | browser => exact RuntimeState.snapshot_activate _ key false
      | node hooks =>
        dsimp only
        split
        · exact RuntimeState.snapshot_activate _ key false
        · rfl
    exact kept.trans (union_nothing _ _)
  | hitV2 file index key => exact state.snapshot_hitV2 key file index
  | hit id key => exact state.snapshot_hit id key
  | mcdcEndV2 file decision encoded value key =>
    exact state.snapshot_mcdcEndV2 key file decision encoded value
  | selection id right truthy =>
    simp only [RuntimeStep.apply, RuntimeState.snapshot_selection, RuntimeStep.passes,
      RuntimeStep.skips, Finset.sdiff_empty]
    cases RuntimeState.branchOf id <;> rfl
  | activate key => exact (state.snapshot_activate key false).trans (union_nothing _ _)
  | activateBrowser key =>
    exact (RuntimeState.snapshot_activate _ key false).trans (union_nothing _ _)
  | enter key => exact (RuntimeState.snapshot_activate _ key false).trans (union_nothing _ _)
  | leave =>
    simp only [RuntimeStep.apply]
    split <;> exact union_nothing _ _
  | before key => exact (RuntimeState.snapshot_activate _ key false).trans (union_nothing _ _)
  | after =>
    simp only [RuntimeStep.apply]
    split <;> exact union_nothing _ _
  | reset => exact RuntimeState.snapshot_activate _ _ true

theorem skips_subset_passes (step : RuntimeStep) :
    step.skips state ⊆ step.passes state.definitions := by
  have one (id : String) : state.skippedHit id ⊆ {.hit id} := fun observed skipped =>
    Finset.mem_singleton.mpr (state.eq_hit_of_mem_skippedHit id skipped)
  cases step with
  | hitV2 file index key =>
    unfold RuntimeStep.skips RuntimeStep.passes
    dsimp only
    split
    · exact Finset.Subset.refl _
    · next definition _ =>
      split
      · exact Finset.Subset.refl _
      · unfold hitObserved
        split
        · exact Finset.Subset.refl _
        · exact (one _).trans (Finset.singleton_subset_iff.mpr (Finset.mem_insert_self _ _))
  | hit id key => exact one id
  | mcdcEndV2 file decision encoded value key =>
    unfold RuntimeStep.skips RuntimeStep.passes
    dsimp only
    split
    · next known _ =>
      rw [known]
      dsimp only
      split
      · exact Finset.Subset.refl _
      · exact Finset.empty_subset _
    · exact Finset.empty_subset _
  | _ => exact Finset.empty_subset _

end Step

section Exact

structure Watched where
  state : RuntimeState
  passed : Finset Observation

namespace Watched

def initial : Watched where
  state := RuntimeState.initial
  passed := ∅

def after (watched : Watched) (step : RuntimeStep) : Watched where
  state := step.apply watched.state
  passed :=
    match step with
    | .reset => ∅
    | step => watched.passed ∪ step.passes watched.state.definitions

def Exact (watched : Watched) : Prop := watched.state.snapshot = watched.passed

instance (watched : Watched) : Decidable watched.Exact :=
  inferInstanceAs (Decidable (_ = _))

/-- What the step skips was passed since the last reset. -/
def SkipsPassed (watched : Watched) (step : RuntimeStep) : Prop :=
  step.skips watched.state ⊆ watched.passed

variable {watched : Watched}

private theorem union_sdiff_eq_union_iff {held added left : Finset Observation}
    (among : left ⊆ added) : held ∪ (added \ left) = held ∪ added ↔ left ⊆ held := by
  constructor
  · intro same observed skipped
    have inside : observed ∈ held ∪ added := Finset.mem_union_right _ (among skipped)
    rw [← same] at inside
    rcases Finset.mem_union.mp inside with held | kept
    · exact held
    · exact absurd skipped (Finset.mem_sdiff.mp kept).2
  · intro known
    apply Finset.Subset.antisymm
    · exact Finset.union_subset_union_right Finset.sdiff_subset
    · intro observed inside
      by_cases skipped : observed ∈ left
      · exact Finset.mem_union_left _ (known skipped)
      · rcases Finset.mem_union.mp inside with held | added
        · exact Finset.mem_union_left _ held
        · exact Finset.mem_union_right _ (Finset.mem_sdiff.mpr ⟨added, skipped⟩)

theorem after_exact_iff (exact_ : watched.Exact) (step : RuntimeStep) :
    (watched.after step).Exact ↔ watched.SkipsPassed step := by
  have same := snapshot_apply watched.state step
  have among := skips_subset_passes watched.state step
  cases step with
  | reset => exact iff_of_true same (Finset.empty_subset _)
  | _ =>
    rw [show watched.state.snapshot = watched.passed from exact_] at same
    exact (Eq.congr_left same).trans (union_sdiff_eq_union_iff among)

theorem exact_along_iff (exact_ : watched.Exact) (steps : List RuntimeStep) :
    (∀ done, done <+: steps → (Runs.run after watched done).Exact) ↔
      Runs.Along after SkipsPassed watched steps := by
  induction steps generalizing watched with
  | nil =>
    refine iff_of_true ?_ trivial
    intro done isPrefix
    rw [List.prefix_nil.mp isPrefix]
    exact exact_
  | cons step steps ih =>
    constructor
    · intro each
      have next : (watched.after step).Exact := each [step] ⟨steps, rfl⟩
      refine ⟨(after_exact_iff exact_ step).mp next, (ih next).mp ?_⟩
      intro done isPrefix
      exact each (step :: done) (List.cons_prefix_cons.mpr ⟨rfl, isPrefix⟩)
    · intro ⟨skips, along⟩ done isPrefix
      have next := (after_exact_iff exact_ step).mpr skips
      cases done with
      | nil => exact exact_
      | cons first done =>
        obtain ⟨rfl, rest⟩ := List.cons_prefix_cons.mp isPrefix
        exact (ih next).mpr along done rest

end Watched

def onePoint : ProbeDefinition where
  decisions := []
  decisionWidths := []
  pointIds := ["point"]
  selectionPoints := none

/-- A reset within a context: the code behind it is in the epoch from before. -/
def resetWithin : List RuntimeStep :=
  [.register onePoint (.node true) "background", .enter "test", .hitV2 0 0 "test", .enter "inner",
    .reset, .leave, .hitV2 0 0 "test"]

end Exact

end Supercov.Js
