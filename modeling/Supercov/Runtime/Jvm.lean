import Supercov.Runtime.Ledger

/-!
# The Java runtime

The probes `c` and `bd`, the test boundaries and the sweep between them, as one
thread runs them.
-/

namespace Supercov.Runtime.Jvm

open ShortCircuit

/-- What the runtime's arrays hold for one decision. -/
structure DecisionState where
  width : Nat
  words : Words
  recentFirst : Word
  recentSecond : Word
  seen : List Word
  runWide : List Word
  deriving DecidableEq, Repr

structure Record where
  name : String
  runner : String
  tags : List String
  status : String
  unattributed : Bool
  probes : List (Nat × Nat)
  vectors : List (Nat × Word)
  deriving DecidableEq, Repr

/-- The runtime's fields; `current` is none where the source has -1, and
`concurrentRecord` is the one thread's own. -/
structure State where
  hits : List Nat
  global : List Nat
  decisions : List DecisionState
  records : List Record
  current : Option Nat
  openTests : Nat
  overlapped : Bool
  concurrentRecord : Option Nat
  deriving DecidableEq, Repr

/-- A decision before the run, of that many conditions. -/
def DecisionState.armed (width : Nat) : DecisionState :=
  { width := width
    words := .empty
    recentFirst := 0
    recentSecond := 0
    seen := []
    runWide := [] }

def arm (probes : Nat) (conditions : List Nat) : State :=
  { hits := List.replicate probes 0
    global := List.replicate probes 0
    decisions := conditions.map DecisionState.armed
    records := []
    current := none
    openTests := 0
    overlapped := false
    concurrentRecord := none }

section Harvest

def hitProbes (hits : List Nat) : List (Nat × Nat) :=
  (hits.zipIdx.filter fun hit => hit.1 ≠ 0).map fun hit => (hit.2, hit.1)

def seenVectors (decisions : List DecisionState) : List (Nat × Word) :=
  indexedKeys decisions DecisionState.seen

def DecisionState.harvest (overlapped : Bool) (decision : DecisionState) : DecisionState :=
  { decision with
    runWide := if overlapped then decision.runWide else decision.seen.foldl including decision.runWide
    seen := []
    recentFirst := 0
    recentSecond := 0 }

def Record.credit (state : State) (record : Record) : Record :=
  { record with
    probes := record.probes ++ hitProbes state.hits
    vectors := record.vectors ++ seenVectors state.decisions }

/-- Sweeps the arrays into the run's totals and the running test's record. -/
def harvest (state : State) : State :=
  { state with
    hits := state.hits.map fun _ => 0
    global := List.zipWith (· ||| ·) state.global state.hits
    decisions := state.decisions.map (DecisionState.harvest state.overlapped)
    records :=
      match state.current with
      | some index =>
        if state.overlapped then state.records else state.records.modify index (Record.credit state)
      | none => state.records }

/-- Gives up on attribution, once. -/
def overlap (state : State) : State :=
  if state.overlapped then state
  else
    { state with
      overlapped := true
      records := state.records.map fun record =>
        { record with unattributed := true, probes := [], vectors := [] }
      current := none
      decisions := state.decisions.map fun decision => { decision with runWide := [] } }

end Harvest

section Tests

def enterTest (name runner : String) (tags : List String) (state : State) : State :=
  let state := harvest state
  let state := if state.openTests > 0 then overlap state else state
  let record : Record :=
    { name := name
      runner := runner
      tags := tags
      status := "passed"
      unattributed := state.overlapped
      probes := []
      vectors := [] }
  { state with
    openTests := state.openTests + 1
    records := state.records ++ [record]
    current := if state.overlapped then state.current else some state.records.length
    concurrentRecord :=
      if state.overlapped then some state.records.length else state.concurrentRecord }

def setStatus (records : List Record) (index : Option Nat) (status : String) : List Record :=
  match index with
  | some index => records.modify index fun record => { record with status := status }
  | none => records

def setTestStatus (status : String) (state : State) : State :=
  { state with records := setStatus state.records state.current status }

def exitTest (status : String) (state : State) : State :=
  let state :=
    if state.overlapped then
      { state with
        records := setStatus state.records state.concurrentRecord status
        concurrentRecord := none }
    else setTestStatus status state
  let state := harvest state
  { state with openTests := state.openTests - 1, current := none }

end Tests

section Decisions

def DecisionState.observe (index : Nat) (value : Bool) (decision : DecisionState) :
    DecisionState :=
  { decision with words := decision.words.observe index value }

def c (id index : Nat) (value : Bool) (state : State) : State :=
  if id ≥ state.decisions.length ∨ index ≥ 64 then state
  else { state with decisions := state.decisions.modify id (DecisionState.observe index value) }

def DecisionState.remember (key : Word) (decision : DecisionState) : DecisionState :=
  { decision with
    recentSecond := decision.recentFirst
    recentFirst := key
    seen := including decision.seen key }

/-- Closes an evaluation: what `bd` does to its decision's state. -/
def DecisionState.close (value : Bool) (decision : DecisionState) : DecisionState :=
  let key := decision.words.key value
  let closed := { decision with words := { decision.words with evaluating := 0 } }
  if maskOf key = 0 ∨ decision.width > packedMaxWidth then closed
  else if key = decision.recentFirst ∨ key = decision.recentSecond then closed
  else closed.remember key

/-- Records which arm a condition selects, and closes its decision. -/
def bd (whenTrue whenFalse id : Nat) (value : Bool) (state : State) : State :=
  let probe := if value then whenTrue else whenFalse
  { state with
    hits := state.hits.modify probe fun _ => 2
    decisions := state.decisions.modify id (DecisionState.close value) }

end Decisions

/-- What the listener and the end of the JVM ask of the runtime. -/
inductive Request where
  | enterTest (name runner : String) (tags : List String)
  | setTestStatus (status : String)
  | exitTest (status : String)
  | write

def request : Request → State → State
  | .enterTest name runner tags => enterTest name runner tags
  | .setTestStatus status => setTestStatus status
  | .exitTest status => exitTest status
  | .write => harvest

/-- The runtime as a program with these branch probes sees it.  A completed
evaluation belongs to the test whose record is current. -/
def probes (arms : Nat → Nat × Nat) : Probes Request State (Option Nat) where
  condition := c
  outcome := fun id value => bd (arms id).1 (arms id).2 id value
  call := request
  label := State.current

end Supercov.Runtime.Jvm
