import Supercov.Runtime.Ledger

/-!
# The Go runtime

The probes `C` and `BD`, the stack of evaluations that recursion interrupted,
the test boundaries and the sweep between them, as one goroutine runs them.
-/

namespace Supercov.Runtime.Go

open ShortCircuit

def suspendedDepth : Nat := 256
def inlineSlots : Nat := 16

/-- An evaluation that recursion interrupted. -/
structure Suspension where
  id : Nat
  words : Words
  deriving DecidableEq, Repr

/-- The stack of interrupted evaluations, its top first. -/
structure Suspended where
  entries : List Suspension
  bounded : entries.length ≤ suspendedDepth
  deriving DecidableEq, Repr

namespace Suspended

def none : Suspended := { entries := [], bounded := Nat.zero_le _ }

/-- A full stack takes nothing more. -/
def push (entry : Suspension) (suspended : Suspended) : Suspended :=
  if room : suspended.entries.length < suspendedDepth then
    { entries := entry :: suspended.entries, bounded := room }
  else suspended

/-- What an end of the decision's evaluation puts back, and what stays suspended:
only the top is looked at. -/
def takeBack (id : Nat) (suspended : Suspended) : Option Words × Suspended :=
  match suspended with
  | ⟨last :: rest, bounded⟩ =>
    if last.id = id then (some last.words, ⟨rest, (Nat.le_succ _).trans bounded⟩)
    else (Option.none, suspended)
  | ⟨[], _⟩ => (Option.none, suspended)

end Suspended

/-- One decision's state. -/
structure DecisionState where
  width : Nat
  words : Words
  recentFirst : Word
  recentSecond : Word
  slots : List Word
  overflow : List Word
  runWide : List Word
  deriving DecidableEq, Repr

structure TestRecord where
  name : String
  status : String
  unattributed : Bool
  probes : List (Nat × Nat)
  vectors : List (Nat × Word)
  deriving DecidableEq, Repr

/-- The runtime's variables; `current` is none where the source has -1. -/
structure State where
  hits : List Nat
  global : List Nat
  decisions : List DecisionState
  suspended : Suspended
  records : List TestRecord
  current : Option Nat
  openTests : Nat
  overlapped : Bool
  deriving DecidableEq, Repr

/-- A decision before the run, of that many conditions. -/
def DecisionState.armed (width : Nat) : DecisionState :=
  { width := width
    words := .empty
    recentFirst := 0
    recentSecond := 0
    slots := []
    overflow := []
    runWide := [] }

def arm (probes : Nat) (conditions : List Nat) : State :=
  { hits := List.replicate probes 0
    global := List.replicate probes 0
    decisions := conditions.map DecisionState.armed
    suspended := .none
    records := []
    current := none
    openTests := 0
    overlapped := false }

section Harvest

def hitProbes (hits : List Nat) : List (Nat × Nat) :=
  (hits.zipIdx.filter fun hit => hit.1 ≠ 0).map fun hit => (hit.2, hit.1)

/-- The vectors seen since the last harvest: those in the slots, then those that
did not fit there. -/
def seenVectors (decisions : List DecisionState) : List (Nat × Word) :=
  indexedKeys decisions DecisionState.slots ++ indexedKeys decisions DecisionState.overflow

def DecisionState.harvest (overlapped : Bool) (decision : DecisionState) : DecisionState :=
  { decision with
    runWide :=
      if overlapped then decision.runWide
      else decision.overflow.foldl including (decision.slots.foldl including decision.runWide)
    slots := []
    overflow := []
    recentFirst := 0
    recentSecond := 0 }

def TestRecord.credit (state : State) (record : TestRecord) : TestRecord :=
  { record with
    probes := record.probes ++ hitProbes state.hits
    vectors := record.vectors ++ seenVectors state.decisions }

/-- Moves everything the arrays hold into the run's totals and the running test's
record. -/
def harvest (state : State) : State :=
  { state with
    hits := state.hits.map fun _ => 0
    global := List.zipWith (· ||| ·) state.global state.hits
    decisions := state.decisions.map (DecisionState.harvest state.overlapped)
    records :=
      match state.current with
      | some index =>
        if state.overlapped then state.records
        else state.records.modify index (TestRecord.credit state)
      | none => state.records }

/-- Gives up on per-test attribution, once. -/
def overlap (state : State) : State :=
  if state.overlapped then state
  else
    { state with
      overlapped := true
      records := []
      current := none
      decisions := state.decisions.map fun decision => { decision with runWide := [] } }

end Harvest

section Tests

def enterTest (name : String) (state : State) : State :=
  let state := harvest state
  let state := if state.openTests > 0 then overlap state else state
  let state := { state with openTests := state.openTests + 1 }
  if state.overlapped then state
  else
    { state with
      records := state.records ++ [{
        name := name
        status := "passed"
        unattributed := false
        probes := []
        vectors := [] }]
      current := some state.records.length }

/-- The function that `enterTest` returns: one that unbinds the test, or, once
tests overlapped, one that only counts.  Its flush sweeps arrays just swept. -/
def leaveTest (unbinds : Bool) (state : State) : State :=
  let state := harvest state
  { state with
    openTests := state.openTests - 1
    current := if unbinds then none else state.current }

/-- Records that a test ran and how it ended; the record never becomes current. -/
def ran (name status : String) (state : State) : State :=
  let state := harvest state
  { state with
    records := state.records ++ [{
      name := name
      status := status
      unattributed := true
      probes := []
      vectors := [] }] }

/-- Records how the running test ended. -/
def outcome (status : String) (state : State) : State :=
  match state.current with
  | some index =>
    { state with
      records := state.records.modify index fun record => { record with status := status } }
  | none => state

end Tests

section Decisions

def p (id : Nat) (state : State) : State :=
  { state with hits := state.hits.modify id fun _ => 2 }

/-- Records which arm of a branch a condition selects. -/
def b (whenTrue whenFalse : Nat) (value : Bool) (state : State) : State :=
  p (if value then whenTrue else whenFalse) state

def DecisionState.observe (index : Nat) (value : Bool) (decision : DecisionState) :
    DecisionState :=
  { decision with words := decision.words.observe index value }

/-- A mask that is not zero says that the decision is open: its evaluation is
interrupted. -/
def interrupt (id : Nat) (state : State) : Suspended :=
  match state.decisions[id]? with
  | some decision =>
    if decision.words.evaluating ≠ 0 then
      state.suspended.push { id := id, words := decision.words }
    else state.suspended
  | none => state.suspended

def c (id index : Nat) (value : Bool) (state : State) : State :=
  if id ≥ state.decisions.length ∨ index ≥ 64 then state
  else
    { state with
      suspended := if index = 0 then interrupt id state else state.suspended
      decisions := state.decisions.modify id (DecisionState.observe index value) }

/-- Records a vector that this test has not produced before. -/
def DecisionState.record (key : Word) (decision : DecisionState) : DecisionState :=
  if maskOf key = 0 ∨ decision.width > packedMaxWidth then decision
  else
    let cached := { decision with recentSecond := decision.recentFirst, recentFirst := key }
    if key ∈ decision.slots then cached
    else if decision.slots.length < inlineSlots then
      { cached with slots := decision.slots ++ [key] }
    else { cached with overflow := including decision.overflow key }

def DecisionState.restore (restored : Option Words) (decision : DecisionState) : DecisionState :=
  { decision with words := restored.getD decision.words }

/-- Restores an evaluation that recursion interrupted, and records the vector. -/
def remember (id : Nat) (key : Word) (state : State) : State :=
  { state with
    suspended := (state.suspended.takeBack id).2
    decisions := state.decisions.modify id fun decision =>
      (decision.restore (state.suspended.takeBack id).1).record key }

/-- Records which arm a condition selects, and closes its decision. -/
def bd (whenTrue whenFalse id : Nat) (value : Bool) (state : State) : State :=
  let state := b whenTrue whenFalse value state
  match state.decisions[id]? with
  | none => state
  | some decision =>
    let key := decision.words.key value
    let closed :=
      { state with
        decisions := state.decisions.modify id fun decision =>
          { decision with words := { decision.words with evaluating := 0 } } }
    if state.suspended.entries = [] ∧
        (key = decision.recentFirst ∨ key = decision.recentSecond) then closed
    else remember id key closed

end Decisions

/-- What the harness and the program's points ask of the runtime. -/
inductive Request where
  | point (id : Nat)
  | enterTest (name : String)
  | leaveTest (unbinds : Bool)
  | ran (name status : String)
  | outcome (status : String)
  | checkpoint
  | write

def request : Request → State → State
  | .point id => p id
  | .enterTest name => enterTest name
  | .leaveTest unbinds => leaveTest unbinds
  | .ran name status => ran name status
  | .outcome status => outcome status
  | .checkpoint => harvest
  | .write => harvest

/-- The runtime as a program with these branch probes sees it.  A completed
evaluation belongs to the test whose record is current. -/
def probes (arms : Nat → Nat × Nat) : Probes Request State (Option Nat) where
  condition := c
  outcome := fun id value => bd (arms id).1 (arms id).2 id value
  call := request
  label := State.current

end Supercov.Runtime.Go
