import Supercov.Runtime.Jvm

/-!
# What the Java runtime keeps of a run

A decision has one mask and one truth word.  Its evaluation keeps them as long
as no other evaluation of the decision begins before it ends: `c` for the first
condition starts them afresh, and nothing puts them back.  In every run whose
evaluations begin apart in this sense, the runtime's keys are the vectors of
the completed evaluations, test by test.
-/

namespace Supercov.Runtime.Jvm

open ShortCircuit

section Ledger

/-- What the runtime's arrays and records amount to. -/
def ledger (state : State) : Ledger :=
  .ofTables (listAt state.decisions DecisionState.seen)
    (listAt state.decisions DecisionState.runWide) (listAt state.records Record.vectors)
    state.current

/-- Out of the arrays' bounds or the word's, `c` changes nothing, and neither would
its stores. -/
theorem c_eq (id index : Nat) (value : Bool) (state : State) :
    c id index value state =
      { state with decisions := state.decisions.modify id (DecisionState.observe index value) } := by
  unfold c
  split
  · rename_i outside
    have same : state.decisions.modify id (DecisionState.observe index value) =
        state.decisions := by
      apply modify_eq_self
      intro decision known
      rcases outside with unknown | wide
      · rw [List.getElem?_eq_none unknown] at known
        cases known
      · simp only [DecisionState.observe, Words.observe_of_le wide]
    rw [same]
  · rfl

theorem ledger_c (id index : Nat) (value : Bool) (state : State) :
    ledger (c id index value state) = ledger state := by
  have seen : listAt (state.decisions.modify id (DecisionState.observe index value))
      DecisionState.seen = listAt state.decisions DecisionState.seen :=
    listAt_modify_of_kept (by intro _; rfl) id
  have wide : listAt (state.decisions.modify id (DecisionState.observe index value))
      DecisionState.runWide = listAt state.decisions DecisionState.runWide :=
    listAt_modify_of_kept (by intro _; rfl) id
  rw [c_eq]
  simp only [ledger, seen, wide]

theorem ledger_arm (hits : Nat) (widths : List Nat) : ledger (arm hits widths) = .empty := by
  have nothing : ∀ field : DecisionState → List Word, (∀ width, field (.armed width) = []) →
      ∀ decision, listAt (arm hits widths).decisions field decision = [] := by
    intro field empty decision
    simp only [arm, listAt, List.getElem?_map, Option.map_map]
    cases widths[decision]? with
    | none => rfl
    | some width => exact empty width
  exact Ledger.ofTables_empty (nothing _ fun _ => rfl) (nothing _ fun _ => rfl) fun _ => rfl

theorem ledger_harvest {state : State} (apart : state.overlapped = false)
    (valid : ∀ index ∈ state.current, index < state.records.length) :
    ledger (harvest state) = (ledger state).sweep := by
  apply Ledger.ofTables_sweep
  · intro decision
    exact listAt_map_of_nil (by intro _; rfl) decision
  · intro decision key
    cases found : state.decisions[decision]? with
    | none => simp [listAt, harvest, found]
    | some held => simp [listAt, harvest, found, DecisionState.harvest, apart]
  · intro record hit
    rw [← mem_indexedKeys]
    cases running : state.current with
    | none => simp [harvest, running]
    | some index =>
      have inside := valid index running
      simp only [harvest, running, apart, Bool.false_eq_true, if_false, Option.some.injEq]
      by_cases same : index = record
      · subst same
        have known := List.getElem?_eq_getElem inside
        rw [listAt_modify_eq known, listAt_of_known known]
        simp [Record.credit, seenVectors]
      · rw [listAt_modify_of_ne same]
        simp [same]

theorem ledger_setTestStatus (status : String) (state : State) :
    ledger (setTestStatus status state) = ledger state := by
  have same : listAt (setStatus state.records state.current status) Record.vectors =
      listAt state.records Record.vectors := by
    cases state.current with
    | none => rfl
    | some index => exact listAt_modify_of_kept (by intro _; rfl) index
  simp only [ledger, setTestStatus, same]

/-- What the calls need of the state to keep its attribution: tests have not
overlapped, and the current record is there. -/
structure Attributed (state : State) : Prop where
  apart : state.overlapped = false
  valid : ∀ index ∈ state.current, index < state.records.length

theorem Attributed.setTestStatus {state : State} (attributed : Attributed state)
    (status : String) : Attributed (setTestStatus status state) where
  apart := attributed.apart
  valid := by
    intro index running
    have inside := attributed.valid index running
    unfold Jvm.setTestStatus setStatus
    cases state.current <;> simpa using inside

theorem Attributed.harvest {state : State} (attributed : Attributed state) :
    Attributed (harvest state) where
  apart := attributed.apart
  valid := by
    intro index running
    have inside := attributed.valid index running
    unfold Jvm.harvest
    cases state.current <;> simpa [attributed.apart] using inside

theorem ledger_exitTest {state : State} (attributed : Attributed state) (status : String) :
    ledger (exitTest status state) = (ledger state).sweep.assign none := by
  have swept := (attributed.setTestStatus status)
  have harvested := ledger_harvest swept.apart swept.valid
  rw [ledger_setTestStatus] at harvested
  rw [← harvested]
  simp only [exitTest, attributed.apart, Bool.false_eq_true, if_false]
  rfl

theorem enterTest_eq {state : State} (attributed : Attributed state)
    (alone : state.openTests = 0) (name runner : String) (tags : List String) :
    enterTest name runner tags state =
      { harvest state with
        openTests := 1
        records := (harvest state).records ++ [{
          name := name
          runner := runner
          tags := tags
          status := "passed"
          unattributed := false
          probes := []
          vectors := [] }]
        current := some (harvest state).records.length } := by
  have apart : (harvest state).overlapped = false := attributed.apart
  have closed : (harvest state).openTests = 0 := alone
  simp only [enterTest, closed, apart, gt_iff_lt, lt_irrefl, if_false, Bool.false_eq_true,
    Nat.zero_add]

theorem ledger_enterTest {state : State} (attributed : Attributed state)
    (alone : state.openTests = 0) (name runner : String) (tags : List String) :
    ledger (enterTest name runner tags state) =
      (ledger state).sweep.assign (some (harvest state).records.length) := by
  rw [← ledger_harvest attributed.apart attributed.valid, enterTest_eq attributed alone]
  unfold ledger
  rw [listAt_append_of_nil (by rfl)]
  rfl

/-- What `bd` closes an evaluation with, once its key is one that is kept. -/
theorem ledger_bd {state : State} {id : Nat} {decision : DecisionState}
    (known : state.decisions[id]? = some decision) {value : Bool}
    (some_ : maskOf (decision.words.key value) ≠ 0) (narrow : decision.width ≤ packedMaxWidth)
    (fresh : ¬ (decision.words.key value = decision.recentFirst ∨
      decision.words.key value = decision.recentSecond)) (whenTrue whenFalse : Nat) :
    ledger (bd whenTrue whenFalse id value state) =
      (ledger state).record id (decision.words.key value) := by
  have closed : decision.close value =
      ({ decision with words := { decision.words with evaluating := 0 } } : DecisionState).remember
        (decision.words.key value) := by
    simp only [DecisionState.close, some_, not_lt.mpr narrow, or_self, if_false, fresh]
  have seen : ∀ other kept,
      kept ∈ listAt (state.decisions.modify id (DecisionState.close value)) DecisionState.seen
          other ↔
        kept ∈ listAt state.decisions DecisionState.seen other ∨
          (other = id ∧ kept = decision.words.key value) := by
    intro other kept
    by_cases same : id = other
    · subst same
      rw [listAt_modify_eq known, listAt_of_known known, closed]
      simp [DecisionState.remember]
    · rw [listAt_modify_of_ne same]
      simp [Ne.symm same]
  have wide : listAt (state.decisions.modify id (DecisionState.close value))
      DecisionState.runWide = listAt state.decisions DecisionState.runWide := by
    funext other
    by_cases same : id = other
    · subst same
      rw [listAt_modify_eq known, listAt_of_known known, closed]
      rfl
    · exact listAt_modify_of_ne same
  simp only [ledger, bd, wide]
  exact Ledger.ofTables_record seen

theorem ledger_bd_of_kept {state : State} {id : Nat} {decision : DecisionState}
    (known : state.decisions[id]? = some decision) {value : Bool}
    (kept : decision.close value =
      { decision with words := { decision.words with evaluating := 0 } })
    (whenTrue whenFalse : Nat) :
    ledger (bd whenTrue whenFalse id value state) = ledger state := by
  have same : ∀ field : DecisionState → List Word,
      (∀ held : DecisionState, ∀ words, field { held with words := words } = field held) →
      listAt (state.decisions.modify id (DecisionState.close value)) field =
        listAt state.decisions field := by
    intro field ignores
    funext other
    by_cases here : id = other
    · subst here
      rw [listAt_modify_eq known, listAt_of_known known, kept, ignores]
    · exact listAt_modify_of_ne here
  simp only [ledger, bd, same DecisionState.seen (fun _ _ => rfl),
    same DecisionState.runWide (fun _ _ => rfl)]

end Ledger

section Runs

variable {program : List Shape} {arms : Nat → Nat × Nat}

abbrev JvmRun := Run State (Option Nat)

/-- An evaluation begins only when no other evaluation of its decision is past its
first condition, and a test only when no other is open. -/
def BeginsApart (move : Move Request) (run : JvmRun) : Prop :=
  match move, run.stack with
  | .operand _, innermost :: outer => innermost.seen = [] →
      ∀ activation ∈ outer, activation.decision = innermost.decision → activation.seen = []
  | .call (.enterTest _ _ _), _ => run.state.openTests = 0
  | _, _ => True

instance (move : Move Request) (run : JvmRun) : Decidable (BeginsApart move run) := by
  unfold BeginsApart
  split <;> infer_instance

def Cached (decision : DecisionState) : Prop :=
  ∀ key, key = decision.recentFirst ∨ key = decision.recentSecond → key ≠ 0 → key ∈ decision.seen

structure Invariant (program : List Shape) (run : JvmRun) : Prop where
  paths : OnPaths program run.stack
  apart : run.stack.Pairwise Apart
  words : ∀ activation ∈ run.stack, activation.seen ≠ [] →
    ∀ decision, run.state.decisions[activation.decision]? = some decision →
      decision.words = wordsOf activation.seen
  widths : run.state.decisions.map DecisionState.width = program.map Shape.size
  cached : ∀ decision ∈ run.state.decisions, Cached decision
  attributed : Attributed run.state
  faithful : Ledger.Faithful (Measured program) run.completed (ledger run.state)

theorem Invariant.start (program : List Shape) (hits : Nat) :
    Invariant program (.start (arm hits (program.map Shape.size))) where
  paths := by simp [Run.start, OnPaths]
  apart := List.Pairwise.nil
  words := by simp [Run.start]
  widths := by simp [Run.start, arm, DecisionState.armed]
  cached := by simp [Run.start, arm, Cached, DecisionState.armed]
  attributed := ⟨rfl, by simp [Run.start, arm]⟩
  faithful := by
    rw [Run.start, ledger_arm]
    exact Ledger.Faithful.empty

theorem Invariant.decision {run : JvmRun} (invariant : Invariant program run)
    {decision : Nat} {shape : Shape} (known : program[decision]? = some shape) :
    ∃ held, run.state.decisions[decision]? = some held ∧ held.width = shape.size := by
  have same := congrArg (fun widths => widths[decision]?) invariant.widths
  simp only [List.getElem?_map, known, Option.map_some, Option.map_eq_some_iff] at same
  exact same

theorem Invariant.ne_of_begun {run : JvmRun} (invariant : Invariant program run)
    {innermost : Activation} {outer : List Activation} (stacked : run.stack = innermost :: outer)
    (begun : innermost.seen ≠ []) {activation : Activation} (member : activation ∈ outer)
    (begun' : activation.seen ≠ []) : activation.decision ≠ innermost.decision := by
  have apart := invariant.apart
  rw [stacked, List.pairwise_cons] at apart
  intro same
  rcases apart.1 activation member same.symm with first | second
  · exact begun first
  · exact begun' second

theorem Invariant.operand {run run' : JvmRun} {value : Bool} (invariant : Invariant program run)
    (allowed : BeginsApart (.operand value) run)
    (observed : observe program (probes arms) value run = some run') : Invariant program run' := by
  obtain ⟨innermost, outer, shape, index, stacked, known, waits, rfl⟩ := observe_eq_some observed
  have paths := invariant.paths
  have pairs := invariant.apart
  rw [stacked] at paths pairs
  have path : shape.Path innermost.seen := by
    obtain ⟨shape', known', path⟩ := paths innermost (by simp)
    rw [known] at known'
    cases known'
    exact path
  obtain ⟨held, holds, _⟩ := invariant.decision known
  -- No other evaluation of the decision is past its first condition.
  have others : ∀ activation ∈ outer, activation.seen ≠ [] →
      activation.decision ≠ innermost.decision := by
    intro activation member begun
    by_cases fresh : innermost.seen = []
    · intro same
      simp only [BeginsApart, stacked] at allowed
      exact begun (allowed fresh activation member same)
    · exact invariant.ne_of_begun stacked fresh member begun
  have state : (probes arms).condition innermost.decision index value run.state =
      { run.state with
        decisions := run.state.decisions.modify innermost.decision
          (DecisionState.observe index value) } := c_eq _ _ _ _
  have kept := ledger_c innermost.decision index value run.state
  rw [c_eq] at kept
  rw [state]
  refine ⟨paths.observe known waits, ?_, ?_, ?_, ?_,
    ⟨invariant.attributed.apart, invariant.attributed.valid⟩, ?_⟩
  · apply List.pairwise_cons.mpr
    refine ⟨?_, (List.pairwise_cons.mp pairs).2⟩
    intro activation member same
    by_contra both
    push Not at both
    exact others activation member both.2 same.symm
  · intro activation member begun decision found
    rcases List.mem_cons.mp member with rfl | outside
    · simp only [List.getElem?_modify_eq, holds] at found
      cases found
      exact observe_wordsOf path waits
        (fun before => invariant.words innermost (by simp [stacked]) before held holds) value
    · rw [List.getElem?_modify_ne _ _ (others activation outside begun).symm] at found
      exact invariant.words activation (by simp [stacked, outside]) begun decision found
  · rw [← invariant.widths]
    apply List.ext_getElem?
    intro position
    simp only [List.getElem?_map, List.getElem?_modify]
    by_cases here : innermost.decision = position <;>
      cases run.state.decisions[position]? <;> simp [here, DecisionState.observe]
  · intro decision member
    obtain ⟨position, found⟩ := List.mem_iff_getElem?.mp member
    rw [List.getElem?_modify] at found
    obtain ⟨before, beforeFound, changed⟩ := Option.map_eq_some_iff.mp found
    have cached := invariant.cached before (List.mem_of_getElem? beforeFound)
    rw [← changed]
    split
    · exact cached
    · exact cached
  · rw [kept]
    exact invariant.faithful

theorem Invariant.close {run : JvmRun} (invariant : Invariant program run)
    (evaluation : Evaluation) {shape : Shape} (known : program[evaluation.decision]? = some shape)
    (path : shape.Path evaluation.seen) (begun : evaluation.seen ≠ []) {held : DecisionState}
    (holds : run.state.decisions[evaluation.decision]? = some held)
    (words : held.words = wordsOf evaluation.seen) (whenTrue whenFalse : Nat) :
    Cached (held.close evaluation.outcome) ∧
      Ledger.Faithful (Measured program) (run.completed ++ [(run.state.current, evaluation)])
        (ledger (bd whenTrue whenFalse evaluation.decision evaluation.outcome run.state)) := by
  obtain ⟨first, member⟩ := path.mem_zero begun
  obtain ⟨held', holds', width⟩ := invariant.decision known
  rw [holds] at holds'
  cases holds'
  have cached := invariant.cached held (List.mem_of_getElem? holds)
  have some_ : maskOf (held.words.key evaluation.outcome) ≠ 0 := by
    rw [words]
    exact maskOf_key_ne_zero member evaluation.outcome
  by_cases wide : held.width > packedMaxWidth
  · have kept : held.close evaluation.outcome =
        { held with words := { held.words with evaluating := 0 } } := by
      simp only [DecisionState.close, some_, wide, or_true, if_true]
    rw [ledger_bd_of_kept holds kept]
    refine ⟨by rw [kept]; exact cached, invariant.faithful.skip ?_⟩
    intro ⟨shape', known', narrow⟩
    rw [known] at known'
    cases known'
    rw [width] at wide
    exact absurd narrow (not_le.mpr wide)
  · have describes : Describes (held.words.key evaluation.outcome) evaluation := by
      rw [words]
      apply key_describes
      intro observed member
      rw [width] at wide
      exact lt_of_lt_of_le (path.lt_size observed member) (not_lt.mp wide)
    by_cases recent : held.words.key evaluation.outcome = held.recentFirst ∨
        held.words.key evaluation.outcome = held.recentSecond
    · have kept : held.close evaluation.outcome =
          { held with words := { held.words with evaluating := 0 } } := by
        simp only [DecisionState.close, some_, wide, or_self, if_false, recent, if_true]
      have nonzero : held.words.key evaluation.outcome ≠ 0 := by
        intro zero
        rw [zero] at some_
        exact some_ rfl
      rw [ledger_bd_of_kept holds kept]
      refine ⟨by rw [kept]; exact cached, invariant.faithful.repeat describes ?_⟩
      change held.words.key evaluation.outcome ∈ listAt run.state.decisions DecisionState.seen _
      simpa [listAt, holds] using cached _ recent nonzero
    · rw [ledger_bd holds some_ (not_lt.mp wide) recent]
      refine ⟨?_, invariant.faithful.record describes⟩
      intro key isRecent nonzero
      simp only [DecisionState.close, some_, wide, or_self, if_false, recent,
        DecisionState.remember] at isRecent ⊢
      rw [mem_including]
      rcases isRecent with new | old
      · exact Or.inr new
      · exact Or.inl (cached key (Or.inl old) nonzero)

theorem Invariant.settles {run : JvmRun} (invariant : Invariant program run) :
    Invariant program (settle program (probes arms) run) := by
  rcases settle_cases program (probes arms) run with
    same | ⟨innermost, outer, shape, outcome, unused, stacked, known, finished, settled⟩
  · rw [same]
    exact invariant
  have paths := invariant.paths
  have pairs := invariant.apart
  rw [stacked] at paths pairs
  have path : shape.Path innermost.seen := by
    obtain ⟨shape', known', path⟩ := paths innermost (by simp)
    rw [known] at known'
    cases known'
    exact path
  have begun : innermost.seen ≠ [] := by
    intro empty
    rw [empty, Shape.next_nil] at finished
    cases finished
  obtain ⟨held, holds, _⟩ := invariant.decision known
  have words := invariant.words innermost (by simp [stacked]) begun held holds
  obtain ⟨cached, faithful⟩ := invariant.close
    ⟨innermost.decision, innermost.seen, outcome⟩ known path begun holds words
    (arms innermost.decision).1 (arms innermost.decision).2
  rw [settled]
  refine ⟨fun activation member => paths activation (List.mem_cons_of_mem _ member),
    (List.pairwise_cons.mp pairs).2, ?_, ?_, ?_,
    ⟨invariant.attributed.apart, invariant.attributed.valid⟩, faithful⟩
  · intro activation member begun' decision found
    have ne := invariant.ne_of_begun stacked begun member begun'
    change (run.state.decisions.modify innermost.decision _)[activation.decision]? = _ at found
    rw [List.getElem?_modify_ne _ _ ne.symm] at found
    exact invariant.words activation (by simp [stacked, member]) begun' decision found
  · rw [← invariant.widths]
    apply List.ext_getElem?
    intro position
    change ((run.state.decisions.modify innermost.decision _).map _)[position]? = _
    have width : ∀ decision : DecisionState, (decision.close outcome).width = decision.width := by
      intro decision
      unfold DecisionState.close
      dsimp only
      split
      · rfl
      split <;> rfl
    simp only [List.getElem?_map, List.getElem?_modify]
    by_cases here : innermost.decision = position <;>
      cases run.state.decisions[position]? <;> simp [here, width]
  · intro decision member
    obtain ⟨position, found⟩ := List.mem_iff_getElem?.mp member
    change (run.state.decisions.modify innermost.decision _)[position]? = _ at found
    by_cases here : innermost.decision = position
    · rw [← here, List.getElem?_modify_eq, holds] at found
      cases found
      exact cached
    · rw [List.getElem?_modify_ne _ _ here] at found
      exact invariant.cached decision (List.mem_of_getElem? found)

theorem Invariant.of_swept {run : JvmRun} (invariant : Invariant program run) {state : State}
    (decisions : state.decisions = (harvest run.state).decisions)
    (attributed : Attributed state)
    (faithful : Ledger.Faithful (Measured program) run.completed (ledger state)) :
    Invariant program { run with state := state } where
  paths := invariant.paths
  apart := invariant.apart
  words := by
    intro activation member begun decision found
    rw [decisions] at found
    simp only [harvest, List.getElem?_map] at found
    obtain ⟨before, beforeFound, changed⟩ := Option.map_eq_some_iff.mp found
    rw [← changed]
    exact invariant.words activation member begun before beforeFound
  widths := by
    rw [← invariant.widths, decisions, harvest, List.map_map]
    rfl
  cached := by
    intro decision member
    rw [decisions] at member
    obtain ⟨before, _, changed⟩ := List.mem_map.mp member
    rw [← changed]
    intro key recent nonzero
    simp only [DecisionState.harvest, or_self] at recent
    exact absurd recent nonzero
  attributed := attributed
  faithful := faithful

theorem Invariant.call {run : JvmRun} (invariant : Invariant program run) {asked : Request}
    (allowed : BeginsApart (.call asked) run) :
    Invariant program { run with state := request asked run.state } := by
  have attributed := invariant.attributed
  cases asked with
  | enterTest name runner tags =>
    have faithful := invariant.faithful.assign (some (harvest run.state).records.length)
    rw [← ledger_enterTest attributed allowed name runner tags] at faithful
    have entered := enterTest_eq attributed allowed name runner tags
    apply invariant.of_swept _ _ faithful
    · rw [entered]
    · rw [entered]
      exact ⟨attributed.apart, by simp⟩
  | setTestStatus status =>
    have kept := attributed.setTestStatus status
    refine ⟨invariant.paths, invariant.apart, invariant.words, invariant.widths, invariant.cached,
      kept, ?_⟩
    change Ledger.Faithful _ _ (ledger (setTestStatus status run.state))
    rw [ledger_setTestStatus]
    exact invariant.faithful
  | exitTest status =>
    have faithful := invariant.faithful.assign none
    rw [← ledger_exitTest attributed status] at faithful
    apply invariant.of_swept _ _ faithful
    · simp only [exitTest, attributed.apart, Bool.false_eq_true, if_false]
      rfl
    · simp only [exitTest, attributed.apart, Bool.false_eq_true, if_false]
      exact ⟨attributed.apart, by simp⟩
  | write =>
    have faithful := invariant.faithful.sweep
    rw [← ledger_harvest attributed.apart attributed.valid] at faithful
    exact invariant.of_swept rfl attributed.harvest faithful

theorem Reaches.invariant {hits : Nat} {run : JvmRun}
    (reached : Reaches program (probes arms) BeginsApart (arm hits (program.map Shape.size)) run) :
    Invariant program run := by
  apply ShortCircuit.Reaches.invariant (Invariant.start program hits) _ _ _ _ _ reached
  · intro run decision invariant known
    refine ⟨invariant.paths.enter known, ?_, ?_, invariant.widths, invariant.cached,
      invariant.attributed, invariant.faithful⟩
    · exact List.pairwise_cons.mpr ⟨fun _ _ _ => Or.inl rfl, invariant.apart⟩
    · intro activation member begun
      rcases List.mem_cons.mp member with rfl | old
      · exact absurd rfl begun
      · exact invariant.words activation old begun
  · intro run run' value invariant allowed observed
    exact invariant.operand allowed observed
  · intro run invariant
    exact invariant.settles
  · intro run abandoned invariant _
    exact ⟨invariant.paths.drop abandoned, invariant.apart.drop,
      fun activation member => invariant.words activation (List.mem_of_mem_drop member),
      invariant.widths, invariant.cached, invariant.attributed, invariant.faithful⟩
  · intro run asked invariant allowed
    exact invariant.call allowed

/-- In every run whose evaluations begin apart, each key the runtime keeps is the
vector of an evaluation that completed, under the test it is kept for, and each
completed evaluation's key is in its test's record and the run-wide table once
they are swept. -/
theorem keys_faithful {hits : Nat} {run : JvmRun}
    (reached : Reaches program (probes arms) BeginsApart (arm hits (program.map Shape.size)) run) :
    Ledger.Faithful (Measured program) run.completed (ledger run.state) ∧
      (∀ id decision, run.state.decisions[id]? = some decision → ∀ key,
        key = decision.recentFirst ∨ key = decision.recentSecond → key ≠ 0 →
          Ledger.Happened run.completed run.state.current id key) ∧
      ∀ label evaluation, (label, evaluation) ∈ run.completed →
        Measured program evaluation.decision →
          (ledger (harvest run.state)).Holds label evaluation := by
  have invariant := Reaches.invariant reached
  refine ⟨invariant.faithful, ?_, ?_⟩
  · intro id decision found key recent nonzero
    have seen := invariant.cached decision (List.mem_of_getElem? found) key recent nonzero
    apply invariant.faithful.pending id key
    change key ∈ listAt run.state.decisions DecisionState.seen id
    simpa [listAt, found] using seen
  · intro label evaluation member measured
    rw [ledger_harvest invariant.attributed.apart invariant.attributed.valid]
    exact invariant.faithful.sweep_holds member measured

/-- One test evaluates `a && b`, both true, and within `b` another decision. -/
def nestedMoves : List (Move Request) :=
  [.call (.enterTest "t" "junit" []), .enter 0, .operand true, .enter 1, .operand false,
    .operand true, .operand true, .call (.exitTest "passed")]

def nestedProgram : List Shape := [.and .condition .condition, .or .condition .condition]

def nestedRun : Option JvmRun :=
  runAllowed nestedProgram (probes fun _ => (0, 1)) BeginsApart nestedMoves
    (.start (arm 2 (nestedProgram.map Shape.size)))

theorem keys_faithful_nested :
    ∃ run, nestedRun = some run ∧ run.completed.length = 2 ∧
      Ledger.Faithful (Measured nestedProgram) run.completed (ledger run.state) := by
  have made : (nestedRun.map fun run => run.completed.length) = some 2 := by decide
  obtain ⟨run, ran, two⟩ := Option.map_eq_some_iff.mp made
  exact ⟨run, ran, two, (keys_faithful (Reaches.start.runAllowed ran)).1⟩

end Runs

section Recursion

/-- `a && b`: while `b` is evaluated, the decision is evaluated again, with `a`
false; then `b` is true. -/
def recursiveMoves : List (Move Request) :=
  [.enter 0, .operand true, .enter 0, .operand false, .operand true]

/-- The key that the outer evaluation leaves: only `b` evaluated. -/
def inventedKey : Word := Words.key { evaluating := bit 1, truth := bit 1 } true

/-- The runtime keeps a key that no evaluation has: of all that completed, every
one evaluated `a`. -/
theorem recursion_invents_key :
    ∃ run, runMoves [.and .condition .condition] (probes fun _ => (0, 1)) recursiveMoves
        (.start (arm 2 [2])) = some run ∧
      inventedKey ∈ listAt run.state.decisions DecisionState.seen 0 ∧
      ∀ label, ¬ Ledger.Happened run.completed label 0 inventedKey := by
  refine ⟨_, rfl, by decide, ?_⟩
  intro label ⟨evaluation, member, _, describes⟩
  have absent : inventedKey.getLsbD 0 = false := by decide
  have evaluated : ∃ value, (0, value) ∈ evaluation.seen := by
    rcases List.mem_cons.mp member with inner | rest
    · cases inner
      exact ⟨false, by simp⟩
    · cases List.mem_singleton.mp rest
      exact ⟨true, by simp⟩
  have present := (describes.evaluated 0 (by decide)).mpr evaluated
  rw [absent] at present
  cases present

end Recursion

end Supercov.Runtime.Jvm
