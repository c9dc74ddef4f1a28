import Supercov.Runtime.GoSheet

/-!
# The Go runtime under a test harness

A harness announces tests and ends them, says how they stand, and records tests that
it did not announce; in between the program's probes fire.  What happened is kept
beside the runtime, to compare the written evidence with: tests in their order, those
that are open, and what was stored and which vectors completed while each was.
-/

namespace Supercov.Runtime.Go

/-- A call of the runtime.  Tests are numbered as they are announced or recorded. -/
inductive Call where
  | store (probe : Nat)
  | branch (whenTrue whenFalse : Nat) (value : Bool)
  | condition (decision index : Nat) (value : Bool)
  | close (whenTrue whenFalse decision : Nat) (value : Bool)
  | enter (name : String)
  | leave (test : Nat)
  | outcome (test : Nat) (status : String)
  | ran (name status : String)
  | checkpoint
  | write
  deriving DecidableEq, Repr

/-- What happened, whatever the runtime makes of it. -/
structure Account where
  /-- The name of each test and how it stands, or ended. -/
  tests : List (String × String)
  opened : List Nat
  facts : List (Option Nat × Fact)
  deriving DecidableEq, Repr

/-- The runtime, the functions it gave out to end tests with, and what happened.  A
test that only ran has no such function. -/
structure Suite where
  runtime : State
  closers : List (Option Bool)
  account : Account
  deriving DecidableEq, Repr

def Suite.start (probes : Nat) (conditions : List Nat) : Suite where
  runtime := arm probes conditions
  closers := []
  account := { tests := [], opened := [], facts := [] }

def factsOf : Call → State → List Fact
  | .store probe, state => storedBy probe state
  | .branch whenTrue whenFalse value, state =>
    storedBy (if value then whenTrue else whenFalse) state
  | .close whenTrue whenFalse decision value, state =>
    storedBy (if value then whenTrue else whenFalse) state ++ completedBy decision value state
  | _, _ => []

/-- A test that is open may say how it stands; after its end it is not heard. -/
def Account.note (call : Call) (facts : List Fact) (account : Account) : Account :=
  let account :=
    { account with facts := account.facts ++ facts.map fun fact => (account.opened.head?, fact) }
  match call with
  | .enter name =>
    { account with
      tests := account.tests ++ [(name, "passed")]
      opened := account.opened ++ [account.tests.length] }
  | .leave test => { account with opened := account.opened.filter (· ≠ test) }
  | .outcome test status =>
    if test ∈ account.opened then
      { account with tests := account.tests.modify test fun named => (named.1, status) }
    else account
  | .ran name status => { account with tests := account.tests ++ [(name, status)] }
  | _ => account

def runtimeCall (closers : List (Option Bool)) : Call → State → State
  | .store probe => p probe
  | .branch whenTrue whenFalse value => b whenTrue whenFalse value
  | .condition decision index value => c decision index value
  | .close whenTrue whenFalse decision value => bd whenTrue whenFalse decision value
  | .enter name => enterTest name
  | .leave test =>
    match closers[test]?.join with
    | some unbinds => leaveTest unbinds
    | none => id
  | .outcome _ status => outcome status
  | .ran name status => ran name status
  | .checkpoint => harvest
  | .write => harvest

/-- The function that a test ends with unbinds it, unless tests have overlapped. -/
def closersAfter (call : Call) (after : State) (closers : List (Option Bool)) :
    List (Option Bool) :=
  match call with
  | .enter _ => closers ++ [some (!after.overlapped)]
  | .ran _ _ => closers ++ [none]
  | _ => closers

def Suite.call (suite : Suite) (call : Call) : Suite :=
  let after := runtimeCall suite.closers call suite.runtime
  { runtime := after
    closers := closersAfter call after suite.closers
    account := suite.account.note call (factsOf call suite.runtime) }

def Suite.run (suite : Suite) (calls : List Call) : Suite := calls.foldl Suite.call suite

/-- A test begins while none is open, and what ends a test or says how one stands is
called for the open one, where there is one. -/
def OneByOne (call : Call) (suite : Suite) : Prop :=
  match call with
  | .enter _ => suite.account.opened = []
  | .leave test => test ∈ suite.account.opened ∨ suite.account.opened = []
  | .outcome test _ => test ∈ suite.account.opened ∨ suite.account.opened = []
  | _ => True

instance (call : Call) (suite : Suite) : Decidable (OneByOne call suite) := by
  unfold OneByOne
  split <;> infer_instance

def Serially : List Call → Suite → Prop
  | [], _ => True
  | call :: rest, suite => OneByOne call suite ∧ Serially rest (suite.call call)

instance decidableSerially : (calls : List Call) → (suite : Suite) →
    Decidable (Serially calls suite)
  | [], _ => isTrue trivial
  | call :: rest, suite =>
    have := decidableSerially rest (suite.call call)
    inferInstanceAs (Decidable (_ ∧ _))

section Suites

/-- The runtime and what happened, as they stay while tests run one by one. -/
structure Suite.Kept (suite : Suite) : Prop where
  sound : Sound suite.account.facts suite.runtime
  one : suite.account.opened.length ≤ 1
  counted : suite.runtime.openTests = suite.account.opened.length
  running : suite.runtime.current = suite.account.opened.head?
  given : suite.closers.length = suite.account.tests.length
  unbinds : ∀ closer ∈ suite.closers, closer ≠ some false
  opened : ∀ test ∈ suite.account.opened, suite.closers[test]? = some (some true)
  named : suite.runtime.records.map (fun record => (record.name, record.status)) =
    suite.account.tests

theorem Suite.Kept.start (probes : Nat) (conditions : List Nat) :
    (Suite.start probes conditions).Kept where
  sound := Sound.start probes conditions
  one := Nat.zero_le 1
  counted := rfl
  running := rfl
  given := rfl
  unbinds := fun _ member => absurd member List.not_mem_nil
  opened := fun _ member => absurd member List.not_mem_nil
  named := rfl

def namesOf (records : List TestRecord) : List (String × String) :=
  records.map fun record => (record.name, record.status)

theorem namesOf_modify {records : List TestRecord} {index : Nat} {change : TestRecord → TestRecord}
    (kept : ∀ record, ((change record).name, (change record).status) = (record.name, record.status)) :
    namesOf (records.modify index change) = namesOf records := by
  apply List.ext_getElem?
  intro place
  simp only [namesOf, List.getElem?_map, List.getElem?_modify]
  cases records[place]? with
  | none => rfl
  | some record =>
    simp only [Option.map_some]
    split
    · exact congrArg some (kept record)
    · rfl

theorem namesOf_harvest (state : State) :
    namesOf (harvest state).records = namesOf state.records := by
  unfold harvest
  dsimp only
  split
  · split
    · rfl
    · exact namesOf_modify fun _ => rfl
  · rfl

theorem c_tests (decision index : Nat) (value : Bool) (state : State) :
    (c decision index value state).openTests = state.openTests ∧
      (c decision index value state).current = state.current ∧
      (c decision index value state).records = state.records := by
  rw [c_eq]
  exact ⟨rfl, rfl, rfl⟩

theorem bd_tests (whenTrue whenFalse decision : Nat) (value : Bool) (state : State) :
    (bd whenTrue whenFalse decision value state).openTests = state.openTests ∧
      (bd whenTrue whenFalse decision value state).current = state.current ∧
      (bd whenTrue whenFalse decision value state).records = state.records := by
  cases known : state.decisions[decision]? with
  | none =>
    have unknown : (b whenTrue whenFalse value state).decisions[decision]? = none := known
    simp only [bd, unknown]
    exact ⟨rfl, rfl, rfl⟩
  | some held =>
    obtain ⟨_, -, same⟩ := bd_eq known whenTrue whenFalse value
    rw [same]
    exact ⟨rfl, rfl, rfl⟩

@[simp]
theorem append_labelled_nil (log : List (Option Nat × Fact)) (label : Option Nat) :
    (log ++ ([] : List Fact).map fun fact => (label, fact)) = log := List.append_nil log

variable {suite : Suite}

theorem Suite.Kept.of_probe (kept : suite.Kept) {after : State} {facts : List Fact}
    (sound : Sound (suite.account.facts ++ facts.map fun fact => (suite.runtime.current, fact)) after)
    (openTests : after.openTests = suite.runtime.openTests)
    (current : after.current = suite.runtime.current)
    (names : namesOf after.records = namesOf suite.runtime.records) :
    Suite.Kept
      { suite with
        runtime := after
        account := { suite.account with
          facts := suite.account.facts ++
            facts.map fun fact => (suite.account.opened.head?, fact) } } where
  sound := by
    rw [← kept.running]
    exact sound
  one := kept.one
  counted := openTests.trans kept.counted
  running := current.trans kept.running
  given := kept.given
  unbinds := kept.unbinds
  opened := kept.opened
  named := names.trans kept.named

theorem Suite.Kept.enter (kept : suite.Kept) (alone : suite.account.opened = []) (name : String) :
    (suite.call (.enter name)).Kept := by
  have attributed := kept.sound.attributed
  have none_ : suite.runtime.openTests = 0 := by rw [kept.counted, alone, List.length_nil]
  have entered := enterTest_eq attributed none_ name
  have count : (harvest suite.runtime).records.length = suite.account.tests.length := by
    have names := namesOf_harvest suite.runtime
    have same := congrArg List.length (names.trans kept.named)
    rwa [namesOf, List.length_map] at same
  have apart : (enterTest name suite.runtime).overlapped = false := by
    rw [entered]
    exact attributed.apart
  have same : suite.call (.enter name) =
      { runtime := enterTest name suite.runtime
        closers := suite.closers ++ [some true]
        account := { suite.account with
          tests := suite.account.tests ++ [(name, "passed")]
          opened := [suite.account.tests.length] } } := by
    simp only [Suite.call, runtimeCall, factsOf, closersAfter, Account.note, append_labelled_nil,
      apart, alone, List.nil_append, Bool.not_false]
  rw [same]
  refine ⟨?_, le_refl 1, ?_, ?_, ?_, ?_, ?_, ?_⟩
  · apply kept.sound.of_swept
    · rw [entered]
      exact ⟨attributed.apart, by simp⟩
    · rw [entered]
    · rw [entered]
    · rw [entered]
    · rw [entered]
      exact Or.inr ⟨_, rfl, rfl, rfl⟩
  · rw [entered]
    rfl
  · rw [entered, count]
    rfl
  · rw [List.length_append, List.length_append, kept.given]
    rfl
  · intro closer member
    rcases List.mem_append.mp member with before | new
    · exact kept.unbinds closer before
    · rw [List.mem_singleton.mp new]
      simp
  · intro test member
    rw [List.mem_singleton.mp member, ← kept.given, List.getElem?_concat_length]
  · have names := (namesOf_harvest suite.runtime).trans kept.named
    rw [entered, List.map_append]
    exact congrArg (· ++ [(name, "passed")]) names

theorem Suite.Kept.opened_cases (kept : suite.Kept) (test : Nat) :
    (test ∈ suite.account.opened ∧ suite.account.opened = [test]) ∨
      (test ∉ suite.account.opened ∧ suite.account.opened.filter (· ≠ test) =
        suite.account.opened) := by
  have one := kept.one
  cases held : suite.account.opened with
  | nil => exact Or.inr ⟨List.not_mem_nil, rfl⟩
  | cons first rest =>
    rw [held, List.length_cons] at one
    have alone : rest = [] := List.length_eq_zero_iff.mp (by omega)
    subst alone
    by_cases same : test = first
    · subst same
      exact Or.inl ⟨List.mem_singleton_self _, rfl⟩
    · refine Or.inr ⟨by simpa using same, ?_⟩
      simp [Ne.symm same]

theorem Suite.Kept.leave (kept : suite.Kept) {test : Nat}
    (alone : test ∈ suite.account.opened ∨ suite.account.opened = []) :
    (suite.call (.leave test)).Kept := by
  have attributed := kept.sound.attributed
  have after : suite.account.opened.filter (· ≠ test) = [] := by
    rcases alone with member | none_
    · rcases kept.opened_cases test with ⟨-, only⟩ | ⟨absent, -⟩
      · rw [only]
        simp
      · exact absurd member absent
    · rw [none_]
      rfl
  have account : suite.account.note (.leave test) [] =
      { suite.account with opened := [] } := by
    simp only [Account.note, append_labelled_nil, after]
  have swept : Sound suite.account.facts (leaveTest true suite.runtime) :=
    kept.sound.of_swept ⟨attributed.apart, fun _ running => nomatch running⟩ rfl rfl rfl (Or.inl rfl)
  have names : namesOf (leaveTest true suite.runtime).records = suite.account.tests :=
    (namesOf_harvest suite.runtime).trans kept.named
  have open_ : (leaveTest true suite.runtime).openTests = 0 := by
    have one := kept.one
    change suite.runtime.openTests - 1 = 0
    rw [kept.counted]
    omega
  cases given : suite.closers[test]?.join with
  | some unbinds =>
    have member : some unbinds ∈ suite.closers :=
      List.mem_of_getElem? (Option.join_eq_some_iff.mp given)
    have true_ : unbinds = true := by
      cases unbinds with
      | true => rfl
      | false => exact absurd rfl (kept.unbinds _ member)
    subst true_
    have same : suite.call (.leave test) =
        { runtime := leaveTest true suite.runtime
          closers := suite.closers
          account := { suite.account with opened := [] } } := by
      simp only [Suite.call, runtimeCall, given, factsOf, account, closersAfter]
    rw [same]
    exact ⟨swept, Nat.zero_le 1, open_, rfl, kept.given, kept.unbinds,
      fun _ inside => absurd inside List.not_mem_nil, names⟩
  | none =>
    have absent : test ∉ suite.account.opened := by
      intro inside
      rw [kept.opened test inside] at given
      cases given
    have empty := alone.resolve_left absent
    have same : suite.call (.leave test) = suite := by
      have account' : suite.account.note (.leave test) [] = suite.account := by
        rw [account, ← empty]
      simp only [Suite.call, runtimeCall, given, factsOf, account', closersAfter]
      rfl
    rw [same]
    exact kept

theorem Suite.Kept.outcome (kept : suite.Kept) {test : Nat}
    (alone : test ∈ suite.account.opened ∨ suite.account.opened = []) (status : String) :
    (suite.call (.outcome test status)).Kept := by
  rcases kept.opened_cases test with ⟨member, only⟩ | ⟨absent, -⟩
  · have running : suite.runtime.current = some test := by
      rw [kept.running, only]
      rfl
    have changed : Go.outcome status suite.runtime = { suite.runtime with
        records := suite.runtime.records.modify test fun record =>
          { record with status := status } } := by
      simp only [Go.outcome, running]
    have same : suite.call (.outcome test status) =
        { runtime := Go.outcome status suite.runtime
          closers := suite.closers
          account := { suite.account with
            tests := suite.account.tests.modify test fun named => (named.1, status) } } := by
      simp only [Suite.call, runtimeCall, factsOf, closersAfter, Account.note, append_labelled_nil, if_pos member]
    rw [same]
    refine ⟨kept.sound.outcome status, kept.one, ?_, ?_, ?_, kept.unbinds, kept.opened, ?_⟩
    · rw [changed]
      exact kept.counted
    · rw [changed]
      exact kept.running
    · change _ = (suite.account.tests.modify test _).length
      rw [List.length_modify]
      exact kept.given
    · have before := kept.named
      rw [changed, ← before]
      apply List.ext_getElem?
      intro place
      simp only [List.getElem?_map, List.getElem?_modify]
      cases suite.runtime.records[place]? with
      | none => rfl
      | some record => by_cases here : test = place <;> simp [here]
  · have empty := alone.resolve_left absent
    have running : suite.runtime.current = none := by
      rw [kept.running, empty]
      rfl
    have same : suite.call (.outcome test status) = suite := by
      simp only [Suite.call, runtimeCall, factsOf, closersAfter, Account.note, append_labelled_nil,
        if_neg absent, Go.outcome, running]
    rw [same]
    exact kept

theorem Suite.Kept.ran (kept : suite.Kept) (name status : String) :
    (suite.call (.ran name status)).Kept := by
  have attributed := kept.sound.attributed
  have same : suite.call (.ran name status) =
      { runtime := Go.ran name status suite.runtime
        closers := suite.closers ++ [none]
        account := { suite.account with tests := suite.account.tests ++ [(name, status)] } } := by
    simp only [Suite.call, runtimeCall, factsOf, closersAfter, Account.note, append_labelled_nil]
  rw [same]
  refine ⟨?_, kept.one, kept.counted, kept.running, ?_, ?_, ?_, ?_⟩
  · refine kept.sound.of_swept ⟨attributed.apart, ?_⟩ rfl rfl rfl (Or.inr ⟨_, rfl, rfl, rfl⟩)
    intro index running
    have inside := attributed.harvest.valid index running
    simp only [Go.ran, List.length_append]
    exact Nat.lt_add_right _ inside
  · rw [List.length_append, List.length_append, kept.given]
    rfl
  · intro closer member
    rcases List.mem_append.mp member with before | new
    · exact kept.unbinds closer before
    · rw [List.mem_singleton.mp new]
      simp
  · intro test member
    have known := kept.opened test member
    rw [List.getElem?_append_left (List.getElem?_eq_some_iff.mp known).1]
    exact known
  · have names := (namesOf_harvest suite.runtime).trans kept.named
    change namesOf ((harvest suite.runtime).records ++ [_]) = _
    rw [namesOf, List.map_append]
    exact congrArg (· ++ [(name, status)]) names

theorem Suite.Kept.checkpoint (kept : suite.Kept) : (suite.call .checkpoint).Kept := by
  have same : suite.call .checkpoint = { suite with runtime := harvest suite.runtime } := by
    simp only [Suite.call, runtimeCall, factsOf, closersAfter, Account.note, append_labelled_nil]
  rw [same]
  exact ⟨kept.sound.harvest, kept.one, kept.counted, kept.running, kept.given, kept.unbinds,
    kept.opened, (namesOf_harvest suite.runtime).trans kept.named⟩

theorem Suite.Kept.call (kept : suite.Kept) {call : Call} (alone : OneByOne call suite) :
    (suite.call call).Kept := by
  cases call with
  | store probe => exact kept.of_probe (kept.sound.p probe) rfl rfl rfl
  | branch whenTrue whenFalse value => exact kept.of_probe (kept.sound.p _) rfl rfl rfl
  | condition decision index value =>
    have sound : Sound (suite.account.facts ++ ([] : List Fact).map fun fact =>
        (suite.runtime.current, fact)) (c decision index value suite.runtime) := by
      rw [append_labelled_nil]
      exact kept.sound.c decision index value
    obtain ⟨openTests, current, records⟩ := c_tests decision index value suite.runtime
    exact kept.of_probe sound openTests current (congrArg namesOf records)
  | close whenTrue whenFalse decision value =>
    have sound := kept.sound.bd whenTrue whenFalse decision value
    obtain ⟨openTests, current, records⟩ :=
      bd_tests whenTrue whenFalse decision value suite.runtime
    exact kept.of_probe sound openTests current (congrArg namesOf records)
  | enter name => exact kept.enter alone name
  | leave test => exact kept.leave alone
  | outcome test status => exact kept.outcome alone status
  | ran name status => exact kept.ran name status
  | checkpoint => exact kept.checkpoint
  | write => exact kept.checkpoint

theorem Suite.Kept.run (kept : suite.Kept) {calls : List Call} (serially : Serially calls suite) :
    (suite.run calls).Kept := by
  induction calls generalizing suite with
  | nil => exact kept
  | cons call rest ih => exact ih (kept.call serially.1) serially.2

end Suites

section Written

/-- What is written accounts for what happened, in all and test by test. -/
structure Suite.Accounts (suite : Suite) (written : State) : Prop where
  totals : ∀ value ∈ written.global, value = 0 ∨ value = 2
  stores : ∀ probe, written.global[probe]? = some 2 ↔
    ∃ test, (test, .stored probe) ∈ suite.account.facts
  vectors : ∀ decision key, key ∈ listAt written.decisions DecisionState.runWide decision ↔
    ∃ test, (test, .completed decision key) ∈ suite.account.facts
  distinct : ∀ decision ∈ written.decisions, decision.runWide.Nodup
  names : written.records.map (·.name) = suite.account.tests.map Prod.fst
  ownStores : ∀ test record, written.records[test]? = some record →
    ∀ probe, probe ∈ record.probes ↔
      probe.2 = 2 ∧ (some test, .stored probe.1) ∈ suite.account.facts
  ownVectors : ∀ test record, written.records[test]? = some record →
    ∀ vector, vector ∈ record.vectors ↔
      (some test, .completed vector.1 vector.2) ∈ suite.account.facts

/-- There is a record of every test, with the status it has, and none claims what
cannot be told apart. -/
def Suite.KeepsTests (suite : Suite) (written : State) : Prop :=
  namesOf written.records = suite.account.tests ∧
    (written.overlapped = true → ∀ record ∈ written.records,
      record.probes = [] ∧ record.vectors = [])

instance (suite : Suite) (written : State) : Decidable (suite.KeepsTests written) :=
  inferInstanceAs (Decidable (_ ∧ _))

variable {suite : Suite}

theorem Suite.Kept.accounts (kept : suite.Kept) : suite.Accounts (harvest suite.runtime) := by
  have sound := kept.sound
  have swept := sound.harvest
  have same := sheet_harvest sound.attributed sound.stores
  have total (fact : Fact) : fact ∈ (sheet (harvest suite.runtime)).total ↔
      ∃ test, (test, fact) ∈ suite.account.facts := by
    rw [same]
    exact sound.exact_.mem_total
  have account (test : Nat) (fact : Fact) : fact ∈ (sheet (harvest suite.runtime)).accounts test ↔
      (some test, fact) ∈ suite.account.facts := by
    rw [same]
    exact sound.exact_.mem_accounts
  refine ⟨swept.stores.global, fun probe => total (.stored probe),
    fun decision key => total (.completed decision key), swept.distinct, ?_, ?_, ?_⟩
  · have names := (namesOf_harvest suite.runtime).trans kept.named
    rw [← names, namesOf, List.map_map]
    rfl
  · intro test record known probe
    have own := account test (.stored probe.1)
    have probes : listAt (harvest suite.runtime).records TestRecord.probes test = record.probes :=
      listAt_of_known known
    have held : (probe.1, 2) ∈ record.probes ↔ (some test, .stored probe.1) ∈ suite.account.facts := by
      rw [← own, ← probes]
      exact Iff.rfl
    rw [← held]
    constructor
    · intro member
      have two := swept.stores.records record (List.mem_of_getElem? known) probe member
      exact ⟨two, two ▸ member⟩
    · rintro ⟨two, member⟩
      rwa [← two] at member
  · intro test record known vector
    have vectors : listAt (harvest suite.runtime).records TestRecord.vectors test = record.vectors :=
      listAt_of_known known
    rw [← account test (.completed vector.1 vector.2), ← vectors]
    exact Iff.rfl

/-- Where tests run one by one, the evidence written at any time accounts for all that
happened by then. -/
theorem serial_accounts {probes : Nat} {conditions : List Nat} {calls : List Call}
    (serially : Serially calls (.start probes conditions)) :
    ((Suite.start probes conditions).run calls).Accounts
      (harvest ((Suite.start probes conditions).run calls).runtime) :=
  ((Suite.Kept.start probes conditions).run serially).accounts

/-- Two tests whose probes and vectors are told apart, with a sweep in the middle of
the first and a vector that both produce. -/
def serialCalls : List Call :=
  [.store 0, .enter "first", .store 1, .condition 0 0 true, .close 2 3 0 true, .checkpoint,
    .condition 0 0 false, .close 2 3 0 false, .leave 0, .store 4, .enter "second",
    .condition 0 0 true, .close 2 3 0 true, .leave 1, .ran "third" "failed", .write]

theorem serialCalls_accounts :
    ((Suite.start 5 [1]).run serialCalls).Accounts
      (harvest ((Suite.start 5 [1]).run serialCalls).runtime) :=
  serial_accounts (by decide +kernel)

theorem Suite.Kept.keepsTests (kept : suite.Kept) : suite.KeepsTests (harvest suite.runtime) := by
  refine ⟨(namesOf_harvest suite.runtime).trans kept.named, fun overlapped => ?_⟩
  have apart : (harvest suite.runtime).overlapped = false := kept.sound.attributed.apart
  rw [apart] at overlapped
  cases overlapped

theorem Suite.Kept.overlap (kept : suite.Kept) (other : suite.account.opened ≠ []) (name : String) :
    (enterTest name suite.runtime).records = [] := by
  have apart : (harvest suite.runtime).overlapped = false := kept.sound.attributed.apart
  have some_ : (harvest suite.runtime).openTests > 0 := by
    change suite.runtime.openTests > 0
    rw [kept.counted]
    exact List.length_pos_iff.mpr other
  simp only [enterTest, if_pos some_, Go.overlap, apart, Bool.false_eq_true, if_false, if_true]

/-- Tests that run one by one all have their records; one that begins while another is
open has none, and takes those of the others with it. -/
theorem serial_keepsTests {probes : Nat} {conditions : List Nat} {calls : List Call}
    (serially : Serially calls (.start probes conditions)) :
    let suite := (Suite.start probes conditions).run calls
    suite.KeepsTests (harvest suite.runtime) ∧
      ∀ name, suite.account.opened ≠ [] →
        ¬ (suite.call (.enter name)).KeepsTests (harvest (suite.call (.enter name)).runtime) := by
  intro suite
  have kept := (Suite.Kept.start probes conditions).run serially
  refine ⟨kept.keepsTests, fun name other keeps => ?_⟩
  have names := keeps.1
  have none_ : namesOf (harvest (enterTest name suite.runtime)).records = [] := by
    rw [namesOf_harvest, kept.overlap other name]
    rfl
  have same : (suite.call (.enter name)).account.tests =
      suite.account.tests ++ [(name, "passed")] := rfl
  rw [same] at names
  exact List.append_ne_nil_of_right_ne_nil _ (List.cons_ne_nil _ _) (names.symm.trans none_)

theorem serialCalls_keepsTests :
    let suite := (Suite.start 5 [1]).run serialCalls
    suite.KeepsTests (harvest suite.runtime) :=
  (serial_keepsTests (by decide +kernel)).1

/-- Of two tests that overlap, neither is in the evidence. -/
theorem overlapping_lost :
    let suite := (Suite.start 0 []).run
      [.enter "first", .enter "second", .outcome 1 "failed", .leave 1, .leave 0]
    ¬ suite.KeepsTests (harvest suite.runtime) ∧ suite.account.tests =
      [("first", "passed"), ("second", "failed")] ∧ (harvest suite.runtime).records = [] := by
  decide +kernel

end Written

/-- A record nothing can be credited to holds nothing, and is never the current one. -/
structure Claims (records : List TestRecord) (current : Option Nat) : Prop where
  empty : ∀ record ∈ records, record.unattributed = true →
    record.probes = [] ∧ record.vectors = []
  current : ∀ index ∈ current, ∃ record, records[index]? = some record ∧ record.unattributed = false

namespace Claims

variable {records : List TestRecord} {current : Option Nat} {state : State}

theorem nil : Claims [] none := ⟨by simp, by simp⟩

theorem unbind (claims : Claims records current) : Claims records none := ⟨claims.empty, by simp⟩

/-- What a change of the current record keeps is that it can be credited. -/
theorem modify {index : Nat} (claims : Claims records (some index))
    {change : TestRecord → TestRecord}
    (kept : ∀ record, (change record).unattributed = record.unattributed) :
    Claims (records.modify index change) (some index) := by
  obtain ⟨held, known, attributed⟩ := claims.current index rfl
  constructor
  · intro record member
    obtain ⟨place, found⟩ := List.mem_iff_getElem?.mp member
    rw [List.getElem?_modify] at found
    obtain ⟨before, there, rfl⟩ := Option.map_eq_some_iff.mp found
    split
    · next here =>
      subst here
      cases known.symm.trans there
      intro unattributed
      rw [kept, attributed] at unattributed
      cases unattributed
    · exact claims.empty before (List.mem_of_getElem? there)
  · intro other same
    cases same
    exact ⟨change held, by simp [known], (kept held).trans attributed⟩

theorem ran (claims : Claims records current) {record : TestRecord}
    (nothing : record.unattributed = true → record.probes = [] ∧ record.vectors = []) :
    Claims (records ++ [record]) current where
  empty := by
    intro other member
    rcases List.mem_append.mp member with before | new
    · exact claims.empty other before
    · rwa [List.mem_singleton.mp new]
  current := by
    intro index same
    obtain ⟨held, known, attributed⟩ := claims.current index same
    exact ⟨held, by rw [List.getElem?_append_left (List.getElem?_eq_some_iff.mp known).1, known],
      attributed⟩

theorem enter (claims : Claims records current) {record : TestRecord}
    (attributed : record.unattributed = false) :
    Claims (records ++ [record]) (some records.length) where
  empty := (claims.ran fun unattributed => by rw [attributed] at unattributed; cases unattributed).empty
  current := by
    intro index same
    cases same
    exact ⟨record, List.getElem?_concat_length, attributed⟩

theorem harvest (claims : Claims state.records state.current) :
    Claims (harvest state).records state.current := by
  cases running : state.current with
  | none =>
    rw [running] at claims
    simpa only [Go.harvest, running] using claims
  | some index =>
    rw [running] at claims
    simp only [Go.harvest, running]
    split
    · exact claims
    · exact claims.modify fun _ => rfl

theorem runtimeCall (claims : Claims state.records state.current) (closers : List (Option Bool))
    (call : Call) :
    Claims (runtimeCall closers call state).records (runtimeCall closers call state).current := by
  cases call with
  | store probe => exact claims
  | branch whenTrue whenFalse value => exact claims
  | condition decision index value =>
    obtain ⟨-, current, records⟩ := c_tests decision index value state
    rw [Go.runtimeCall, current, records]
    exact claims
  | close whenTrue whenFalse decision value =>
    obtain ⟨-, current, records⟩ := bd_tests whenTrue whenFalse decision value state
    rw [Go.runtimeCall, current, records]
    exact claims
  | enter name =>
    -- Where tests overlap there is no record left, and none is begun.
    have swept : Claims (Go.harvest state).records (Go.harvest state).current := claims.harvest
    have apart : Claims (overlap (Go.harvest state)).records (overlap (Go.harvest state)).current := by
      unfold overlap
      split
      · exact swept
      · exact nil
    simp only [Go.runtimeCall, enterTest]
    split
    · split
      · exact apart
      · exact apart.enter rfl
    · split
      · exact swept
      · exact swept.enter rfl
  | leave test =>
    simp only [Go.runtimeCall]
    cases closers[test]?.join with
    | none => exact claims
    | some unbinds =>
      cases unbinds with
      | true => exact claims.harvest.unbind
      | false => exact claims.harvest
  | outcome test status =>
    simp only [Go.runtimeCall, outcome]
    split
    · next index running =>
      rw [running] at claims
      rw [running]
      exact claims.modify fun _ => rfl
    · exact claims
  | ran name status => exact claims.harvest.ran fun _ => ⟨rfl, rfl⟩
  | checkpoint => exact claims.harvest
  | write => exact claims.harvest

theorem run {suite : Suite} (claims : Claims suite.runtime.records suite.runtime.current)
    (calls : List Call) :
    Claims (suite.run calls).runtime.records (suite.run calls).runtime.current := by
  induction calls generalizing suite with
  | nil => exact claims
  | cons call rest ih => exact ih (claims.runtimeCall suite.closers call)

end Claims

end Supercov.Runtime.Go
