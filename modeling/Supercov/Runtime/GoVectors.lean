import Supercov.Runtime.Go

/-!
# What the Go runtime keeps of a run

An evaluation that begins while its decision is open suspends the one that is;
its end looks at the top of the stack and puts that back.  `InPlace` says that
every evaluation in progress will find its words when its turn comes.  Recursion
keeps it as long as the stack has room; a panic may break it, since nothing
takes back what the abandoned evaluations suspended.
-/

namespace Supercov.Runtime.Go

open ShortCircuit

section Stack

theorem Suspended.push_of_room {suspended : Suspended} {entry : Suspension}
    (room : suspended.entries.length < suspendedDepth) :
    suspended.push entry = ⟨entry :: suspended.entries, room⟩ := dif_pos room

theorem Suspended.push_of_full {suspended : Suspended} {entry : Suspension}
    (full : ¬ suspended.entries.length < suspendedDepth) : suspended.push entry = suspended :=
  dif_neg full

theorem Suspended.takeBack_push {suspended : Suspended} {id : Nat} {words : Words}
    (room : suspended.entries.length < suspendedDepth) :
    (suspended.push { id := id, words := words }).takeBack id = (some words, suspended) := by
  rw [push_of_room room, takeBack]
  exact if_pos rfl

theorem Suspended.takeBack_cases (id : Nat) (suspended : Suspended) :
    ((∀ last ∈ suspended.entries.head?, last.id ≠ id) ∧
      suspended.takeBack id = (Option.none, suspended)) ∨
    ∃ last, suspended.entries.head? = some last ∧ last.id = id := by
  obtain ⟨entries, bounded⟩ := suspended
  cases entries with
  | nil => exact Or.inl ⟨by simp, rfl⟩
  | cons last rest =>
    by_cases same : last.id = id
    · exact Or.inr ⟨last, rfl, same⟩
    · refine Or.inl ⟨?_, if_neg same⟩
      intro top found
      cases found
      exact same

/-- The evaluations in progress end one after another, the innermost first, and
each end puts back what the stack gives it: then each that has begun finds its
own words in its decision's state when it is the innermost left. -/
def InPlace (words : Nat → Option Words) (suspended : Suspended) : List Activation → Prop
  | [] => True
  | inner :: outer =>
    if inner.seen = [] then InPlace words suspended outer
    else
      words inner.decision = some (wordsOf inner.seen) ∧
        InPlace (Function.update words inner.decision (suspended.takeBack inner.decision).1)
          (suspended.takeBack inner.decision).2 outer

instance decidableInPlace : ∀ (words : Nat → Option Words) (suspended : Suspended)
    (stack : List Activation), Decidable (InPlace words suspended stack)
  | _, _, [] => isTrue trivial
  | words, suspended, inner :: outer =>
    have := decidableInPlace words suspended outer
    have := decidableInPlace
      (Function.update words inner.decision (suspended.takeBack inner.decision).1)
      (suspended.takeBack inner.decision).2 outer
    inferInstanceAs (Decidable (if inner.seen = [] then _ else _ ∧ _))

variable {words words' : Nat → Option Words} {suspended : Suspended} {inner : Activation}
  {stack outer : List Activation}

theorem inPlace_cons_of_fresh (fresh : inner.seen = []) :
    InPlace words suspended (inner :: outer) ↔ InPlace words suspended outer := by
  rw [InPlace, if_pos fresh]

theorem inPlace_cons_of_begun (begun : inner.seen ≠ []) :
    InPlace words suspended (inner :: outer) ↔
      words inner.decision = some (wordsOf inner.seen) ∧
        InPlace (Function.update words inner.decision (suspended.takeBack inner.decision).1)
          (suspended.takeBack inner.decision).2 outer := by
  rw [InPlace, if_neg begun]

def NotBegun (decision : Nat) (stack : List Activation) : Prop :=
  ∀ activation ∈ stack, activation.decision = decision → activation.seen = []

theorem NotBegun.ne_head {decision : Nat} (notBegun : NotBegun decision (inner :: outer))
    (begun : inner.seen ≠ []) : inner.decision ≠ decision := by
  intro same
  exact begun (notBegun inner List.mem_cons_self same)

theorem NotBegun.tail {decision : Nat} (notBegun : NotBegun decision (inner :: outer)) :
    NotBegun decision outer :=
  fun activation member => notBegun activation (List.mem_cons_of_mem _ member)

theorem InPlace.mono (inPlace : InPlace words suspended stack)
    (more : ∀ decision held, words decision = some held → words' decision = some held) :
    InPlace words' suspended stack := by
  induction stack generalizing words words' suspended with
  | nil => trivial
  | cons inner outer ih =>
    by_cases fresh : inner.seen = []
    · rw [inPlace_cons_of_fresh fresh] at inPlace ⊢
      exact ih inPlace more
    · rw [inPlace_cons_of_begun fresh] at inPlace ⊢
      refine ⟨more _ _ inPlace.1, ih inPlace.2 ?_⟩
      intro decision held
      by_cases same : decision = inner.decision
      · subst same
        simp
      · rw [Function.update_of_ne same, Function.update_of_ne same]
        exact more decision held

theorem InPlace.update (inPlace : InPlace words suspended stack) {decision : Nat}
    (notBegun : NotBegun decision stack) (held : Option Words) :
    InPlace (Function.update words decision held) suspended stack := by
  induction stack generalizing words suspended with
  | nil => trivial
  | cons inner outer ih =>
    by_cases fresh : inner.seen = []
    · rw [inPlace_cons_of_fresh fresh] at inPlace ⊢
      exact ih inPlace notBegun.tail
    · have apart := notBegun.ne_head fresh
      rw [inPlace_cons_of_begun fresh] at inPlace ⊢
      rw [Function.update_of_ne apart, Function.update_comm apart.symm]
      exact ⟨inPlace.1, ih inPlace.2 notBegun.tail⟩

theorem InPlace.words_of_mem (inPlace : InPlace words suspended stack) {activation : Activation}
    (member : activation ∈ stack) (begun : activation.seen ≠ []) :
    ∃ other ∈ stack, other.seen ≠ [] ∧ words activation.decision = some (wordsOf other.seen) := by
  induction stack generalizing words suspended with
  | nil => cases member
  | cons inner outer ih =>
    by_cases fresh : inner.seen = []
    · rw [inPlace_cons_of_fresh fresh] at inPlace
      rcases List.mem_cons.mp member with same | outside
      · exact absurd (same ▸ fresh) begun
      · obtain ⟨other, among, rest⟩ := ih inPlace outside
        exact ⟨other, List.mem_cons_of_mem _ among, rest⟩
    · rw [inPlace_cons_of_begun fresh] at inPlace
      by_cases same : activation.decision = inner.decision
      · exact ⟨inner, List.mem_cons_self, fresh, same ▸ inPlace.1⟩
      · have outside : activation ∈ outer := by
          rcases List.mem_cons.mp member with rfl | outside
          · exact absurd rfl same
          · exact outside
        obtain ⟨other, among, begun', held⟩ := ih inPlace.2 outside
        rw [Function.update_of_ne same] at held
        exact ⟨other, List.mem_cons_of_mem _ among, begun', held⟩

/-- All that have begun are of different decisions, and each one's words are there. -/
structure Alone (words : Nat → Option Words) (stack : List Activation) : Prop where
  apart : stack.Pairwise Apart
  words : ∀ activation ∈ stack, activation.seen ≠ [] →
    words activation.decision = some (wordsOf activation.seen)

theorem Alone.inPlace (alone : Alone words stack) (suspended : Suspended) :
    InPlace words suspended stack := by
  induction stack generalizing words suspended with
  | nil => trivial
  | cons inner outer ih =>
    obtain ⟨apart, held⟩ := alone
    rw [List.pairwise_cons] at apart
    by_cases fresh : inner.seen = []
    · rw [inPlace_cons_of_fresh fresh]
      exact ih ⟨apart.2, fun activation member => held activation (List.mem_cons_of_mem _ member)⟩ _
    · rw [inPlace_cons_of_begun fresh]
      refine ⟨held inner List.mem_cons_self fresh, ih ⟨apart.2, ?_⟩ _⟩
      intro activation member begun
      have different : activation.decision ≠ inner.decision := by
        intro same
        rcases apart.1 activation member same.symm with first | second
        · exact fresh first
        · exact begun second
      rw [Function.update_of_ne different]
      exact held activation (List.mem_cons_of_mem _ member) begun

theorem InPlace.alone (inPlace : InPlace words suspended stack) {last : Suspension}
    (top : suspended.entries.head? = some last) (notBegun : NotBegun last.id stack) :
    Alone words stack := by
  induction stack generalizing words with
  | nil => exact ⟨List.Pairwise.nil, fun _ member => absurd member List.not_mem_nil⟩
  | cons inner outer ih =>
    by_cases fresh : inner.seen = []
    · rw [inPlace_cons_of_fresh fresh] at inPlace
      obtain ⟨apart, held⟩ := ih inPlace notBegun.tail
      refine ⟨List.pairwise_cons.mpr ⟨fun _ _ _ => Or.inl fresh, apart⟩, ?_⟩
      intro activation member begun
      rcases List.mem_cons.mp member with rfl | outside
      · exact absurd fresh begun
      · exact held activation outside begun
    · have different := notBegun.ne_head fresh
      have kept : suspended.takeBack inner.decision = (none, suspended) := by
        rcases suspended.takeBack_cases inner.decision with ⟨_, kept⟩ | ⟨other, top', same⟩
        · exact kept
        · rw [top] at top'
          cases top'
          exact absurd same.symm different
      rw [inPlace_cons_of_begun fresh, kept] at inPlace
      obtain ⟨apart, held⟩ := ih inPlace.2 notBegun.tail
      have others : ∀ activation ∈ outer, activation.seen ≠ [] →
          activation.decision ≠ inner.decision := by
        intro activation member begun same
        have found := held activation member begun
        rw [same, Function.update_self] at found
        cases found
      constructor
      · refine List.pairwise_cons.mpr ⟨?_, apart⟩
        intro activation member same
        by_contra both
        push Not at both
        exact others activation member both.2 same.symm
      · intro activation member begun
        rcases List.mem_cons.mp member with rfl | outside
        · exact inPlace.1
        · have found := held activation outside begun
          rwa [Function.update_of_ne (others activation outside begun)] at found

theorem InPlace.takeBack (inPlace : InPlace words suspended stack) {decision : Nat}
    (notBegun : NotBegun decision stack) (held : Option Words) :
    InPlace (Function.update words decision held) (suspended.takeBack decision).2 stack := by
  rcases suspended.takeBack_cases decision with ⟨_, kept⟩ | ⟨last, top, same⟩
  · rw [kept]
    exact inPlace.update notBegun held
  · obtain ⟨apart, found⟩ := inPlace.alone top (same ▸ notBegun)
    refine (Alone.mk apart ?_).inPlace _
    intro activation member begun
    rw [Function.update_of_ne]
    · exact found activation member begun
    · intro here
      exact begun (notBegun activation member here)

theorem InPlace.begins {program : List Shape} (inPlace : InPlace words suspended outer)
    (paths : OnPaths program outer) {decision : Nat} {held : Words}
    (known : words decision = some held) {seen : Seen} (begun : seen ≠ [])
    (room : ¬ NotBegun decision outer → suspended.entries.length < suspendedDepth) :
    InPlace (Function.update words decision (some (wordsOf seen)))
      (if held.evaluating ≠ 0 then suspended.push { id := decision, words := held } else suspended)
      (⟨decision, seen⟩ :: outer) := by
  rw [inPlace_cons_of_begun begun, Function.update_self, Function.update_idem]
  refine ⟨rfl, ?_⟩
  by_cases pushed : held.evaluating ≠ 0 ∧ suspended.entries.length < suspendedDepth
  · rw [if_pos pushed.1]
    dsimp only
    rw [Suspended.takeBack_push pushed.2, ← known, Function.update_eq_self]
    exact inPlace
  · have notBegun : NotBegun decision outer := by
      by_contra other
      apply pushed
      refine ⟨?_, room other⟩
      unfold NotBegun at other
      push Not at other
      obtain ⟨activation, member, same, begun'⟩ := other
      obtain ⟨open_, among, opened, found⟩ := inPlace.words_of_mem member begun'
      rw [same, known] at found
      cases found
      obtain ⟨shape, _, path⟩ := paths open_ among
      obtain ⟨value, first⟩ := path.mem_zero opened
      exact evaluating_ne_zero first
    have unpushed : (if held.evaluating ≠ 0 then suspended.push { id := decision, words := held }
        else suspended) = suspended := by
      split
      · rename_i opened
        exact Suspended.push_of_full fun hasRoom => pushed ⟨opened, hasRoom⟩
      · rfl
    rw [unpushed]
    exact inPlace.takeBack notBegun _

theorem InPlace.observes (inPlace : InPlace words suspended (inner :: outer))
    (begun : inner.seen ≠ []) {seen : Seen} (still : seen ≠ []) :
    InPlace (Function.update words inner.decision (some (wordsOf seen))) suspended
      ({ inner with seen := seen } :: outer) := by
  rw [inPlace_cons_of_begun begun] at inPlace
  rw [inPlace_cons_of_begun still, Function.update_self, Function.update_idem]
  exact ⟨rfl, inPlace.2⟩

end Stack

section Decisions

def DecisionState.seen (decision : DecisionState) : List Word :=
  decision.slots ++ decision.overflow

def DecisionState.ended (restored : Option Words) (decision : DecisionState) : DecisionState :=
  { decision with words := { decision.words with evaluating := 0 } }.restore restored

@[simp]
theorem record_words (key : Word) (decision : DecisionState) :
    (decision.record key).words = decision.words := by
  unfold DecisionState.record
  grind

@[simp]
theorem record_width (key : Word) (decision : DecisionState) :
    (decision.record key).width = decision.width := by
  unfold DecisionState.record
  grind

@[simp]
theorem record_runWide (key : Word) (decision : DecisionState) :
    (decision.record key).runWide = decision.runWide := by
  unfold DecisionState.record
  grind

theorem record_of_narrow {key : Word} {decision : DecisionState} (some_ : maskOf key ≠ 0)
    (narrow : decision.width ≤ packedMaxWidth) :
    (decision.record key).recentFirst = key ∧
      (decision.record key).recentSecond = decision.recentFirst ∧
      ∀ other, other ∈ (decision.record key).seen ↔ other ∈ decision.seen ∨ other = key := by
  have kept : ¬ (maskOf key = 0 ∨ decision.width > packedMaxWidth) := by
    intro skipped
    rcases skipped with empty | wide
    · exact some_ empty
    · exact absurd narrow (not_le.mpr wide)
  rw [DecisionState.record, if_neg kept]
  split
  · rename_i known
    refine ⟨rfl, rfl, ?_⟩
    intro other
    simp only [DecisionState.seen, List.mem_append]
    grind
  split
  · refine ⟨rfl, rfl, ?_⟩
    intro other
    simp only [DecisionState.seen, List.mem_append, List.mem_singleton]
    tauto
  · refine ⟨rfl, rfl, ?_⟩
    intro other
    simp only [DecisionState.seen, List.mem_append, mem_including]
    tauto

theorem record_of_wide {key : Word} {decision : DecisionState}
    (wide : packedMaxWidth < decision.width) : decision.record key = decision :=
  if_pos (Or.inr wide)

def wordsAt (state : State) (id : Nat) : Option Words :=
  (state.decisions[id]?).map DecisionState.words

theorem wordsAt_modify {state : State} {id : Nat} {decision : DecisionState}
    (known : state.decisions[id]? = some decision) (change : DecisionState → DecisionState) :
    wordsAt { state with decisions := state.decisions.modify id change } =
      Function.update (wordsAt state) id (some (change decision).words) := by
  funext position
  by_cases here : position = id
  · subst here
    simp [wordsAt, List.getElem?_modify_eq, known]
  · rw [Function.update_of_ne here]
    simp only [wordsAt, List.getElem?_modify_ne _ _ (Ne.symm here)]

/-- Out of the arrays' bounds or the word's, `c` changes nothing, and neither would
its stores. -/
theorem c_eq (id index : Nat) (value : Bool) (state : State) :
    c id index value state =
      { state with
        suspended := if index = 0 then interrupt id state else state.suspended
        decisions := state.decisions.modify id (DecisionState.observe index value) } := by
  unfold c
  split
  · rename_i outside
    have same : state.decisions.modify id (DecisionState.observe index value) =
        state.decisions := by
      apply modify_eq_self
      intro decision known
      rcases outside with unknown | wide
      · rw [List.getElem?_eq_none unknown] at known
        cases known
      · simp only [DecisionState.observe, Words.observe_of_le wide]
    have unmoved : (if index = 0 then interrupt id state else state.suspended) =
        state.suspended := by
      split
      · rename_i first
        rcases outside with unknown | wide
        · rw [interrupt, List.getElem?_eq_none unknown]
        · rw [first] at wide
          exact absurd wide (by decide)
      · rfl
    rw [same, unmoved]
  · rfl

theorem bd_eq {state : State} {id : Nat} {decision : DecisionState}
    (known : state.decisions[id]? = some decision) (whenTrue whenFalse : Nat) (value : Bool) :
    ∃ kept, (kept = decision.ended (state.suspended.takeBack id).1 ∧
          (decision.words.key value = decision.recentFirst ∨
            decision.words.key value = decision.recentSecond) ∨
        kept = (decision.ended (state.suspended.takeBack id).1).record (decision.words.key value)) ∧
      bd whenTrue whenFalse id value state =
        { b whenTrue whenFalse value state with
          suspended := (state.suspended.takeBack id).2
          decisions := state.decisions.modify id fun _ => kept } := by
  have reached : (b whenTrue whenFalse value state).decisions[id]? = some decision := known
  simp only [bd, reached]
  split
  · rename_i cached
    have nothing : state.suspended.takeBack id = (none, state.suspended) := by
      rcases state.suspended.takeBack_cases id with ⟨_, kept⟩ | ⟨last, top, _⟩
      · exact kept
      · rw [show state.suspended.entries = [] from cached.1] at top
        cases top
    refine ⟨_, Or.inl ⟨rfl, cached.2⟩, ?_⟩
    rw [nothing]
    exact congrArg (fun decisions => { b whenTrue whenFalse value state with
      decisions := decisions }) (modify_eq_of_known known _)
  · refine ⟨_, Or.inr rfl, ?_⟩
    rw [← modify_eq_of_known known fun held =>
      (held.ended (state.suspended.takeBack id).1).record (decision.words.key value)]
    exact congrArg (fun decisions => { b whenTrue whenFalse value state with
      suspended := (state.suspended.takeBack id).2
      decisions := decisions }) (List.modify_modify_eq _ _ _ _)

end Decisions

section Ledger

/-- What the runtime's arrays and records amount to. -/
def ledger (state : State) : Ledger :=
  .ofTables (listAt state.decisions DecisionState.seen)
    (listAt state.decisions DecisionState.runWide) (listAt state.records TestRecord.vectors)
    state.current

theorem ledger_c (id index : Nat) (value : Bool) (state : State) :
    ledger (c id index value state) = ledger state := by
  have seen : listAt (state.decisions.modify id (DecisionState.observe index value))
      DecisionState.seen = listAt state.decisions DecisionState.seen :=
    listAt_modify_of_kept (by intro _; rfl) id
  have wide : listAt (state.decisions.modify id (DecisionState.observe index value))
      DecisionState.runWide = listAt state.decisions DecisionState.runWide :=
    listAt_modify_of_kept (by intro _; rfl) id
  rw [c_eq]
  simp only [ledger, seen, wide]

theorem ledger_arm (hits : Nat) (widths : List Nat) : ledger (arm hits widths) = .empty := by
  have nothing : ∀ field : DecisionState → List Word, (∀ width, field (.armed width) = []) →
      ∀ decision, listAt (arm hits widths).decisions field decision = [] := by
    intro field empty decision
    simp only [arm, listAt, List.getElem?_map, Option.map_map]
    cases widths[decision]? with
    | none => rfl
    | some width => exact empty width
  exact Ledger.ofTables_empty (nothing _ fun _ => rfl) (nothing _ fun _ => rfl) fun _ => rfl

/-- What the calls need of the state to keep its attribution: tests have not
overlapped, and the current record is there. -/
structure Attributed (state : State) : Prop where
  apart : state.overlapped = false
  valid : ∀ index ∈ state.current, index < state.records.length

variable {state : State}

theorem Attributed.harvest (attributed : Attributed state) : Attributed (harvest state) where
  apart := attributed.apart
  valid := by
    intro index running
    have inside := attributed.valid index running
    unfold Go.harvest
    cases state.current <;> simpa [attributed.apart] using inside

theorem ledger_harvest (attributed : Attributed state) :
    ledger (harvest state) = (ledger state).sweep := by
  have apart := attributed.apart
  apply Ledger.ofTables_sweep
  · intro decision
    exact listAt_map_of_nil (by intro _; rfl) decision
  · intro decision key
    cases found : state.decisions[decision]? with
    | none => simp [listAt, harvest, found]
    | some held =>
      simp [listAt, harvest, found, DecisionState.harvest, apart, DecisionState.seen, or_assoc]
  · intro record hit
    have seen : hit ∈ seenVectors state.decisions ↔
        hit.2 ∈ listAt state.decisions DecisionState.seen hit.1 := by
      rw [seenVectors, List.mem_append, mem_indexedKeys, mem_indexedKeys]
      cases found : state.decisions[hit.1]? <;> simp [listAt, found, DecisionState.seen]
    rw [← seen]
    cases running : state.current with
    | none => simp [harvest, running]
    | some index =>
      have inside := attributed.valid index running
      simp only [harvest, running, apart, Bool.false_eq_true, if_false, Option.some.injEq]
      by_cases same : index = record
      · subst same
        have known := List.getElem?_eq_getElem inside
        rw [listAt_modify_eq known, listAt_of_known known]
        simp [TestRecord.credit]
      · rw [listAt_modify_of_ne same]
        simp [same]

theorem enterTest_eq (attributed : Attributed state) (alone : state.openTests = 0)
    (name : String) :
    enterTest name state =
      { harvest state with
        openTests := 1
        records := (harvest state).records ++ [{
          name := name
          status := "passed"
          unattributed := false
          probes := []
          vectors := [] }]
        current := some (harvest state).records.length } := by
  have apart : (harvest state).overlapped = false := attributed.apart
  have closed : (harvest state).openTests = 0 := alone
  simp only [enterTest, closed, apart, gt_iff_lt, lt_irrefl, if_false, Bool.false_eq_true,
    Nat.zero_add]

theorem ledger_enterTest (attributed : Attributed state) (alone : state.openTests = 0)
    (name : String) :
    ledger (enterTest name state) =
      (ledger state).sweep.assign (some (harvest state).records.length) := by
  rw [← ledger_harvest attributed, enterTest_eq attributed alone]
  unfold ledger
  rw [listAt_append_of_nil (by rfl)]
  rfl

theorem ledger_leaveTest (attributed : Attributed state) (unbinds : Bool) :
    ledger (leaveTest unbinds state) =
      (ledger state).sweep.assign (if unbinds then none else state.current) := by
  rw [← ledger_harvest attributed]
  rfl

theorem ledger_ran (attributed : Attributed state) (name status : String) :
    ledger (ran name status state) = (ledger state).sweep := by
  rw [← ledger_harvest attributed]
  unfold ledger ran
  dsimp only
  rw [listAt_append_of_nil (by rfl)]

theorem Attributed.outcome (attributed : Attributed state) (status : String) :
    Attributed (outcome status state) := by
  unfold Go.outcome
  split
  · rename_i index running
    refine ⟨attributed.apart, ?_⟩
    intro index' running'
    rw [List.length_modify]
    exact attributed.valid index' running'
  · exact attributed

theorem ledger_outcome (status : String) (state : State) :
    ledger (outcome status state) = ledger state := by
  unfold Go.outcome
  split
  · rename_i index _
    have same : listAt (state.records.modify index fun record =>
        { record with status := status }) TestRecord.vectors =
          listAt state.records TestRecord.vectors :=
      listAt_modify_of_kept (by intro _; rfl) index
    simp only [ledger, same]
  · rfl

theorem ledger_bd {id : Nat} {decision kept : DecisionState}
    (known : state.decisions[id]? = some decision) (runWide : kept.runWide = decision.runWide)
    (suspended : Suspended) (whenTrue whenFalse : Nat) (value : Bool) :
    let after := { b whenTrue whenFalse value state with
      suspended := suspended
      decisions := state.decisions.modify id fun _ => kept }
    (kept.seen = decision.seen → ledger after = ledger state) ∧
      ∀ key, (∀ other, other ∈ kept.seen ↔ other ∈ decision.seen ∨ other = key) →
        ledger after = (ledger state).record id key := by
  have wide : listAt (state.decisions.modify id fun _ => kept) DecisionState.runWide =
      listAt state.decisions DecisionState.runWide := by
    funext other
    by_cases same : id = other
    · subst same
      rw [listAt_modify_eq known, listAt_of_known known, runWide]
    · exact listAt_modify_of_ne same
  constructor
  · intro unseen
    have seen : listAt (state.decisions.modify id fun _ => kept) DecisionState.seen =
        listAt state.decisions DecisionState.seen := by
      funext other
      by_cases same : id = other
      · subst same
        rw [listAt_modify_eq known, listAt_of_known known, unseen]
      · exact listAt_modify_of_ne same
    simp only [ledger, seen, wide]
    rfl
  · intro key recorded
    simp only [ledger, wide]
    apply Ledger.ofTables_record
    intro other held
    by_cases same : id = other
    · subst same
      rw [listAt_modify_eq known, listAt_of_known known, recorded]
      simp
    · rw [listAt_modify_of_ne same]
      simp [Ne.symm same]

end Ledger

section Runs

variable {program : List Shape} {arms : Nat → Nat × Nat}

abbrev GoRun := Run State (Option Nat)

/-- An evaluation that interrupts another of its decision finds room on the stack; a
panic leaves every evaluation in progress the words it will look for; and a test
begins only when no other is open. -/
def Undisturbed (move : Move Request) (run : GoRun) : Prop :=
  match move, run.stack with
  | .operand _, innermost :: outer =>
    innermost.seen = [] → ¬ NotBegun innermost.decision outer →
      run.state.suspended.entries.length < suspendedDepth
  | .panic abandoned, stack =>
    InPlace (wordsAt run.state) run.state.suspended (stack.drop abandoned)
  | .call (.enterTest _), _ => run.state.openTests = 0
  | _, _ => True

instance (decision : Nat) (stack : List Activation) : Decidable (NotBegun decision stack) :=
  inferInstanceAs (Decidable (∀ activation ∈ stack, _))

instance (move : Move Request) (run : GoRun) : Decidable (Undisturbed move run) := by
  unfold Undisturbed
  split <;> infer_instance

def Cached (decision : DecisionState) : Prop :=
  ∀ key, key = decision.recentFirst ∨ key = decision.recentSecond → key ≠ 0 → key ∈ decision.seen

structure Invariant (program : List Shape) (run : GoRun) : Prop where
  paths : OnPaths program run.stack
  inPlace : InPlace (wordsAt run.state) run.state.suspended run.stack
  widths : run.state.decisions.map DecisionState.width = program.map Shape.size
  cached : ∀ decision ∈ run.state.decisions, Cached decision
  attributed : Attributed run.state
  faithful : Ledger.Faithful (Measured program) run.completed (ledger run.state)

theorem Invariant.start (program : List Shape) (hits : Nat) :
    Invariant program (.start (arm hits (program.map Shape.size))) where
  paths := by simp [Run.start, OnPaths]
  inPlace := trivial
  widths := by simp [Run.start, arm, DecisionState.armed]
  cached := by simp [Run.start, arm, Cached, DecisionState.armed]
  attributed := ⟨rfl, by simp [Run.start, arm]⟩
  faithful := by
    rw [Run.start, ledger_arm]
    exact Ledger.Faithful.empty

theorem Invariant.decision {run : GoRun} (invariant : Invariant program run)
    {decision : Nat} {shape : Shape} (known : program[decision]? = some shape) :
    ∃ held, run.state.decisions[decision]? = some held ∧ held.width = shape.size := by
  have same := congrArg (fun widths => widths[decision]?) invariant.widths
  simp only [List.getElem?_map, known, Option.map_some, Option.map_eq_some_iff] at same
  exact same

theorem widths_modify {decisions : List DecisionState} {id : Nat}
    {change : DecisionState → DecisionState}
    (kept : ∀ held ∈ decisions[id]?, (change held).width = held.width) :
    (decisions.modify id change).map DecisionState.width = decisions.map DecisionState.width := by
  apply List.ext_getElem?
  intro position
  simp only [List.getElem?_map, List.getElem?_modify]
  by_cases here : id = position
  · subst here
    cases known : decisions[id]? with
    | none => rfl
    | some held => simpa using kept held known
  · simp [here]

theorem cached_modify {decisions : List DecisionState} {id : Nat}
    {change : DecisionState → DecisionState} (cached : ∀ decision ∈ decisions, Cached decision)
    (kept : ∀ held ∈ decisions[id]?, Cached (change held)) :
    ∀ decision ∈ decisions.modify id change, Cached decision := by
  intro decision member
  obtain ⟨position, found⟩ := List.mem_iff_getElem?.mp member
  by_cases here : id = position
  · rw [← here, List.getElem?_modify_eq] at found
    obtain ⟨held, known, changed⟩ := Option.map_eq_some_iff.mp found
    rw [← changed]
    exact kept held known
  · rw [List.getElem?_modify_ne _ _ here] at found
    exact cached decision (List.mem_of_getElem? found)

theorem Invariant.operand {run run' : GoRun} {value : Bool} (invariant : Invariant program run)
    (allowed : Undisturbed (.operand value) run)
    (observed : observe program (probes arms) value run = some run') : Invariant program run' := by
  obtain ⟨innermost, outer, shape, index, stacked, known, waits, rfl⟩ := observe_eq_some observed
  have paths := invariant.paths
  have inPlace := invariant.inPlace
  rw [stacked] at paths inPlace
  have path : shape.Path innermost.seen := by
    obtain ⟨shape', known', path⟩ := paths innermost List.mem_cons_self
    rw [known] at known'
    cases known'
    exact path
  obtain ⟨held, holds, _⟩ := invariant.decision known
  have heldWords : wordsAt run.state innermost.decision = some held.words := by
    simp [wordsAt, holds]
  have state : (probes arms).condition innermost.decision index value run.state =
      { run.state with
        suspended :=
          if index = 0 then interrupt innermost.decision run.state else run.state.suspended
        decisions := run.state.decisions.modify innermost.decision
          (DecisionState.observe index value) } := c_eq _ _ _ _
  have same := ledger_c innermost.decision index value run.state
  rw [c_eq] at same
  rw [state]
  refine ⟨paths.observe known waits, ?_, ?_, ?_,
    ⟨invariant.attributed.apart, invariant.attributed.valid⟩, ?_⟩
  · have words := wordsAt_modify holds (DecisionState.observe index value)
    change InPlace (wordsAt { run.state with
      decisions := run.state.decisions.modify innermost.decision
        (DecisionState.observe index value) }) _ _
    rw [words]
    by_cases fresh : innermost.seen = []
    · have first : index = 0 := by
        rw [fresh, Shape.next_nil] at waits
        cases waits
        rfl
      have room := allowed
      simp only [Undisturbed, stacked] at room
      have after : (held.observe index value).words =
          wordsOf (innermost.seen ++ [(index, value)]) :=
        observe_wordsOf path waits (fun begun => absurd fresh begun) value
      have interrupted : interrupt innermost.decision run.state =
          if held.words.evaluating ≠ 0 then
            run.state.suspended.push { id := innermost.decision, words := held.words }
          else run.state.suspended := by
        rw [interrupt, holds]
      rw [after, if_pos first, interrupted]
      rw [inPlace_cons_of_fresh fresh] at inPlace
      exact inPlace.begins (fun activation member => paths activation (List.mem_cons_of_mem _ member))
        heldWords (by simp) (room fresh)
    · have later : index ≠ 0 := Nat.ne_of_gt (path.pos waits fresh)
      have own : held.words = wordsOf innermost.seen := by
        have found := ((inPlace_cons_of_begun fresh).mp inPlace).1
        rw [heldWords] at found
        exact Option.some.inj found
      have after : (held.observe index value).words =
          wordsOf (innermost.seen ++ [(index, value)]) :=
        observe_wordsOf path waits (fun _ => own) value
      rw [after, if_neg later]
      exact inPlace.observes fresh (by simp)
  · rw [← invariant.widths]
    exact widths_modify fun _ _ => rfl
  · exact cached_modify invariant.cached fun decision found =>
      invariant.cached decision (List.mem_of_getElem? found)
  · rw [same]
    exact invariant.faithful

theorem Cached.ended {decision : DecisionState} (cached : Cached decision)
    (restored : Option Words) : Cached (decision.ended restored) := cached

theorem Invariant.close {run : GoRun} (invariant : Invariant program run)
    (evaluation : Evaluation) {shape : Shape} (known : program[evaluation.decision]? = some shape)
    (path : shape.Path evaluation.seen) (begun : evaluation.seen ≠ []) {held kept : DecisionState}
    (holds : run.state.decisions[evaluation.decision]? = some held)
    (words : held.words = wordsOf evaluation.seen) {restored : Option Words}
    (closes : kept = held.ended restored ∧
        (held.words.key evaluation.outcome = held.recentFirst ∨
          held.words.key evaluation.outcome = held.recentSecond) ∨
      kept = (held.ended restored).record (held.words.key evaluation.outcome))
    (suspended : Suspended) (whenTrue whenFalse : Nat) :
    Cached kept ∧
      Ledger.Faithful (Measured program) (run.completed ++ [(run.state.current, evaluation)])
        (ledger { b whenTrue whenFalse evaluation.outcome run.state with
          suspended := suspended
          decisions := run.state.decisions.modify evaluation.decision fun _ => kept }) := by
  obtain ⟨first, member⟩ := path.mem_zero begun
  obtain ⟨held', holds', width⟩ := invariant.decision known
  rw [holds] at holds'
  cases holds'
  have cached := invariant.cached held (List.mem_of_getElem? holds)
  have some_ : maskOf (held.words.key evaluation.outcome) ≠ 0 := by
    rw [words]
    exact maskOf_key_ne_zero member evaluation.outcome
  by_cases wide : packedMaxWidth < held.width
  · have same : kept = held.ended restored := by
      rcases closes with ⟨same, _⟩ | same
      · exact same
      · rw [same]
        exact record_of_wide wide
    refine ⟨same ▸ cached.ended restored, ?_⟩
    rw [(ledger_bd holds (by rw [same]; rfl) suspended whenTrue whenFalse _).1 (by rw [same]; rfl)]
    apply invariant.faithful.skip
    intro ⟨shape', known', narrow⟩
    rw [known] at known'
    cases known'
    exact absurd narrow (not_le.mpr (width ▸ wide))
  · have narrow := not_lt.mp wide
    have describes : Describes (held.words.key evaluation.outcome) evaluation := by
      rw [words]
      apply key_describes
      intro observed member
      exact lt_of_lt_of_le (path.lt_size observed member) (width ▸ narrow)
    rcases closes with ⟨same, recent⟩ | same
    · refine ⟨same ▸ cached.ended restored, ?_⟩
      rw [(ledger_bd holds (by rw [same]; rfl) suspended whenTrue whenFalse _).1
        (by rw [same]; rfl)]
      apply invariant.faithful.repeat describes
      have nonzero : held.words.key evaluation.outcome ≠ 0 := by
        intro zero
        rw [zero] at some_
        exact some_ rfl
      change held.words.key evaluation.outcome ∈
        listAt run.state.decisions DecisionState.seen evaluation.decision
      rw [listAt_of_known holds]
      exact cached _ recent nonzero
    · obtain ⟨recentFirst, recentSecond, seen⟩ := record_of_narrow some_
        (show (held.ended restored).width ≤ packedMaxWidth from narrow)
      rw [← same] at recentFirst recentSecond seen
      constructor
      · intro key recent nonzero
        rw [recentFirst, recentSecond] at recent
        rw [seen]
        rcases recent with new | old
        · exact Or.inr new
        · exact Or.inl (cached key (Or.inl old) nonzero)
      · rw [(ledger_bd holds (by rw [same, record_runWide]; rfl) suspended whenTrue whenFalse _).2
          _ seen]
        exact invariant.faithful.record describes

theorem Invariant.settles {run : GoRun} (invariant : Invariant program run) :
    Invariant program (settle program (probes arms) run) := by
  rcases settle_cases program (probes arms) run with
    same | ⟨innermost, outer, shape, outcome, unused, stacked, known, finished, settled⟩
  · rw [same]
    exact invariant
  have paths := invariant.paths
  have inPlace := invariant.inPlace
  rw [stacked] at paths inPlace
  have path : shape.Path innermost.seen := by
    obtain ⟨shape', known', path⟩ := paths innermost List.mem_cons_self
    rw [known] at known'
    cases known'
    exact path
  have begun : innermost.seen ≠ [] := by
    intro empty
    rw [empty, Shape.next_nil] at finished
    cases finished
  obtain ⟨held, holds, _⟩ := invariant.decision known
  obtain ⟨own, rest⟩ := (inPlace_cons_of_begun begun).mp inPlace
  have words : held.words = wordsOf innermost.seen := by
    simpa [wordsAt, holds] using own
  obtain ⟨kept, closes, ended⟩ := bd_eq holds (arms innermost.decision).1
    (arms innermost.decision).2 outcome
  obtain ⟨cached, faithful⟩ := invariant.close
    ⟨innermost.decision, innermost.seen, outcome⟩ known path begun holds words
    closes (run.state.suspended.takeBack innermost.decision).2 (arms innermost.decision).1
    (arms innermost.decision).2
  have state : (probes arms).outcome innermost.decision outcome run.state = _ := ended
  rw [settled, state]
  refine ⟨fun activation member => paths activation (List.mem_cons_of_mem _ member), ?_, ?_, ?_,
    ⟨invariant.attributed.apart, invariant.attributed.valid⟩, faithful⟩
  · have after := wordsAt_modify holds fun _ => kept
    change InPlace (wordsAt { run.state with
      decisions := run.state.decisions.modify innermost.decision fun _ => kept }) _ _
    rw [after]
    apply rest.mono
    intro decision found taken
    by_cases here : decision = innermost.decision
    · subst here
      rw [Function.update_self] at taken ⊢
      rcases closes with ⟨same, _⟩ | same
      · rw [same, DecisionState.ended, DecisionState.restore, taken]
        rfl
      · rw [same, record_words, DecisionState.ended, DecisionState.restore, taken]
        rfl
    · rw [Function.update_of_ne here] at taken ⊢
      exact taken
  · rw [← invariant.widths]
    apply widths_modify
    intro held' found
    rw [holds] at found
    cases found
    rcases closes with ⟨same, _⟩ | same
    · rw [same]
      rfl
    · rw [same, record_width]
      rfl
  · exact cached_modify invariant.cached fun _ _ => cached

theorem Invariant.of_swept {run : GoRun} (invariant : Invariant program run) {state : State}
    (decisions : state.decisions = (harvest run.state).decisions)
    (suspended : state.suspended = run.state.suspended) (attributed : Attributed state)
    (faithful : Ledger.Faithful (Measured program) run.completed (ledger state)) :
    Invariant program { run with state := state } where
  paths := invariant.paths
  inPlace := by
    have words : wordsAt state = wordsAt run.state := by
      funext decision
      simp only [wordsAt, decisions, harvest, List.getElem?_map, Option.map_map]
      rfl
    rw [words, suspended]
    exact invariant.inPlace
  widths := by
    rw [← invariant.widths, decisions, harvest, List.map_map]
    rfl
  cached := by
    intro decision member
    rw [decisions] at member
    obtain ⟨before, _, changed⟩ := List.mem_map.mp member
    rw [← changed]
    intro key recent nonzero
    simp only [DecisionState.harvest, or_self] at recent
    exact absurd recent nonzero
  attributed := attributed
  faithful := faithful

theorem Invariant.call {run : GoRun} (invariant : Invariant program run) {asked : Request}
    (allowed : Undisturbed (.call asked) run) :
    Invariant program { run with state := request asked run.state } := by
  have attributed := invariant.attributed
  have swept := invariant.faithful.sweep
  cases asked with
  | point id =>
    exact ⟨invariant.paths, invariant.inPlace, invariant.widths, invariant.cached,
      ⟨attributed.apart, attributed.valid⟩, invariant.faithful⟩
  | enterTest name =>
    have faithful := invariant.faithful.assign (some (harvest run.state).records.length)
    rw [← ledger_enterTest attributed allowed name] at faithful
    have entered := enterTest_eq attributed allowed name
    apply invariant.of_swept _ _ _ faithful
    · rw [entered]
    · rw [entered]
      rfl
    · rw [entered]
      exact ⟨attributed.apart, by simp⟩
  | leaveTest unbinds =>
    have faithful := invariant.faithful.assign (if unbinds then none else run.state.current)
    rw [← ledger_leaveTest attributed unbinds] at faithful
    refine invariant.of_swept rfl rfl ⟨attributed.apart, ?_⟩ faithful
    cases unbinds with
    | true => exact fun _ running => nomatch running
    | false => exact attributed.harvest.valid
  | ran name status =>
    rw [← ledger_ran attributed name status] at swept
    refine invariant.of_swept rfl rfl ⟨attributed.apart, ?_⟩ swept
    intro index running
    have inside := attributed.harvest.valid index running
    simp only [request, ran, List.length_append]
    exact Nat.lt_add_right _ inside
  | outcome status =>
    have kept := attributed.outcome status
    have same := ledger_outcome status run.state
    have decisions : (outcome status run.state).decisions = run.state.decisions := by
      unfold Go.outcome
      split <;> rfl
    have suspended : (outcome status run.state).suspended = run.state.suspended := by
      unfold Go.outcome
      split <;> rfl
    refine ⟨invariant.paths, ?_, ?_, ?_, kept, ?_⟩
    · change InPlace (wordsAt (outcome status run.state)) (outcome status run.state).suspended _
      unfold wordsAt
      rw [decisions, suspended]
      exact invariant.inPlace
    · exact decisions ▸ invariant.widths
    · exact decisions ▸ invariant.cached
    · exact same ▸ invariant.faithful
  | checkpoint =>
    rw [← ledger_harvest attributed] at swept
    exact invariant.of_swept rfl rfl attributed.harvest swept
  | write =>
    rw [← ledger_harvest attributed] at swept
    exact invariant.of_swept rfl rfl attributed.harvest swept

theorem Reaches.invariant {hits : Nat} {run : GoRun}
    (reached : Reaches program (probes arms) Undisturbed (arm hits (program.map Shape.size)) run) :
    Invariant program run := by
  apply ShortCircuit.Reaches.invariant (Invariant.start program hits) _ _ _ _ _ reached
  · intro run decision invariant known
    refine ⟨invariant.paths.enter known, ?_, invariant.widths, invariant.cached,
      invariant.attributed, invariant.faithful⟩
    exact (inPlace_cons_of_fresh rfl).mpr invariant.inPlace
  · intro run run' value invariant allowed observed
    exact invariant.operand allowed observed
  · intro run invariant
    exact invariant.settles
  · intro run abandoned invariant allowed
    exact ⟨invariant.paths.drop abandoned, allowed, invariant.widths, invariant.cached,
      invariant.attributed, invariant.faithful⟩
  · intro run asked invariant allowed
    exact invariant.call allowed

/-- In every undisturbed run, each key the runtime keeps is the vector of an
evaluation that completed, under the test it is kept for, and each completed
evaluation's key is in its test's record and the run-wide table once they are
swept. -/
theorem vectors_faithful {hits : Nat} {run : GoRun}
    (reached : Reaches program (probes arms) Undisturbed (arm hits (program.map Shape.size)) run) :
    Ledger.Faithful (Measured program) run.completed (ledger run.state) ∧
      ∀ label evaluation, (label, evaluation) ∈ run.completed →
        Measured program evaluation.decision →
          (ledger (harvest run.state)).Holds label evaluation := by
  have invariant := Reaches.invariant reached
  refine ⟨invariant.faithful, ?_⟩
  intro label evaluation member measured
  rw [ledger_harvest invariant.attributed]
  exact invariant.faithful.sweep_holds member measured

/-- `(a || b) && c`: while `c` is evaluated, the decision is evaluated again to its
end, and then another decision, which panics; `c` recovers. -/
def recursiveMoves : List (Move Request) :=
  [.call (.enterTest "t"), .enter 0, .operand true, .enter 0, .operand false, .operand true,
    .operand false, .enter 1, .operand true, .panic 1, .operand true, .call (.leaveTest true)]

def recursiveProgram : List Shape :=
  [.and (.or .condition .condition) .condition, .and .condition .condition]

def recursiveRun : Option GoRun :=
  runAllowed recursiveProgram (probes fun _ => (0, 1)) Undisturbed recursiveMoves
    (.start (arm 2 (recursiveProgram.map Shape.size)))

theorem vectors_faithful_recursive :
    ∃ run, recursiveRun = some run ∧ run.completed.length = 2 ∧
      Ledger.Faithful (Measured recursiveProgram) run.completed (ledger run.state) := by
  have made : (recursiveRun.map fun run => run.completed.length) = some 2 := by decide
  obtain ⟨run, ran, two⟩ := Option.map_eq_some_iff.mp made
  exact ⟨run, ran, two, (vectors_faithful (Reaches.start.runAllowed ran)).1⟩

end Runs

section Panic

/-- `(a || b) && c`: while `c` of an evaluation with `a` true is evaluated, the
decision is evaluated again, with `a` false, and that evaluation is abandoned. -/
def abandonedMoves : List (Move Request) :=
  [.enter 0, .operand true, .enter 0, .operand false, .panic 1, .operand true]

/-- The key that the outer evaluation leaves: `a` false, `c` true. -/
def abandonedKey : Word := Words.key { evaluating := bit 0 ||| bit 2, truth := bit 2 } true

/-- The runtime keeps a key that no evaluation has: the one that completed had `a`
true. -/
theorem panic_invents_vector :
    ∃ run, runMoves [.and (.or .condition .condition) .condition] (probes fun _ => (0, 1))
        abandonedMoves (.start (arm 2 [3])) = some run ∧
      abandonedKey ∈ listAt run.state.decisions DecisionState.seen 0 ∧
      ∀ label, ¬ Ledger.Happened run.completed label 0 abandonedKey := by
  refine ⟨_, rfl, by decide, ?_⟩
  intro label ⟨evaluation, member, _, describes⟩
  have absent : abandonedKey.getLsbD (packedValueShift + 0) = false := by decide
  have firstTrue : (0, true) ∈ evaluation.seen := by
    cases List.mem_singleton.mp member
    simp
  rw [(describes.truth 0 (by decide)).mpr firstTrue] at absent
  cases absent

end Panic

end Supercov.Runtime.Go
