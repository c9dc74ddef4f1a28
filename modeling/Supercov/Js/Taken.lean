import Supercov.Js.Defaults
import Supercov.Library.Runs
import Mathlib.Data.List.Sort
import Mathlib.Data.UInt
import Mathlib.Logic.Function.Basic

/-!
# Defaults that are taken

A default counts itself in its slot once its value is there, and the entry of a function's body, or
what follows a declaration, takes the count out again.  Calls and declarations of one owner share
the slots: what one of them has counted and not taken out is taken out by another.
-/

namespace Supercov.Js.Defaults

section Runtime

inductive PointId where
  | other (id : String)
  | defaultEvaluated (span : Span)
  | valueProvided (span : Span)
  deriving DecidableEq

structure DefaultSlot where
  slot : Nat
  defaultPoint : Nat
  providedPoint : Nat

def spanLe (one other : Span) : Prop := one.1 < other.1 ∨ one.1 = other.1 ∧ one.2 ≤ other.2

instance : DecidableRel spanLe := fun one other => by unfold spanLe; infer_instance

namespace Program

variable (program : Program)

def defaultSites : List Span :=
  (program.parameterTargets ++ program.bindingTargets).insertionSort spanLe

def pointIds : List PointId :=
  program.points.map .other ++
    program.defaultSites.flatMap fun span => [.defaultEvaluated span, .valueProvided span]

def defaultSlot (span : Span) : DefaultSlot where
  slot := program.defaultSites.idxOf span
  defaultPoint := program.points.length + 2 * program.defaultSites.idxOf span
  providedPoint := program.points.length + 2 * program.defaultSites.idxOf span + 1

end Program

/-- The counts of a file's slots, and what was recorded in which context. -/
structure ProbeState where
  pendingDefaults : Nat → UInt32
  hits : List (String × PointId)

def ProbeState.initial : ProbeState := ⟨fun _ => 0, []⟩

variable (program : Program)

def coverageHitV2 (context : String) (index : Nat) (state : ProbeState) : ProbeState :=
  match program.pointIds[index]? with
  | some id => { state with hits := state.hits ++ [(context, id)] }
  | none => state

def defaultSelectedV2 (slot : Nat) (state : ProbeState) : ProbeState :=
  { state with
    pendingDefaults := Function.update state.pendingDefaults slot (state.pendingDefaults slot + 1) }

def defaultEnteredV2 (context : String) (site : DefaultSlot) (state : ProbeState) : ProbeState :=
  if 0 < state.pendingDefaults site.slot then
    coverageHitV2 program context site.defaultPoint
      { state with
        pendingDefaults :=
          Function.update state.pendingDefaults site.slot (state.pendingDefaults site.slot - 1) }
  else coverageHitV2 program context site.providedPoint state

end Runtime

section Runs

/-- One call of a function, or one time a declaration is executed. -/
structure Activation where
  owner : Owner
  number : Nat
  deriving DecidableEq

/-- What a program does about its defaults: a default's value is there, or all that an activation
binds is bound and the body starts, or what follows the declaration. An activation that is abandoned
does nothing more. -/
inductive Event where
  | evaluates (activation : Activation) (span : Span)
  | completes (activation : Activation) (context : String)
  deriving DecidableEq

def completed (before : List Event) (activation : Activation) : Bool :=
  before.any fun
    | .completes other _ => other = activation
    | .evaluates .. => false

/-- An activation evaluates each default of its own at most once, and completes at most once. -/
def Event.Possible (program : Program) (before : List Event) : Event → Prop
  | .evaluates activation span =>
    ⟨span, activation.owner⟩ ∈ program.targets ∧ .evaluates activation span ∉ before ∧
      completed before activation = false
  | .completes activation _ => completed before activation = false

def record (before : List Event) (event : Event) : List Event := before ++ [event]

/-- Activations in any order, one within another or one in the middle of another. -/
structure Program.Run (program : Program) where
  events : List Event
  possible : Runs.Along record (Event.Possible program) [] events

variable (program : Program)

def step (state : ProbeState) : Event → ProbeState
  | .evaluates _ span =>
    if span ∈ program.selected then defaultSelectedV2 (program.defaultSlot span).slot state else state
  | .completes activation context =>
    (program.entered activation.owner).foldl
      (fun state span => defaultEnteredV2 program context (program.defaultSlot span) state) state

def stateAfter (events : List Event) : ProbeState := Runs.run (step program) .initial events

def recorded (before : List Event) (event : Event) : List (String × PointId) :=
  (stateAfter program (before ++ [event])).hits.drop (stateAfter program before).hits.length

/-- A binding that completes is told as it was, in the context in which it completes. -/
def Event.Credited (before : List Event) : Event → Prop
  | .evaluates .. => True
  | .completes activation context =>
    ∀ span, ⟨span, activation.owner⟩ ∈ program.targets →
      ((context, .defaultEvaluated span) ∈ recorded program before (.completes activation context) ↔
        .evaluates activation span ∈ before) ∧
      ((context, .valueProvided span) ∈ recorded program before (.completes activation context) ↔
        .evaluates activation span ∉ before)

def Credited (run : program.Run) : Prop :=
  Runs.Along record (Event.Credited program) [] run.events

def awaits (before : List Event) (span : Span) : Event → Bool
  | .evaluates activation other => other = span && !completed before activation
  | .completes .. => false

/-- The activations that evaluated a default and have not completed. -/
def unfinished (before : List Event) (span : Span) : Nat := before.countP (awaits before span)

/-- A binding that is given a value completes where no activation that evaluated the default is
unfinished, up to what a slot counts. -/
def Event.Settled (before : List Event) : Event → Prop
  | .evaluates .. => True
  | .completes activation _ =>
    ∀ span, ⟨span, activation.owner⟩ ∈ program.targets →
      (.evaluates activation span ∈ before ↔ ¬ 2 ^ 32 ∣ unfinished before span)

def Settled (run : program.Run) : Prop :=
  Runs.Along record (Event.Settled program) [] run.events

end Runs

section Slots

variable {program : Program} {span other : Span}

theorem mem_defaultSites : span ∈ program.defaultSites ↔
    span ∈ program.parameterTargets ∨ span ∈ program.bindingTargets := by
  rw [Program.defaultSites, (List.perm_insertionSort _ _).mem_iff, List.mem_append]

theorem mem_defaultSites_of_target {owner : Owner} (member : ⟨span, owner⟩ ∈ program.targets) :
    span ∈ program.defaultSites := by
  rw [mem_defaultSites]
  cases function : owner.isFunction with
  | true => exact Or.inl (List.mem_map.mpr ⟨_, List.mem_filter.mpr ⟨member, function⟩, rfl⟩)
  | false =>
    exact Or.inr
      (List.mem_map.mpr ⟨_, List.mem_filter.mpr ⟨member, congrArg (!·) function⟩, rfl⟩)

theorem slot_inj (first : span ∈ program.defaultSites) :
    (program.defaultSlot span).slot = (program.defaultSlot other).slot ↔ span = other :=
  List.idxOf_inj first

theorem getElem_flatMap_pair {Value Id : Type} (one two : Value → Id) (list : List Value)
    (index : Nat) :
    (list.flatMap fun value => [one value, two value])[2 * index]? = list[index]?.map one ∧
      (list.flatMap fun value => [one value, two value])[2 * index + 1]? = list[index]?.map two := by
  induction list generalizing index with
  | nil => exact ⟨rfl, rfl⟩
  | cons value list ih =>
    cases index with
    | zero => exact ⟨rfl, rfl⟩
    | succ index => exact ih index

theorem pointIds_points (member : span ∈ program.defaultSites) :
    program.pointIds[(program.defaultSlot span).defaultPoint]? = some (.defaultEvaluated span) ∧
      program.pointIds[(program.defaultSlot span).providedPoint]? = some (.valueProvided span) := by
  have found : program.defaultSites[program.defaultSites.idxOf span]? = some span :=
    List.getElem?_idxOf member
  have pair := getElem_flatMap_pair PointId.defaultEvaluated PointId.valueProvided
    program.defaultSites (program.defaultSites.idxOf span)
  rw [found] at pair
  constructor
  · rw [Program.pointIds, List.getElem?_append_right (by simp [Program.defaultSlot])]
    simpa [Program.defaultSlot] using pair.1
  · rw [Program.pointIds, List.getElem?_append_right (by simp [Program.defaultSlot]; omega)]
    simpa [Program.defaultSlot, Nat.add_assoc] using pair.2

end Slots

section Entries

variable {program : Program} {span : Span} {context : String}

def outcome (state : ProbeState) (program : Program) (span : Span) : PointId :=
  if 0 < state.pendingDefaults (program.defaultSlot span).slot then .defaultEvaluated span
  else .valueProvided span

def spent (count : UInt32) : UInt32 := if 0 < count then count - 1 else count

theorem pending_defaultSelectedV2 (state : ProbeState) (selected slot : Nat) :
    (defaultSelectedV2 selected state).pendingDefaults slot =
      if slot = selected then state.pendingDefaults slot + 1 else state.pendingDefaults slot := by
  unfold defaultSelectedV2
  by_cases same : slot = selected
  · subst same
    simp
  · simp [same]

theorem hits_defaultEnteredV2 (state : ProbeState) (known : span ∈ program.defaultSites) :
    (defaultEnteredV2 program context (program.defaultSlot span) state).hits =
      state.hits ++ [(context, outcome state program span)] := by
  obtain ⟨evaluated, provided⟩ := pointIds_points known
  unfold defaultEnteredV2 outcome coverageHitV2
  split
  · rw [evaluated]
  · rw [provided]

theorem pending_defaultEnteredV2 (state : ProbeState) (site : DefaultSlot) (slot : Nat) :
    (defaultEnteredV2 program context site state).pendingDefaults slot =
      if slot = site.slot then spent (state.pendingDefaults slot)
      else state.pendingDefaults slot := by
  have hit (index : Nat) (state : ProbeState) :
      (coverageHitV2 program context index state).pendingDefaults = state.pendingDefaults := by
    unfold coverageHitV2
    split <;> rfl
  unfold defaultEnteredV2 spent
  by_cases same : slot = site.slot
  · subst same
    split <;> simp [hit]
  · split <;> simp [hit, same]

theorem entries_spec (spans : List Span) (distinct : spans.Nodup)
    (known : ∀ span ∈ spans, span ∈ program.defaultSites) (state : ProbeState) :
    let after := spans.foldl
      (fun state span => defaultEnteredV2 program context (program.defaultSlot span) state) state
    after.hits = state.hits ++ spans.map (fun span => (context, outcome state program span)) ∧
      ∀ span ∈ program.defaultSites,
        after.pendingDefaults (program.defaultSlot span).slot =
          if span ∈ spans then spent (state.pendingDefaults (program.defaultSlot span).slot)
          else state.pendingDefaults (program.defaultSlot span).slot := by
  induction spans generalizing state with
  | nil => simp
  | cons first spans ih =>
    obtain ⟨fresh, distinct⟩ := List.nodup_cons.mp distinct
    obtain ⟨knownFirst, known⟩ := List.forall_mem_cons.mp known
    obtain ⟨hits, pending⟩ := ih distinct known
      (defaultEnteredV2 program context (program.defaultSlot first) state)
    have kept (span : Span) (member : span ∈ program.defaultSites) (apart : span ≠ first) :
        (defaultEnteredV2 program context (program.defaultSlot first) state).pendingDefaults
          (program.defaultSlot span).slot =
            state.pendingDefaults (program.defaultSlot span).slot := by
      rw [pending_defaultEnteredV2, if_neg fun same => apart ((slot_inj member).mp same)]
    refine ⟨?_, fun span member => ?_⟩
    · rw [List.foldl_cons, hits, hits_defaultEnteredV2 state knownFirst, List.append_assoc,
        List.map_cons, List.singleton_append]
      congr 2
      refine List.map_congr_left fun span member => ?_
      have apart : span ≠ first := fun same => fresh (same ▸ member)
      rw [outcome, kept span (known span member) apart]
      rfl
    · rw [List.foldl_cons, pending span member]
      by_cases same : span = first
      · subst same
        rw [if_neg fresh, if_pos List.mem_cons_self, pending_defaultEnteredV2, if_pos rfl]
      · rw [kept span member same]
        simp [same]

end Entries

section Unfinished

variable {before : List Event} {activation : Activation} {span other : Span} {context : String}

theorem completed_evaluates (one : Activation) :
    completed (before ++ [.evaluates activation span]) one = completed before one := by
  simp [completed]

theorem completed_completes (one : Activation) :
    completed (before ++ [.completes activation context]) one =
      (completed before one || activation = one) := by
  simp [completed]

theorem unfinished_evaluates (going : completed before activation = false) :
    unfinished (before ++ [.evaluates activation other]) span =
      unfinished before span + if other = span then 1 else 0 := by
  have same : awaits (before ++ [.evaluates activation other]) span = awaits before span := by
    funext event
    cases event with
    | evaluates one _ => rw [awaits, awaits, completed_evaluates]
    | completes => rfl
  rw [unfinished, same, List.countP_append, List.countP_singleton, unfinished]
  simp [awaits, going]

theorem unfinished_completes (going : completed before activation = false) :
    unfinished (before ++ [.completes activation context]) span +
      before.count (.evaluates activation span) = unfinished before span := by
  have ended (event : Event) : awaits (before ++ [.completes activation context]) span event =
      (awaits before span event && event != .evaluates activation span) := by
    cases event with
    | evaluates one of =>
      rw [awaits, awaits, completed_completes, bne, beq_eq_decide]
      by_cases same : of = span
      · by_cases own : one = activation
        · simp [same, own]
        · simp [same, own, Ne.symm own]
      · simp [same]
    | completes => rfl
  have own (event : Event) : (awaits before span event && event == .evaluates activation span) =
      (event == .evaluates activation span) := by
    by_cases same : event = .evaluates activation span
    · subst same
      simp [awaits, going]
    · simp [same]
  have split := List.countP_eq_countP_filter_add before (awaits before span)
    (· == .evaluates activation span)
  simp only [List.countP_filter, own] at split
  rw [unfinished, List.countP_append, List.countP_singleton, List.countP_congr fun event _ => by
    rw [ended event], unfinished, split]
  simp [awaits, List.count, bne, Nat.add_comm]

end Unfinished

section Counts

theorem ofNat_succ (count : Nat) : UInt32.ofNat (count + 1) = UInt32.ofNat count + 1 :=
  UInt32.ofNat_add count 1

theorem pos_ofNat_iff {count : Nat} : 0 < UInt32.ofNat count ↔ ¬ 2 ^ 32 ∣ count := by
  rw [UInt32.lt_iff_toNat_lt, UInt32.toNat_ofNat', Nat.dvd_iff_mod_eq_zero]
  exact Nat.pos_iff_ne_zero

theorem spent_ofNat_succ {count : Nat} (counts : ¬ 2 ^ 32 ∣ count + 1) :
    spent (UInt32.ofNat (count + 1)) = UInt32.ofNat count := by
  rw [spent, if_pos (pos_ofNat_iff.mpr counts), ofNat_succ, UInt32.add_sub_cancel]

theorem spent_ofNat {count : Nat} (empty : 2 ^ 32 ∣ count) :
    spent (UInt32.ofNat count) = UInt32.ofNat count :=
  if_neg fun counts => pos_ofNat_iff.mp counts empty

end Counts

section Accounts

variable {program : Program} {before : List Event} {activation : Activation} {span : Span}
  {context : String}

/-- The slots hold how many activations are unfinished, and each of those evaluated a default of
its own once. -/
structure Accounts (program : Program) (before : List Event) : Prop where
  pending : ∀ span ∈ program.defaultSites,
    (stateAfter program before).pendingDefaults (program.defaultSlot span).slot =
      UInt32.ofNat (unfinished before span)
  once : ∀ activation span, before.count (.evaluates activation span) ≤ 1
  owned : ∀ activation span, .evaluates activation span ∈ before →
    ⟨span, activation.owner⟩ ∈ program.targets

theorem stateAfter_concat (event : Event) :
    stateAfter program (before ++ [event]) = step program (stateAfter program before) event :=
  Runs.run_append _ _ _ _

theorem Accounts.initial : Accounts program [] where
  pending := fun _ _ => rfl
  once := fun _ _ => Nat.zero_le 1
  owned := nofun

theorem Accounts.evaluates (probed : program.Probed) (accounts : Accounts program before)
    (possible : Event.Possible program before (.evaluates activation span)) :
    Accounts program (before ++ [.evaluates activation span]) := by
  obtain ⟨target, fresh, going⟩ := possible
  refine ⟨fun other member => ?_, fun one other => ?_, fun one other evaluated => ?_⟩
  · have selected := (probed _ target).1
    rw [stateAfter_concat, step, if_pos selected, unfinished_evaluates going,
      pending_defaultSelectedV2, accounts.pending other member]
    by_cases same : other = span
    · subst same
      rw [if_pos rfl, if_pos rfl, ofNat_succ]
    · rw [if_neg fun slots => same ((slot_inj member).mp slots), if_neg (Ne.symm same),
        Nat.add_zero]
  · rw [List.count_append, List.count_singleton]
    by_cases same : Event.evaluates activation span = .evaluates one other
    · rw [← same, List.count_eq_zero_of_not_mem fresh, if_pos (beq_self_eq_true _)]
    · rw [if_neg (by simpa using same)]
      exact accounts.once one other
  · cases List.mem_append.mp evaluated with
    | inl earlier => exact accounts.owned one other earlier
    | inr now =>
      cases List.mem_singleton.mp now
      exact target

theorem known_of_entered (probed : program.Probed) (owner : Owner) :
    ∀ span ∈ program.entered owner, span ∈ program.defaultSites := fun _ entry =>
  mem_defaultSites_of_target ((Program.mem_entered_iff_of_probed probed).mp entry)

theorem step_completes (probed : program.Probed) (state : ProbeState) :
    (step program state (.completes activation context)).hits =
        state.hits ++ (program.entered activation.owner).map
          (fun span => (context, outcome state program span)) ∧
      ∀ span ∈ program.defaultSites,
        (step program state (.completes activation context)).pendingDefaults
            (program.defaultSlot span).slot =
          if span ∈ program.entered activation.owner then
            spent (state.pendingDefaults (program.defaultSlot span).slot)
          else state.pendingDefaults (program.defaultSlot span).slot :=
  entries_spec _ (Program.nodup_entered _) (known_of_entered probed _) state

theorem recorded_completes (probed : program.Probed) :
    recorded program before (.completes activation context) =
      (program.entered activation.owner).map fun span =>
        (context, outcome (stateAfter program before) program span) := by
  rw [recorded, stateAfter_concat, (step_completes probed _).1, List.drop_left]

theorem outcome_of_accounts (accounts : Accounts program before)
    (member : span ∈ program.defaultSites) :
    outcome (stateAfter program before) program span =
      if 2 ^ 32 ∣ unfinished before span then .valueProvided span else .defaultEvaluated span := by
  rw [outcome, accounts.pending span member]
  by_cases empty : 2 ^ 32 ∣ unfinished before span
  · rw [if_pos empty, if_neg fun counts => pos_ofNat_iff.mp counts empty]
  · rw [if_neg empty, if_pos (pos_ofNat_iff.mpr empty)]

theorem mem_recorded_iff (probed : program.Probed) (accounts : Accounts program before)
    (target : ⟨span, activation.owner⟩ ∈ program.targets) :
    ((context, .defaultEvaluated span) ∈ recorded program before (.completes activation context) ↔
      ¬ 2 ^ 32 ∣ unfinished before span) ∧
    ((context, .valueProvided span) ∈ recorded program before (.completes activation context) ↔
      2 ^ 32 ∣ unfinished before span) := by
  have entry := (Program.mem_entered_iff_of_probed probed).mpr target
  have told (other : Span) (member : other ∈ program.entered activation.owner) :=
    outcome_of_accounts accounts (known_of_entered probed _ other member)
  rw [recorded_completes probed]
  simp only [List.mem_map, Prod.mk.injEq, true_and]
  constructor
  · constructor
    · rintro ⟨other, member, same⟩ empty
      rw [told other member] at same
      split at same
      · cases same
      · cases same
        contradiction
    · intro counts
      exact ⟨span, entry, by rw [told span entry, if_neg counts]⟩
  · constructor
    · rintro ⟨other, member, same⟩
      rw [told other member] at same
      split at same
      · cases same
        assumption
      · cases same
    · intro empty
      exact ⟨span, entry, by rw [told span entry, if_pos empty]⟩

theorem credited_at_iff (probed : program.Probed) (accounts : Accounts program before) :
    Event.Credited program before (.completes activation context) ↔
      Event.Settled program before (.completes activation context) := by
  refine forall_congr' fun span => forall_congr' fun target => ?_
  obtain ⟨evaluated, provided⟩ := mem_recorded_iff probed accounts target
  rw [evaluated, provided]
  tauto

theorem Accounts.completes (probed : program.Probed) (accounts : Accounts program before)
    (possible : Event.Possible program before (.completes activation context))
    (settled : Event.Settled program before (.completes activation context)) :
    Accounts program (before ++ [.completes activation context]) := by
  refine ⟨fun span member => ?_, fun one other => ?_, fun one other evaluated => ?_⟩
  · have counted : unfinished (before ++ [.completes activation context]) span +
        before.count (.evaluates activation span) = unfinished before span :=
      unfinished_completes possible
    rw [stateAfter_concat, (step_completes probed _).2 span member, accounts.pending span member,
      ← counted]
    by_cases evaluated : Event.evaluates activation span ∈ before
    · have target := accounts.owned activation span evaluated
      have one : before.count (.evaluates activation span) = 1 :=
        Nat.le_antisymm (accounts.once activation span) (List.count_pos_iff.mpr evaluated)
      have counts := (settled span target).mp evaluated
      rw [← counted, one] at counts
      rw [if_pos ((Program.mem_entered_iff_of_probed probed).mpr target), one,
        spent_ofNat_succ counts]
    · have none : before.count (.evaluates activation span) = 0 :=
        List.count_eq_zero_of_not_mem evaluated
      rw [none, Nat.add_zero] at counted ⊢
      split
      · next entry =>
        have target := (Program.mem_entered_iff_of_probed probed).mp entry
        have empty : 2 ^ 32 ∣ unfinished before span :=
          not_not.mp fun counts => evaluated ((settled span target).mpr counts)
        rw [← counted] at empty
        exact spent_ofNat empty
      · rfl
  · rw [List.count_append, List.count_singleton]
    simpa using accounts.once one other
  · cases List.mem_append.mp evaluated with
    | inl earlier => exact accounts.owned one other earlier
    | inr now => cases List.mem_singleton.mp now

theorem credited_along_iff (probed : program.Probed) (events : List Event)
    (accounts : Accounts program before)
    (possible : Runs.Along record (Event.Possible program) before events) :
    Runs.Along record (Event.Credited program) before events ↔
      Runs.Along record (Event.Settled program) before events := by
  induction events generalizing before with
  | nil => exact Iff.rfl
  | cons event events ih =>
    obtain ⟨now, later⟩ := possible
    cases event with
    | evaluates activation span =>
      exact and_congr Iff.rfl (ih (accounts.evaluates probed now) later)
    | completes activation context =>
      have here : Event.Credited program before (.completes activation context) ↔
          Event.Settled program before (.completes activation context) :=
        credited_at_iff probed accounts
      constructor
      · rintro ⟨credited, rest⟩
        have settled := here.mp credited
        exact ⟨settled, (ih (accounts.completes probed now settled) later).mp rest⟩
      · rintro ⟨settled, rest⟩
        exact ⟨here.mpr settled, (ih (accounts.completes probed now settled) later).mpr rest⟩

end Accounts

/-- Every default is credited as it was taken where each is reached by the transformer and no
binding completes while another activation's default is still counted. -/
theorem credited_iff_settled (program : Program) (run : program.Run) :
    program.Probed ∧ Credited program run ↔ program.reached = true ∧ Settled program run := by
  rw [← Program.probed_iff_reached]
  exact and_congr_right fun probed =>
    credited_along_iff probed run.events .initial run.possible

/-- `function pick(a = 1, b = fail()) {}`. -/
def pick : Program where
  points := []
  body := [.function (0, 35)
    [.initialized (14, 19) .identifier (.other []), .initialized (21, 31) .identifier (.other [])] []]
  distinct := by decide

/-- `pick()` throws in its second default, and `pick(5, 6)` is called after it. -/
def abandoned : pick.Run where
  events := [.evaluates ⟨.function (0, 35), 0⟩ (14, 19), .completes ⟨.function (0, 35), 1⟩ "test"]
  possible := ⟨⟨by decide, by decide, rfl⟩, rfl, trivial⟩

theorem not_credited_abandoned : ¬ (pick.Probed ∧ Credited pick abandoned) := by
  rintro ⟨-, -, credited, -⟩
  have told := (credited (14, 19) (by decide)).1
  revert told
  decide

end Supercov.Js.Defaults
