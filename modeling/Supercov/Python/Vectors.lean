import Mathlib.Algebra.BigOperators.Group.List.Basic
import Mathlib.Algebra.Order.Group.Nat
import Mathlib.Tactic.Positivity
import Mathlib.Tactic.Ring
import Supercov.Library.Runs
import Supercov.Python.Decisions

/-!
# The Python runtime's vectors

Where every evaluation goes on and ends as the innermost one of its decision in its slot, a
decision's state holds what the evaluations open there have seen, and the vectors recorded are
those of the completed evaluations.
-/

namespace Supercov.Python

open Suspended Runs

/-- A condition's digit. -/
def digitOf : Option Bool → Nat
  | none => 0
  | some false => 1
  | some true => 2

def maskOf (seen : Seen) : Nat := (seen.map fun condition => digitOf (some condition.2) * 3 ^ condition.1).sum

structure Ordered (width : Nat) (seen : Seen) : Prop where
  begun : seen ≠ []
  increasing : seen.Pairwise (·.1 < ·.1)
  within : ∀ condition ∈ seen, condition.1 < width

section Masks

theorem digitOf_lt (value : Option Bool) : digitOf value < 3 := by
  match value with
  | none => decide
  | some false => decide
  | some true => decide

theorem digits_eq (width : Nat) :
    ∀ mask, digits mask width = (List.range width).map fun position => mask / 3 ^ position % 3 := by
  induction width with
  | zero => exact fun _ => rfl
  | succ width inductionHypothesis =>
    intro mask
    simp [digits, inductionHypothesis, List.range_succ_eq_map, Nat.div_div_eq_div_mul, pow_succ']

theorem pow_dvd_maskOf {first : Nat} : ∀ {seen : Seen}, (∀ condition ∈ seen, first ≤ condition.1) →
    3 ^ first ∣ maskOf seen
  | [], _ => by simp [maskOf]
  | condition :: rest, from_ => by
    have head : 3 ^ first ∣ digitOf (some condition.2) * 3 ^ condition.1 :=
      Dvd.dvd.mul_left (pow_dvd_pow 3 (from_ _ List.mem_cons_self)) _
    simpa [maskOf] using
      Nat.dvd_add head (pow_dvd_maskOf fun other listed => from_ other (List.mem_cons_of_mem _ listed))

theorem upper_div {digit : Nat} (small : digit < 3) (others first : Nat) :
    3 ^ first * (digit + 3 * others) / 3 ^ (first + 1) = others := by
  rw [pow_succ, Nat.mul_div_mul_left _ _ (by positivity), Nat.add_mul_div_left _ _ (by decide),
    Nat.div_eq_of_lt small, Nat.zero_add]

theorem maskOf_digit (position : Nat) : ∀ {seen : Seen}, seen.Pairwise (·.1 < ·.1) →
    maskOf seen / 3 ^ position % 3 = digitOf (seen.lookup position)
  | [], _ => by simp [maskOf, digitOf]
  | (first, truth) :: rest, increasing => by
    obtain ⟨later, increasing⟩ := List.pairwise_cons.mp increasing
    obtain ⟨others, others_eq⟩ : 3 ^ (first + 1) ∣ maskOf rest := pow_dvd_maskOf later
    have head_lt := digitOf_lt (some truth)
    have whole : maskOf ((first, truth) :: rest) =
        3 ^ first * (digitOf (some truth) + 3 * others) := by
      calc maskOf ((first, truth) :: rest)
          = digitOf (some truth) * 3 ^ first + maskOf rest := by simp [maskOf]
        _ = _ := by rw [others_eq]; ring
    rcases Nat.lt_trichotomy position first with before | rfl | after
    · -- Nothing the evaluation saw stands at this digit.
      have absent : List.lookup position ((first, truth) :: rest) = none := by
        refine List.lookup_eq_none_iff.mpr fun condition listed => ?_
        obtain rfl | listed := List.mem_cons.mp listed
        · simpa using before.ne
        · simpa using (before.trans (later condition listed)).ne
      obtain ⟨gap, rfl⟩ := Nat.exists_eq_add_of_lt before
      have split : 3 ^ (position + gap + 1) * (digitOf (some truth) + 3 * others) =
          3 ^ position * (3 * (3 ^ gap * (digitOf (some truth) + 3 * others))) := by ring
      rw [whole, absent, split, Nat.mul_div_cancel_left _ (by positivity), Nat.mul_mod_right]
      rfl
    · rw [whole, Nat.mul_div_cancel_left _ (by positivity), Nat.add_mul_mod_self_left,
        Nat.mod_eq_of_lt head_lt]
      simp
    · obtain ⟨gap, rfl⟩ := Nat.exists_eq_add_of_lt after
      have tail : maskOf rest / 3 ^ (first + 1) = others := by
        rw [others_eq, Nat.mul_div_cancel_left _ (by positivity)]
      have same : maskOf ((first, truth) :: rest) / 3 ^ (first + gap + 1) =
          maskOf rest / 3 ^ (first + gap + 1) := by
        rw [show first + gap + 1 = first + 1 + gap by ring, pow_add, ← Nat.div_div_eq_div_mul,
          ← Nat.div_div_eq_div_mul, whole, upper_div head_lt, tail]
      have other : (first + gap + 1 == first) = false := by simpa using after.ne'
      rw [same, maskOf_digit _ increasing, List.lookup_cons, other]

theorem maskOf_add_le {width : Nat} : ∀ {seen : Seen} {first : Nat}, first ≤ width →
    seen.Pairwise (·.1 < ·.1) → (∀ condition ∈ seen, first ≤ condition.1 ∧ condition.1 < width) →
    maskOf seen + 3 ^ first ≤ 3 ^ width
  | [], first, bound, _, _ => by simpa [maskOf] using Nat.pow_le_pow_right (by decide) bound
  | (position, truth) :: rest, first, _, increasing, within => by
    obtain ⟨later, increasing⟩ := List.pairwise_cons.mp increasing
    obtain ⟨at_least, below⟩ := within _ List.mem_cons_self
    have others : maskOf rest + 3 ^ (position + 1) ≤ 3 ^ width :=
      maskOf_add_le below increasing fun condition listed =>
        ⟨later condition listed, (within condition (List.mem_cons_of_mem _ listed)).2⟩
    have digit : digitOf (some truth) * 3 ^ position ≤ 2 * 3 ^ position :=
      Nat.mul_le_mul_right _ (Nat.le_of_lt_succ (digitOf_lt _))
    calc maskOf ((position, truth) :: rest) + 3 ^ first
        = digitOf (some truth) * 3 ^ position + maskOf rest + 3 ^ first := by simp [maskOf]
      _ ≤ 2 * 3 ^ position + maskOf rest + 3 ^ position := by
        gcongr
        decide
      _ = maskOf rest + 3 ^ (position + 1) := by ring
      _ ≤ 3 ^ width := others

theorem Ordered.maskOf_lt {width : Nat} {seen : Seen} (ordered : Ordered width seen) :
    maskOf seen < 3 ^ width := by
  have bound := maskOf_add_le (Nat.zero_le width) ordered.increasing
    fun condition listed => ⟨Nat.zero_le _, ordered.within condition listed⟩
  exact Nat.lt_of_succ_le (by simpa using bound)

theorem Ordered.digits_maskOf {width : Nat} {seen : Seen} (ordered : Ordered width seen) :
    digits (maskOf seen) width =
      (List.range width).map fun position => digitOf (seen.lookup position) := by
  rw [digits_eq]
  exact List.map_congr_left fun position _ => maskOf_digit position ordered.increasing

end Masks

section Regions

theorem le_start {cursor decision : Nat} {widths : List Nat} :
    ∀ region ∈ regionTable cursor decision widths, cursor ≤ region.start := by
  induction widths generalizing cursor decision with
  | nil => exact fun _ => nofun
  | cons width widths inductionHypothesis =>
    intro region listed
    simp only [regionTable] at listed
    split at listed
    · exact inductionHypothesis region listed
    · obtain rfl | listed := List.mem_cons.mp listed
      · exact le_rfl
      · exact (Nat.le_add_right _ _).trans (inductionHypothesis region listed)

theorem regionTable_split {widths : List Nat} {place width start : Nat} :
    ∀ {cursor : Nat} (decision : Nat), widths[place]? = some width →
      (regions cursor widths)[place]? = some (some start) →
      ∃ before after, regionTable cursor decision widths =
          before ++ ⟨start, width, decision + place⟩ :: after ∧
        (∀ region ∈ before, region.start ≤ start) ∧
        ∀ region ∈ after, start + regionBytes width ≤ region.start := by
  induction widths generalizing place with
  | nil => exact nofun
  | cons first widths inductionHypothesis =>
    intro cursor decision found at_
    by_cases wide : maxRegionWidth < first
    · simp only [regions, regionTable, if_pos wide] at at_ ⊢
      cases place with
      | zero => exact absurd at_ (by simp)
      | succ place =>
        obtain ⟨before, after, table, bounds⟩ := inductionHypothesis (decision + 1)
          (by simpa using found) (by simpa using at_)
        exact ⟨before, after, by rw [table, Nat.add_right_comm, Nat.add_assoc], bounds⟩
    · simp only [regions, regionTable, if_neg wide] at at_ ⊢
      cases place with
      | zero =>
        obtain rfl : first = width := by simpa using found
        obtain rfl : cursor = start := by simpa using at_
        exact ⟨[], _, rfl, nofun, le_start⟩
      | succ place =>
        obtain ⟨before, after, table, earlier, later⟩ := inductionHypothesis (decision + 1)
          (by simpa using found) (by simpa using at_)
        have start_at : cursor + regionBytes first ≤ start :=
          le_start (⟨start, width, decision + 1 + place⟩ : Region)
            (by rw [table]; exact List.mem_append_right _ List.mem_cons_self)
        refine ⟨⟨cursor, first, decision⟩ :: before, after, ?_, ?_, later⟩
        · rw [table, Nat.add_right_comm, Nat.add_assoc, List.cons_append]
        · exact List.forall_mem_cons.mpr ⟨(Nat.le_add_right _ _).trans start_at, earlier⟩

theorem length_regions (cursor : Nat) (widths : List Nat) :
    (regions cursor widths).length = widths.length := by
  induction widths generalizing cursor with
  | nil => rfl
  | cons width widths inductionHypothesis =>
    simp only [regions]
    split <;> simp [inductionHypothesis]

theorem PlanIndex.decode_eq {index : PlanIndex} {decision start offset : Nat}
    (region : index.region decision = some start)
    (within : offset < regionBytes (index.width decision)) :
    index.decode (start + offset) =
      some ((⟨start, index.width decision, decision⟩ : Region).vector offset) := by
  have listed : (regions index.cursor index.widths)[decision]? = some (some start) :=
    Option.join_eq_some_iff.mp region
  have planned : decision < index.widths.length := by
    rw [← length_regions index.cursor]
    exact (List.getElem?_eq_some_iff.mp listed).1
  have width_eq : index.widths[decision]? = some (index.width decision) := by
    simp [PlanIndex.width, planned]
  obtain ⟨before, after, table, earlier, later⟩ := regionTable_split 0 width_eq listed
  rw [Nat.zero_add] at table
  have passed : ∀ region ∈ before, decide (region.start ≤ start + offset) = true :=
    fun region listed => decide_eq_true ((earlier region listed).trans (Nat.le_add_right _ _))
  have stopped : after.takeWhile (fun region => decide (region.start ≤ start + offset)) = [] := by
    cases after with
    | nil => rfl
    | cons region _ =>
      have beyond := later region List.mem_cons_self
      exact List.takeWhile_cons_of_neg (by simp; omega)
  have reached : (before ++ ⟨start, index.width decision, decision⟩ :: after).takeWhile
      (fun region => decide (region.start ≤ start + offset)) =
        before ++ [⟨start, index.width decision, decision⟩] := by
    rw [List.takeWhile_append_of_pos passed, List.takeWhile_cons_of_pos (by simp), stopped]
  simp only [PlanIndex.decode, table, reached]
  simp

theorem Region.vector_eq {region : Region} (several : region.width ≠ 1) (mask : Nat) (outcome : Bool) :
    region.vector (2 * mask + outcome.toNat) =
      ⟨region.decision, digits mask region.width, outcome⟩ := by
  have whole : (2 * mask + outcome.toNat) / 2 = mask := by cases outcome <;> simp; omega
  have parity : decide ((2 * mask + outcome.toNat) % 2 = 1) = outcome := by
    cases outcome <;> simp [Nat.add_mod]
  rw [Region.vector, if_neg several, whole, parity]

theorem regions_eq_none {widths : List Nat} {decision width : Nat} :
    ∀ (cursor : Nat), widths[decision]? = some width → (regions cursor widths)[decision]? = some none →
      maxRegionWidth < width := by
  induction widths generalizing decision with
  | nil => exact nofun
  | cons first widths inductionHypothesis =>
    intro cursor found none_
    simp only [regions] at none_
    cases decision with
    | zero =>
      obtain rfl : first = width := by simpa using found
      split at none_
      · assumption
      · exact absurd none_ (by simp)
    | succ decision =>
      split at none_
      · exact inductionHypothesis _ (by simpa using found) (by simpa using none_)
      · exact inductionHypothesis _ (by simpa using found) (by simpa using none_)

end Regions

section States

/-- What a decision's state is while evaluations that saw this are open, the innermost first. -/
def stateOf : List Seen → DecisionState
  | [] => {}
  | seen :: outer => {
      mask := maskOf seen
      last := lastOf seen
      saved := outer.map fun seen => (maskOf seen, lastOf seen) }

theorem digitOf_some (truth : Bool) : digitOf (some truth) = if truth then 2 else 1 := by
  cases truth <;> rfl

theorem maskOf_concat (seen : Seen) (condition : Nat × Bool) :
    maskOf (seen ++ [condition]) =
      maskOf seen + (if condition.2 then 2 else 1) * 3 ^ condition.1 := by
  simp [maskOf, digitOf_some]

theorem condition_begins {frames : List Seen} (begun : ∀ seen ∈ frames, seen ≠ [])
    (value inverted : Bool) :
    (stateOf frames).condition 0 value inverted = stateOf ([(0, value != inverted)] :: frames) := by
  have mask : maskOf [(0, value != inverted)] = if value != inverted then 2 else 1 := by
    simp [maskOf, digitOf_some]
  have last : lastOf [(0, value != inverted)] = 0 := rfl
  cases frames with
  | nil => simp [stateOf, DecisionState.condition, mask, last]
  | cons seen outer =>
    have nested : ((0 : Nat) : Int) ≤ lastOf seen := lastOf_nonneg (begun seen List.mem_cons_self)
    simp only [Nat.cast_zero] at nested
    simp [stateOf, DecisionState.condition, mask, last, nested]

theorem condition_continues {seen : Seen} (begun : seen ≠ []) {position : Nat}
    (earlier : ∀ condition ∈ seen, condition.1 < position) (outer : List Seen)
    (value inverted : Bool) :
    (stateOf (seen :: outer)).condition position value inverted =
      stateOf ((seen ++ [(position, value != inverted)]) :: outer) := by
  have goes_on : ¬ (position : Int) ≤ lastOf seen := not_le.mpr (lastOf_lt begun earlier)
  simp [stateOf, DecisionState.condition, goes_on, maskOf_concat, lastOf_concat]

theorem close_stateOf (seen : Seen) (outer : List Seen) :
    (stateOf (seen :: outer)).close = stateOf outer := by
  cases outer <;> rfl

end States

/-- A decision too wide for a region has no vector yet with the same truths and the other
outcome. -/
def Agrees (index : PlanIndex) (moment : Moment) : Event → Prop
  | .outcome evaluation slot decision value => maxRegionWidth < index.width decision →
      ∀ recorded ∈ moment.runtime.vectors, recorded.1 = moment.runtime.context slot →
        recorded.2.decision = decision →
        recorded.2.digits =
          (vectorOf index ⟨(slot, decision), moment.course.seen evaluation, value⟩).digits →
        recorded.2.outcome = value
  | _ => True

/-- Nothing disturbs the evaluation an event belongs to. -/
def Undisturbed (index : PlanIndex) (moment : Moment) (event : Event) : Prop :=
  moment.course.Innermost event.course ∧ Agrees index moment event

structure Kept (index : PlanIndex) (runtime : Runtime) (frames : Nat × Nat → List Seen) : Prop where
  ordered : ∀ place, ∀ seen ∈ frames place, Ordered (index.width place.2) seen
  states : ∀ place, (runtime.states place).getD {} = stateOf (frames place)

/-- What every step keeps. -/
structure Holds (index : PlanIndex) (moment : Moment) : Prop where
  sound : moment.course.Sound
  kept : Kept index moment.runtime moment.course.frames
  exact : Exact index moment

section Steps

variable {index : PlanIndex}

theorem vectorOf_eq (evaluation : Completed (Nat × Nat))
    (ordered : Ordered (index.width evaluation.place.2) evaluation.seen) :
    vectorOf index evaluation = {
      decision := evaluation.place.2
      digits := digits (maskOf evaluation.seen) (index.width evaluation.place.2)
      outcome := evaluation.outcome } := by
  rw [vectorOf, ordered.digits_maskOf]
  rfl

theorem state_of_open {state : Option DecisionState} {seen : Seen} {outer : List Seen}
    (begun : seen ≠ []) (found : state.getD {} = stateOf (seen :: outer)) :
    state = some (stateOf (seen :: outer)) := by
  cases state with
  | some state => exact congrArg some found
  | none =>
    have last : (-1 : Int) = lastOf seen := congrArg DecisionState.last found
    have nonneg := lastOf_nonneg begun
    omega

theorem several_width {decision : Nat} (several : 2 ≤ index.width decision) :
    index.widths[decision]? = some (index.width decision) := by
  cases found : index.widths[decision]? with
  | some width => simp [PlanIndex.width, List.getD, found]
  | none =>
    have none_ : index.width decision = 0 := by simp [PlanIndex.width, List.getD, found]
    omega

theorem region_or_wide {decision : Nat} (several : 2 ≤ index.width decision) :
    (∃ start, index.region decision = some start) ∨
      (index.region decision = none ∧ maxRegionWidth < index.width decision) := by
  have found := several_width several
  have planned : decision < (regions index.cursor index.widths).length := by
    rw [length_regions]
    exact (List.getElem?_eq_some_iff.mp found).1
  cases region : (regions index.cursor index.widths)[decision] with
  | some start => exact .inl ⟨start, by simp [PlanIndex.region, planned, region]⟩
  | none =>
    refine .inr ⟨by simp [PlanIndex.region, planned, region], regions_eq_none index.cursor found ?_⟩
    simp [planned, region]

theorem recorded_decisionProbe {runtime : Runtime} {slot decision : Nat} {seen : Seen}
    {outer : List Seen} {value : Bool}
    (state : runtime.states (slot, decision) = some (stateOf (seen :: outer)))
    (ordered : Ordered (index.width decision) seen) (several : 2 ≤ index.width decision)
    (agrees : maxRegionWidth < index.width decision → ∀ recorded ∈ runtime.vectors,
      recorded.1 = runtime.context slot → recorded.2.decision = decision →
        recorded.2.digits = digits (maskOf seen) (index.width decision) → recorded.2.outcome = value)
    (vector : DecisionVector) :
    (runtime.decisionProbe index slot decision value).Recorded index vector ↔
      runtime.Recorded index vector ∨
        ⟨decision, digits (maskOf seen) (index.width decision), value⟩ = vector := by
  obtain ⟨start, region⟩ | ⟨region, wide⟩ := region_or_wide several
  · have within : 2 * maskOf seen + value.toNat < regionBytes (index.width decision) := by
      have mask_lt := ordered.maskOf_lt
      have bit := value.toNat_le
      rw [regionBytes, if_neg (by omega)]
      omega
    have read : index.decode (start + 2 * maskOf seen + value.toNat) =
        some ⟨decision, digits (maskOf seen) (index.width decision), value⟩ := by
      rw [Nat.add_assoc, PlanIndex.decode_eq region within, Region.vector_eq (by simp; omega)]
    simp only [Runtime.decisionProbe, state, region, Runtime.Recorded, stateOf, List.mem_append,
      List.mem_singleton, or_and_right, exists_or, exists_eq_left, read, Option.some.injEq]
    exact or_right_comm
  · simp only [Runtime.decisionProbe, state, region, Runtime.wideVector, stateOf]
    split
    · rename_i known
      obtain ⟨recorded, listed, same⟩ := List.any_eq_true.mp known
      simp only [Bool.and_eq_true, decide_eq_true_eq] at same
      obtain ⟨⟨context, of⟩, truths⟩ := same
      have outcome := agrees wide recorded listed context of truths
      refine ⟨.inl, fun either => either.elim id ?_⟩
      rintro rfl
      refine .inr ⟨recorded, listed, ?_⟩
      cases found : recorded.2
      simp_all
    · simp only [Runtime.Recorded, List.mem_append, List.mem_singleton, or_and_right, exists_or,
        exists_eq_left]
      exact or_assoc.symm

theorem Ordered.first {width : Nat} (several : 0 < width) (truth : Bool) :
    Ordered width [(0, truth)] where
  begun := List.cons_ne_nil _ _
  increasing := List.pairwise_singleton _ _
  within := by simpa using several

theorem Ordered.concat {width position : Nat} {seen : Seen} (ordered : Ordered width seen)
    (earlier : ∀ condition ∈ seen, condition.1 < position) (within : position < width) (truth : Bool) :
    Ordered width (seen ++ [(position, truth)]) where
  begun := List.append_ne_nil_of_left_ne_nil ordered.begun _
  increasing := List.pairwise_append.mpr
    ⟨ordered.increasing, List.pairwise_singleton _ _, fun before listed _ last =>
      List.mem_singleton.mp last ▸ earlier before listed⟩
  within condition listed := by
    obtain listed | listed := List.mem_append.mp listed
    · exact ordered.within condition listed
    · obtain rfl := List.mem_singleton.mp listed
      exact within

theorem states_decisionProbe {runtime : Runtime} {slot decision : Nat} {state : DecisionState}
    (found : runtime.states (slot, decision) = some state) (value : Bool) :
    (runtime.decisionProbe index slot decision value).states =
      Function.update runtime.states (slot, decision) (some state.close) := by
  simp only [Runtime.decisionProbe, found, Runtime.wideVector]
  split
  · rfl
  · split <;> rfl

theorem Kept.after {runtime : Runtime} {frames frames' : Nat × Nat → List Seen}
    (kept : Kept index runtime frames) {event : Event} (planned : event.Planned index)
    (framed : Framed frames event.course frames') :
    Kept index (runtime.after index event) frames' := by
  -- At any other place nothing changes.
  have elsewhere (place : Nat × Nat) {opened : List Seen} (state : Option DecisionState)
      (ordered : ∀ seen ∈ opened, Ordered (index.width place.2) seen)
      (same : state.getD {} = stateOf opened) (other : Nat × Nat) :
      (∀ seen ∈ Function.update frames place opened other, Ordered (index.width other.2) seen) ∧
        (Function.update runtime.states place state other).getD {} =
          stateOf (Function.update frames place opened other) := by
    by_cases at_ : other = place
    · subst at_
      simpa using ⟨ordered, same⟩
    · simpa [at_] using ⟨kept.ordered other, kept.states other⟩
  cases event with
  | leave evaluation =>
    cases framed
    exact kept
  | hand slot context =>
    cases framed
    refine ⟨fun place seen listed => ?_, fun place => ?_⟩
    · split at listed
      · contradiction
      · exact kept.ordered place seen listed
    · simp only [Runtime.after, Runtime.allocateHits]
      by_cases at_ : place.1 = slot
      · simp [at_, stateOf]
      · simpa [at_] using kept.states place
  | condition evaluation slot decision position truth =>
    have written : ((truth != index.inverted decision position) != index.inverted decision position) =
        truth := by simp
    cases framed with
    | begins =>
      have step := condition_begins (fun seen listed => (kept.ordered (slot, decision) seen listed).begun)
        (truth != index.inverted decision 0) (index.inverted decision 0)
      rw [written, ← kept.states] at step
      have all := elsewhere (slot, decision) (some _) (List.forall_mem_cons.mpr
        ⟨Ordered.first planned.2 truth, kept.ordered (slot, decision)⟩) step
      exact ⟨fun other => (all other).1, fun other => (all other).2⟩
    | continues found begun earlier =>
      rename_i seen outer
      have step := condition_continues begun earlier outer
        (truth != index.inverted decision position) (index.inverted decision position)
      have opened := kept.ordered (slot, decision)
      rw [written, ← found, ← kept.states] at step
      rw [found] at opened
      have ordered : Ordered (index.width decision) seen := opened seen List.mem_cons_self
      have all := elsewhere (slot, decision) (some _) (List.forall_mem_cons.mpr
        ⟨ordered.concat earlier planned.2 truth,
          fun other listed => opened other (List.mem_cons_of_mem _ listed)⟩) step
      exact ⟨fun other => (all other).1, fun other => (all other).2⟩
  | outcome evaluation slot decision value =>
    cases framed with
    | outcome found begun =>
      rename_i seen outer
      have opened := kept.ordered (slot, decision)
      rw [found] at opened
      have state := state_of_open begun ((kept.states (slot, decision)).trans (congrArg stateOf found))
      have all := elsewhere (slot, decision) (some _)
        (fun other listed => opened other (List.mem_cons_of_mem _ listed)) (close_stateOf seen outer)
      refine ⟨fun other => (all other).1, fun other => ?_⟩
      simp only [Runtime.after, states_decisionProbe state]
      exact (all other).2

theorem frames_of_innermost {course : Course (Nat × Nat)} {place : Nat × Nat} {evaluation : Nat}
    (innermost : (course.opened place).head? = some evaluation) :
    ∃ outer, course.frames place = course.seen evaluation :: outer := by
  obtain ⟨rest, opened⟩ := List.head?_eq_some_iff.mp innermost
  exact ⟨rest.map course.seen, by rw [Course.frames, opened, List.map_cons]⟩

theorem Holds.after {moment : Moment} (holds : Holds index moment) {event : Event}
    (fits : Fits index moment event) (undisturbed : Undisturbed index moment event) :
    Holds index (moment.after index event) := by
  refine ⟨holds.sound.after _,
    holds.kept.after fits.1 (Course.framed holds.sound fits.2 undisturbed.1), fun vector => ?_⟩
  cases event with
  | condition evaluation slot decision position truth => exact holds.exact vector
  | leave evaluation => exact holds.exact vector
  | hand slot context => exact holds.exact vector
  | outcome evaluation slot decision value =>
    obtain ⟨outer, frames⟩ := frames_of_innermost undisturbed.1
    have ordered := holds.kept.ordered (slot, decision) _ (frames ▸ List.mem_cons_self)
    have state := state_of_open ordered.begun
      ((holds.kept.states (slot, decision)).trans (congrArg stateOf frames))
    have completed := vectorOf_eq ⟨(slot, decision), moment.course.seen evaluation, value⟩ ordered
    have agrees := undisturbed.2
    simp only [Agrees, completed] at agrees
    refine (recorded_decisionProbe state ordered fits.1 agrees vector).trans ?_
    simp only [Moment.after, Event.course, Course.after, List.mem_append, List.mem_singleton,
      or_and_right, exists_or, exists_eq_left, completed, holds.exact vector]

theorem Holds.first : Holds index {} where
  sound := Course.Sound.first
  kept := { ordered := fun _ _ => nofun, states := fun _ => rfl }
  exact vector := by simp [Runtime.Recorded]

end Steps

/-- In a run whose evaluations nothing disturbs, the vectors recorded are those of the completed
evaluations. -/
theorem vectors_exact (index : PlanIndex) (events : List Event)
    (fits : Along (Moment.after index) (Fits index) {} events)
    (undisturbed : Along (Moment.after index) (Undisturbed index) {} events) :
    Exact index (run (Moment.after index) {} events) :=
  ((fits.and undisturbed).keeps (fun _ _ holds good => holds.after good.1 good.2) Holds.first).exact

/-- One decision, `(a or b) and c`. -/
def several : PlanIndex where
  cursor := 16
  widths := [3]
  inverted _ _ := false

/-- Its `c` evaluates it again, to an outcome. -/
def nested : List Event :=
  [.condition 0 0 0 0 true, .condition 1 0 0 0 false, .condition 1 0 0 1 false, .outcome 1 0 0 false,
    .condition 0 0 0 2 true, .outcome 0 0 0 true]

theorem vectors_exact_nested :
    (Along (Moment.after several) (Fits several) {} nested ∧ Along (Moment.after several) (Undisturbed several) {} nested) ∧
      Exact several (run (Moment.after several) {} nested) := by
  have fits : Along (Moment.after several) (Fits several) {} nested := by
    simp [nested, several, Along, Fits, Event.Planned, Event.course, Course.Fits, Course.begins,
      PlanIndex.width, Moment.after, Course.after]
  have undisturbed : Along (Moment.after several) (Undisturbed several) {} nested := by
    simp [nested, several, Along, Undisturbed, Agrees, Event.course, Course.Innermost, Course.begins,
      PlanIndex.width, Moment.after, Course.after, maxRegionWidth]
  exact ⟨⟨fits, undisturbed⟩, vectors_exact several nested fits undisturbed⟩

/-- Its `c` evaluates it again, and catches the exception that leaves it. -/
def abandoned : List Event :=
  [.condition 0 0 0 0 true, .condition 1 0 0 0 false, .condition 1 0 0 1 true, .leave 1,
    .condition 0 0 0 2 true, .outcome 0 0 0 true]

theorem not_vectors_exact_abandoned : ¬ ∀ (index : PlanIndex) (events : List Event),
    Along (Moment.after index) (Fits index) {} events →
      Exact index (run (Moment.after index) {} events) := by
  intro every
  have fits : Along (Moment.after several) (Fits several) {} abandoned := by
    simp [abandoned, several, Along, Fits, Event.Planned, Event.course, Course.Fits, Course.begins,
      PlanIndex.width, Moment.after, Course.after]
  have mixed : (run (Moment.after several) {} abandoned).runtime.Recorded several ⟨0, [1, 2, 2], true⟩ :=
    .inl ⟨(0, 67), by decide, by decide⟩
  obtain ⟨evaluation, listed, same⟩ := (every several abandoned fits _).mp mixed
  have only : (run (Moment.after several) {} abandoned).course.completed.map (vectorOf several) =
      [⟨0, [2, 0, 2], true⟩] := by decide
  have member := List.mem_map_of_mem (f := vectorOf several) listed
  rw [only, same] at member
  exact absurd member (by decide)

end Supercov.Python
