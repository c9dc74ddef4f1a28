import Supercov.Library.Runs
import Supercov.Ruby.Stretches

/-!
# The Ruby runtime's vectors

Where nothing disturbs the evaluations the vectors recorded are those of the completed ones, and none
but a crowded or interrupted one goes unrecorded.
-/

namespace Supercov.Ruby.Decisions

open Suspended (Seen)
open Runs (Along run)

section Outcomes

variable {predicate : Predicate} {place : Place} {value : Bool} {runtime : Runtime} {course : Course}
  {evaluation : Nat} {seen : Seen} {taken : List (Nat × Bool)}

theorem exists_content (sound : course.Sound) (open_ : course.past evaluation = false)
    (evaluates : predicate.Evaluates 0 0 (course.seen evaluation) taken value)
    (lone : predicate.width = 1 → runtime.opens place = [])
    (serves : predicate.width ≠ 1 →
      Serves predicate.width course true (runtime.opens place) (course.stretches place))
    (undisturbed : predicate.width ≠ 1 → course.Undisturbed (.outcome evaluation place value)) :
    ∃ content : Seen, content.Sublist (course.seen evaluation) ∧
      (course.strays evaluation place = false → course.crowded evaluation = false →
        content = course.seen evaluation) ∧
      runtime.probeDecision predicate.probeDecision place.1 place.2 value =
        Runtime.finishDecision predicate.probeDecision place.1 place.2
          (frameOf predicate.width content).values value
          { runtime with
            opens := Function.update runtime.opens place (runtime.opens place).tail } := by
  obtain ⟨context, key⟩ := place
  by_cases several : predicate.width = 1
  · cases predicate with
    | logical op left right not =>
      have first := left.width_pos
      have second := right.width_pos
      rw [Predicate.width_logical] at several
      omega
    | condition not =>
      generalize course.seen evaluation = seen at evaluates ⊢
      cases evaluates with
      | condition truth =>
        refine ⟨_, List.Sublist.refl _, fun _ _ => rfl, ?_⟩
        simp [Runtime.probeDecision, lone several, Predicate.probeDecision, Predicate.width,
          Predicate.leaves, frameOf]
        cases truth <;> cases odd : not % 2 == 1 <;> simp_all
  · have serves := serves several
    cases stack : runtime.opens (context, key) with
    | nil =>
      refine ⟨[], List.nil_sublist _, fun stays uncrowded => ?_, ?_⟩
      · obtain innermost | ⟨strays, -⟩ := undisturbed several
        · cases found : course.stretches (context, key) with
          | nil => simp [Course.innermost, found] at innermost
          | cons top rest =>
            obtain rfl : top.evaluation = evaluation := by
              simpa [Course.innermost, found] using innermost
            rw [stack, found] at serves
            have crowded := serves rfl top (by
              rw [List.takeWhile_cons_of_pos (by simp [Course.lives, open_])]
              exact List.mem_cons_self)
            exact absurd crowded (Bool.eq_false_iff.mp uncrowded)
        · exact absurd strays (Bool.eq_false_iff.mp stays)
      · simp [Runtime.probeDecision, stack, frameOf_nil, Predicate.probeDecision, several]
    | cons frame outer =>
      cases found : course.stretches (context, key) with
      | nil =>
        rw [stack, found] at serves
        exact serves.elim
      | cons top rest =>
        rw [stack, found] at serves
        obtain ⟨⟨content, begun, suffix, rfl, whole⟩, -⟩ := serves
        have own : top.evaluation = evaluation := by
          obtain innermost | ⟨-, none_⟩ := undisturbed several
          · simpa [Course.innermost, found] using innermost
          · simp [found] at none_
        have listed : top ∈ course.stretches (context, key) := found ▸ List.mem_cons_self
        subst own
        refine ⟨content, suffix.sublist.trans (sound.part _ top listed), fun stays uncrowded => ?_, ?_⟩
        · rw [whole uncrowded, sound.whole _ top listed stays]
        · simp [Runtime.probeDecision, stack]

theorem shows_written (ordered : seen.Pairwise (·.1 < ·.1)) :
    Predicate.Evaluates.Shows (predicate.written fun index => seen.lookup index) 0 predicate.width
      seen := by
  intro index _ under
  rw [Nat.zero_add] at under
  have present : ((predicate.written fun index => seen.lookup index).getD index none).isSome =
      (seen.lookup index).isSome := by
    simp [Predicate.written, List.getD, show index < predicate.leaves.length from under]
  rw [present, Option.isSome_iff_exists]
  constructor
  · rintro ⟨truth, found⟩
    exact ⟨(index, truth), mem_of_lookup found, rfl⟩
  · rintro ⟨condition, listed, rfl⟩
    exact ⟨condition.2, lookup_eq_of_mem ordered listed⟩

theorem alternatives_of (evaluates : predicate.Evaluates 0 0 seen taken value)
    (ordered : seen.Pairwise (·.1 < ·.1)) :
    ∀ alternative ∈ taken, Hit.logical alternative.1 alternative.2 ∈
      alternatives predicate.probeDecision (predicate.written fun index => seen.lookup index) := by
  intro alternative listed
  obtain ⟨place, logical, number, at_, took⟩ :=
    evaluates.alternative_of (shows_written ordered) alternative listed
  rw [Nat.zero_add] at number
  refine List.mem_filterMap.mpr ⟨(logical, place), ?_, by simp [took, number]⟩
  exact List.mem_zipIdx_iff_getElem?.mpr at_

variable (runtime) in
theorem mem_vector {recorded : DecisionVector}
    (agrees : ∀ vector ∈ runtime.vectors, vector.decision = recorded.decision →
      vector.digits = recorded.digits → vector.outcome = recorded.outcome) (vector : DecisionVector) :
    vector ∈ (runtime.vector recorded).vectors ↔ vector ∈ runtime.vectors ∨ vector = recorded := by
  rw [Runtime.vector]
  split
  · rename_i known
    refine ⟨.inl, fun either => either.elim id ?_⟩
    rintro rfl
    obtain ⟨same, listed, matches_⟩ := List.any_eq_true.mp known
    simp only [Bool.and_eq_true, decide_eq_true_eq] at matches_
    obtain ⟨⟨context, decision⟩, digits⟩ := matches_
    have outcome := agrees same listed decision digits
    have equal : same = vector := by
      cases same
      simp_all
    exact equal ▸ listed
  · simp

theorem digit_injective : Function.Injective digit := by
  intro one other
  match one, other with
  | none, none | some false, some false | some true, some true => simp
  | none, some false | none, some true | some false, none | some true, none => simp [digit]
  | some false, some true | some true, some false => simp [digit]

theorem finish_all (ordered : seen.Pairwise (·.1 < ·.1))
    (evaluates : predicate.Evaluates 0 0 seen taken value) :
    Runtime.finishDecision predicate.probeDecision place.1 place.2 (frameOf predicate.width seen).values
      value runtime =
    { runtime.vector ⟨place.1, place.2,
        (predicate.written fun index => seen.lookup index).map digit, value⟩ with
      hits := runtime.hits ++ ((.outcome value :: alternatives predicate.probeDecision
        (predicate.written fun index => seen.lookup index)).map fun hit => (place.1, place.2, hit)) } := by
  have hits_eq (recorded : DecisionVector) : (runtime.vector recorded).hits = runtime.hits := by
    rw [Runtime.vector]
    split <;> rfl
  simp only [Runtime.finishDecision, negated_frameOf, tree_of_all ordered evaluates, if_true, hits_eq]

theorem finish_part {content : Seen} (ordered : seen.Pairwise (·.1 < ·.1))
    (part : content.Sublist seen) (lacks : content ≠ seen)
    (evaluates : predicate.Evaluates 0 0 seen taken value) :
    Runtime.finishDecision predicate.probeDecision place.1 place.2
      (frameOf predicate.width content).values value runtime =
    { runtime with inconsistent := place.2 :: runtime.inconsistent } := by
  simp only [Runtime.finishDecision, negated_frameOf, tree_of_part ordered part lacks evaluates,
    reduceCtorEq, if_false]

end Outcomes

section Steps

variable {program : Program}

/-- What every step keeps. -/
structure Holds (program : Program) (moment : Moment) : Prop where
  sound : moment.course.Sound
  serves : ∀ place, ∀ predicate ∈ program[place.2]?, predicate.width ≠ 1 →
    Serves predicate.width moment.course true (moment.runtime.opens place)
      (moment.course.stretches place)
  lone : ∀ place, ∀ predicate ∈ program[place.2]?, predicate.width = 1 →
    moment.runtime.opens place = []
  decided : ∀ vector ∈ moment.runtime.vectors, ∀ predicate ∈ program[vector.decision]?,
    ∃ seen, vector.digits = (predicate.written seen).map digit ∧
      evaluateTree (predicate.written seen) predicate.probeDecision.tree = some vector.outcome
  exact : Exact program moment

theorem Proves.mono {runtime later : Runtime} {evaluation : Completed}
    (proves : Proves program runtime evaluation)
    (vectors : ∀ vector ∈ runtime.vectors, vector ∈ later.vectors)
    (hits : ∀ hit ∈ runtime.hits, hit ∈ later.hits) : Proves program later evaluation where
  vector := vectors _ proves.vector
  outcome := hits _ proves.outcome
  alternatives predicate planned taken evaluates alternative listed :=
    hits _ (proves.alternatives predicate planned taken evaluates alternative listed)

theorem Holds.first : Holds program {} where
  sound := Course.Sound.first
  serves _ _ _ _ := fun _ _ => nofun
  lone _ _ _ _ := rfl
  decided _ := nofun
  exact := ⟨fun _ => nofun, fun _ => nofun, fun _ => nofun⟩

def recordedOf (predicate : Predicate) (place : Place) (seen : Seen) (value : Bool) : DecisionVector :=
  ⟨place.1, place.2, (predicate.written fun index => seen.lookup index).map digit, value⟩

theorem vectorOf_eq {predicate : Predicate} (evaluation : Completed)
    (planned : program[evaluation.place.2]? = some predicate) :
    vectorOf program evaluation =
      recordedOf predicate evaluation.place evaluation.seen evaluation.outcome := by
  have digits : predicate.leaves.mapIdx (fun index not =>
      digit ((evaluation.seen.lookup index).map (· != (not % 2 == 1)))) =
        (predicate.written fun index => evaluation.seen.lookup index).map digit :=
    List.ext_getElem (by simp [Predicate.written]) (by simp [Predicate.written])
  simp [vectorOf, recordedOf, planned, digits]

theorem Holds.same_outcome {moment : Moment} (holds : Holds program moment) {predicate : Predicate}
    {place : Place} {seen : Seen} {taken : List (Nat × Bool)} {value : Bool}
    (planned : program[place.2]? = some predicate) (ordered : seen.Pairwise (·.1 < ·.1))
    (evaluates : predicate.Evaluates 0 0 seen taken value) :
    ∀ vector ∈ moment.runtime.vectors,
      vector.decision = (recordedOf predicate place seen value).decision →
        vector.digits = (recordedOf predicate place seen value).digits →
          vector.outcome = (recordedOf predicate place seen value).outcome := by
  intro vector listed decision digits
  obtain ⟨other, digits', tree⟩ := holds.decided vector listed predicate (by rw [decision]; exact planned)
  have same : predicate.written other = predicate.written fun index => seen.lookup index :=
    List.map_injective_iff.mpr digit_injective (digits'.symm.trans digits)
  rw [same, tree_of_all ordered evaluates] at tree
  exact (Option.some.inj tree).symm

theorem Holds.condition {moment : Moment} (holds : Holds program moment)
    {evaluation index : Nat} {place : Place} {truth : Bool}
    (fits : Fits program moment.course (.condition evaluation place index truth))
    (undisturbed : Undisturbed program moment (.condition evaluation place index truth)) :
    Holds program (moment.after program (.condition evaluation place index truth)) := by
  obtain ⟨open_, zero, earlier, -, predicate, planned, within⟩ := fits
  have grows := moment.course.grows_after (.condition evaluation place index truth)
  have elsewhere (other : Place) (apart : other ≠ place) :
      (moment.course.after (.condition evaluation place index truth)).stretches other =
        moment.course.stretches other := by
    simp [Course.after, Course.crowd, apart]
  obtain ⟨context, key⟩ := place
  have planned : program[key]? = some predicate := planned
  have only : ∀ other ∈ program[key]?, other = predicate := fun other listed =>
    Option.some.inj (listed.symm.trans planned)
  by_cases lone : predicate.width = 1
  · have begins : moment.course.begins evaluation := by
      refine List.eq_nil_iff_forall_not_mem.mpr fun condition listed => ?_
      have before := earlier condition listed
      omega
    have same : moment.runtime.after program (.condition evaluation (context, key) index truth) =
        moment.runtime := by
      simp [Runtime.after, planned, lone]
    refine ⟨holds.sound.condition earlier (.inl begins), fun other whose planned' several => ?_,
      fun other whose planned' single => ?_, ?_, ?_⟩
    · have apart : other ≠ (context, key) := fun here => by
        subst here
        exact several (only whose planned' ▸ lone)
      simp only [Moment.after, same, elsewhere other apart]
      exact (holds.serves other whose planned' several).mono grows id
    · simp only [Moment.after, same]
      exact holds.lone other whose planned' single
    · simp only [Moment.after, same]
      exact holds.decided
    · simp only [Moment.after, same]
      exact ⟨holds.exact.happened, holds.exact.recorded, holds.exact.consistent⟩
  · obtain ⟨calm, counted⟩ : moment.course.Undisturbed (.condition evaluation (context, key) index truth) ∧
        (moment.course.after (.condition evaluation (context, key) index truth)).Counted (context, key) := by
      obtain ⟨whose, planned', single⟩ | calm := undisturbed
      · exact absurd (only whose planned' ▸ single) lone
      · exact calm
    obtain ⟨stack, opens, serves⟩ := Serves.condition holds.sound open_ zero earlier within calm counted
      (holds.serves (context, key) predicate planned lone)
    have after_eq : moment.runtime.after program (.condition evaluation (context, key) index truth) =
        moment.runtime.probeCondition predicate.probeDecision context key index truth := by
      simp [Runtime.after, planned, lone]
    refine ⟨holds.sound.condition earlier calm, fun other whose planned' several => ?_,
      fun other whose planned' single => ?_, ?_, ?_⟩
    · simp only [Moment.after, after_eq, opens]
      by_cases here : other = (context, key)
      · subst here
        obtain rfl := only whose planned'
        rw [Function.update_self]
        exact serves
      · rw [Function.update_of_ne here, elsewhere other here]
        exact (holds.serves other whose planned' several).mono grows id
    · have apart : other ≠ (context, key) := fun here => by
        subst here
        exact lone (only whose planned' ▸ single)
      simp only [Moment.after, after_eq, opens]
      rw [Function.update_of_ne apart]
      exact holds.lone other whose planned' single
    · simp only [Moment.after, after_eq]
      exact holds.decided
    · simp only [Moment.after, after_eq]
      exact ⟨holds.exact.happened, fun one completed stays uncrowded =>
        (holds.exact.recorded one completed stays uncrowded).mono (fun _ => id) fun _ => id,
        holds.exact.consistent⟩

theorem Holds.leave {moment : Moment} (holds : Holds program moment) (evaluation : Nat) :
    Holds program (moment.after program (.leave evaluation)) where
  sound := ⟨holds.sound.ordered, holds.sound.settled, holds.sound.fresh, holds.sound.begun,
    holds.sound.part, holds.sound.whole, holds.sound.single⟩
  serves place predicate planned several :=
    (holds.serves place predicate planned several).mono (moment.course.grows_after (.leave evaluation)) id
  lone := holds.lone
  decided := holds.decided
  exact := ⟨holds.exact.happened, holds.exact.recorded, holds.exact.consistent⟩

theorem Holds.outcome {moment : Moment} (holds : Holds program moment)
    {evaluation : Nat} {place : Place} {value : Bool}
    (fits : Fits program moment.course (.outcome evaluation place value))
    (undisturbed : Undisturbed program moment (.outcome evaluation place value)) :
    Holds program (moment.after program (.outcome evaluation place value)) := by
  obtain ⟨open_, -, predicate, planned, taken, evaluates⟩ := fits
  have planned : program[place.2]? = some predicate := planned
  have only : ∀ other ∈ program[place.2]?, other = predicate := fun other listed =>
    Option.some.inj (listed.symm.trans planned)
  have calm : predicate.width ≠ 1 → moment.course.Undisturbed (.outcome evaluation place value) := by
    intro several
    obtain ⟨whose, planned', single⟩ | calm := undisturbed
    · exact absurd (only whose planned' ▸ single) several
    · exact calm
  obtain ⟨content, part, whole, probe_eq⟩ := exists_content holds.sound open_ evaluates
    (holds.lone place predicate planned) (holds.serves place predicate planned) calm
  have ordered := holds.sound.ordered evaluation
  have after_eq : moment.runtime.after program (.outcome evaluation place value) =
      Runtime.finishDecision predicate.probeDecision place.1 place.2
        (frameOf predicate.width content).values value
        { moment.runtime with
          opens := Function.update moment.runtime.opens place (moment.runtime.opens place).tail } := by
    obtain ⟨context, key⟩ := place
    rw [← probe_eq]
    simp [Runtime.after, planned]
  have opens_eq : (moment.runtime.after program (.outcome evaluation place value)).opens =
      Function.update moment.runtime.opens place (moment.runtime.opens place).tail := by
    rw [after_eq]
    simp only [Runtime.finishDecision, Runtime.vector]
    split
    · split <;> rfl
    · rfl
  have serves : ∀ other, ∀ whose ∈ program[other.2]?, whose.width ≠ 1 →
      Serves whose.width (moment.course.after (.outcome evaluation place value)) true
        ((moment.runtime.after program (.outcome evaluation place value)).opens other)
        ((moment.course.after (.outcome evaluation place value)).stretches other) := by
    intro other whose planned' several
    rw [opens_eq]
    by_cases here : other = place
    · subst here
      obtain rfl := only whose planned'
      rw [Function.update_self]
      exact Serves.outcome open_ (calm several) (holds.serves other whose planned' several)
    · have same : (moment.course.after (.outcome evaluation place value)).stretches other =
          moment.course.stretches other := by
        simp only [Course.after]
        split
        · rw [Function.update_of_ne here]
        · rfl
      rw [Function.update_of_ne here, same]
      exact (holds.serves other whose planned' several).mono (moment.course.grows_after _) id
  have lone : ∀ other, ∀ whose ∈ program[other.2]?, whose.width = 1 →
      (moment.runtime.after program (.outcome evaluation place value)).opens other = [] := by
    intro other whose planned' single
    have empty := holds.lone other whose planned' single
    rw [opens_eq]
    by_cases here : other = place
    · subst here
      rw [Function.update_self, empty, List.tail_nil]
    · rw [Function.update_of_ne here, empty]
  have completed_eq : (moment.course.after (.outcome evaluation place value)).completed =
      moment.course.completed ++ [{
        place, seen := moment.course.seen evaluation, outcome := value
        strayed := moment.course.strays evaluation place
        crowded := moment.course.crowded evaluation }] := rfl
  by_cases full : content = moment.course.seen evaluation
  · -- The frame holds all the evaluation saw.
    subst full
    rw [finish_all ordered evaluates] at after_eq
    have vectors : ∀ vector, vector ∈ (moment.runtime.after program (.outcome evaluation place value)).vectors ↔
        vector ∈ moment.runtime.vectors ∨
          vector = recordedOf predicate place (moment.course.seen evaluation) value := by
      intro vector
      rw [after_eq]
      exact mem_vector { moment.runtime with
        opens := Function.update moment.runtime.opens place (moment.runtime.opens place).tail }
          (holds.same_outcome planned ordered evaluates) vector
    have hits : (moment.runtime.after program (.outcome evaluation place value)).hits =
        moment.runtime.hits ++ ((.outcome value :: alternatives predicate.probeDecision
          (predicate.written fun index => (moment.course.seen evaluation).lookup index)).map
            fun hit => (place.1, place.2, hit)) := by
      rw [after_eq]
    have inconsistent : (moment.runtime.after program (.outcome evaluation place value)).inconsistent =
        moment.runtime.inconsistent := by
      rw [after_eq]
      simp only [Runtime.vector]
      split <;> rfl
    have own : vectorOf program ⟨place, moment.course.seen evaluation, value,
        moment.course.strays evaluation place, moment.course.crowded evaluation⟩ =
          recordedOf predicate place (moment.course.seen evaluation) value :=
      vectorOf_eq _ planned
    refine ⟨holds.sound.outcome value, serves, lone, fun vector listed => ?_, fun vector listed => ?_,
      fun one listed => ?_, fun decision listed => ?_⟩
    · obtain listed | rfl := (vectors vector).mp listed
      · exact holds.decided vector listed
      · intro whose planned'
        obtain rfl := only whose planned'
        exact ⟨_, rfl, tree_of_all ordered evaluates⟩
    · obtain listed | rfl := (vectors vector).mp listed
      · obtain ⟨one, completed, same⟩ := holds.exact.happened vector listed
        exact ⟨one, List.mem_append_left _ completed, same⟩
      · exact ⟨_, List.mem_append_right _ List.mem_cons_self, own⟩
    · obtain listed | listed := List.mem_append.mp listed
      · refine fun stays uncrowded => (holds.exact.recorded one listed stays uncrowded).mono
          (fun vector before => (vectors vector).mpr (.inl before)) fun hit before => ?_
        simp only [Moment.after, hits]
        exact List.mem_append_left _ before
      · obtain rfl := List.mem_singleton.mp listed
        refine fun _ _ => ⟨(vectors _).mpr (.inr own), ?_, fun whose planned' took evaluates' alternative
          taken' => ?_⟩
        · simp only [Moment.after, hits]
          exact List.mem_append_right _ (List.mem_map.mpr ⟨_, List.mem_cons_self, rfl⟩)
        · obtain rfl := only whose planned'
          simp only [Moment.after, hits]
          exact List.mem_append_right _ (List.mem_map.mpr ⟨_, List.mem_cons_of_mem _
            (alternatives_of evaluates' ordered alternative taken'), rfl⟩)
    · simp only [Moment.after, inconsistent] at listed
      obtain ⟨one, completed, of, why⟩ := holds.exact.consistent decision listed
      exact ⟨one, List.mem_append_left _ completed, of, why⟩
  · -- It lacks a condition: the evaluation strayed or was crowded out.
    rw [finish_part ordered part full evaluates] at after_eq
    have lost : moment.course.strays evaluation place = true ∨
        moment.course.crowded evaluation = true := by
      by_contra kept
      obtain ⟨stays, uncrowded⟩ := not_or.mp kept
      exact full (whole (Bool.eq_false_iff.mpr stays) (Bool.eq_false_iff.mpr uncrowded))
    refine ⟨holds.sound.outcome value, serves, lone, ?_, fun vector listed => ?_,
      fun one listed => ?_, fun decision listed => ?_⟩
    · simp only [Moment.after, after_eq]
      exact holds.decided
    · simp only [Moment.after, after_eq] at listed
      obtain ⟨one, completed, same⟩ := holds.exact.happened vector listed
      exact ⟨one, List.mem_append_left _ completed, same⟩
    · obtain listed | listed := List.mem_append.mp listed
      · intro stays uncrowded
        have before := holds.exact.recorded one listed stays uncrowded
        simp only [Moment.after, after_eq]
        exact before.mono (fun _ => id) fun _ => id
      · obtain rfl := List.mem_singleton.mp listed
        intro stays uncrowded
        obtain strays | crowded := lost
        · exact absurd strays (Bool.eq_false_iff.mp stays)
        · exact absurd crowded (Bool.eq_false_iff.mp uncrowded)
    · simp only [Moment.after, after_eq] at listed
      obtain rfl | listed := List.mem_cons.mp listed
      · exact ⟨_, List.mem_append_right _ List.mem_cons_self, rfl, lost⟩
      · obtain ⟨one, completed, of, why⟩ := holds.exact.consistent decision listed
        exact ⟨one, List.mem_append_left _ completed, of, why⟩

theorem Holds.after {moment : Moment} (holds : Holds program moment) {event : Event}
    (fits : Fits program moment.course event) (undisturbed : Undisturbed program moment event) :
    Holds program (moment.after program event) := by
  cases event with
  | condition evaluation place index truth => exact holds.condition fits undisturbed
  | outcome evaluation place value => exact holds.outcome fits undisturbed
  | leave evaluation => exact holds.leave evaluation

end Steps

/-- In a run whose evaluations nothing disturbs, what is recorded is what happened, and an evaluation
that no change of phase interrupted is recorded where at most 64 were open. -/
theorem evaluations_recorded (program : Program) (events : List Event)
    (fits : Along (Moment.after program) (fun moment => Fits program moment.course) {} events)
    (undisturbed : Along (Moment.after program) (Undisturbed program) {} events) :
    Exact program (run (Moment.after program) {} events) :=
  ((fits.and undisturbed).keeps (fun _ _ holds good => holds.after good.1 good.2) Holds.first).exact

/-- One decision, `(a || b) && c`. -/
def several : Program :=
  [.logical .and (.logical .or (.condition 0) (.condition 0) 0) (.condition 0) 0]

/-- Its `c` evaluates it again, to an outcome. -/
def nested : List Event :=
  [.condition 0 (0, 0) 0 true, .condition 1 (0, 0) 0 false, .condition 1 (0, 0) 1 false,
    .outcome 1 (0, 0) false, .condition 0 (0, 0) 2 true, .outcome 0 (0, 0) true]

theorem evaluates_left (first number : Nat) :
    (Predicate.logical .or (.condition 0) (.condition 0) 0).Evaluates first number [(first, true)]
      [(number, false)] true :=
  .stops (.condition true) rfl

theorem evaluates_outer :
    (Predicate.logical .and (.logical .or (.condition 0) (.condition 0) 0) (.condition 0) 0).Evaluates 0 0
      [(0, true), (2, true)] [(0, false), (1, true)] true :=
  .goesOn (evaluates_left 0 0) rfl (.condition true)

theorem evaluates_inner :
    (Predicate.logical .and (.logical .or (.condition 0) (.condition 0) 0) (.condition 0) 0).Evaluates 0 0
      [(0, false), (1, false)] [(0, true), (1, false)] false :=
  .stops (.goesOn (.condition false) rfl (.condition false)) rfl

theorem evaluations_recorded_nested :
    (Along (Moment.after several) (fun moment => Fits several moment.course) {} nested ∧
      Along (Moment.after several) (Undisturbed several) {} nested) ∧ Exact several (run (Moment.after several) {} nested) := by
  have fits : Along (Moment.after several) (fun moment => Fits several moment.course) {} nested := by
    simp [nested, several, Along, Fits, Moment.after, Course.after, Course.crowd, Course.begins,
      Predicate.width, Predicate.leaves]
    exact ⟨⟨_, evaluates_inner⟩, _, evaluates_outer⟩
  have undisturbed : Along (Moment.after several) (Undisturbed several) {} nested := by
    simp [nested, several, Along, Undisturbed, Course.Undisturbed, Course.innermost, Course.Counted,
      Course.openAt, Course.reach, Moment.after, Course.after, Course.crowd, Course.begins,
      Predicate.width, Predicate.leaves, maxOpenEvaluations]
  exact ⟨⟨fits, undisturbed⟩, evaluations_recorded several nested fits undisturbed⟩

/-- Its `c` evaluates it again, and rescues the exception that leaves it. -/
def rescued : List Event :=
  [.condition 0 (0, 0) 0 true, .condition 1 (0, 0) 0 false, .condition 1 (0, 0) 1 true, .leave 1,
    .condition 0 (0, 0) 2 true, .outcome 0 (0, 0) true]

theorem not_evaluations_recorded_rescued : ¬ ∀ (program : Program) (events : List Event),
    Along (Moment.after program) (fun moment => Fits program moment.course) {} events →
      Exact program (run (Moment.after program) {} events) := by
  intro every
  have fits : Along (Moment.after several) (fun moment => Fits several moment.course) {} rescued := by
    simp [rescued, several, Along, Fits, Moment.after, Course.after, Course.crowd, Course.begins,
      Predicate.width, Predicate.leaves]
    exact ⟨_, evaluates_outer⟩
  have mixed : (⟨0, 0, [1, 2, 2], true⟩ : DecisionVector) ∈
      (run (Moment.after several) {} rescued).runtime.vectors := by decide
  obtain ⟨evaluation, completed, same⟩ := (every several rescued fits).happened _ mixed
  have only : (run (Moment.after several) {} rescued).course.completed.map (vectorOf several) =
      [⟨0, 0, [2, 0, 2], true⟩] := by decide
  have member := List.mem_map_of_mem (f := vectorOf several) completed
  rw [only, same] at member
  exact absurd member (by decide)

end Supercov.Ruby.Decisions
