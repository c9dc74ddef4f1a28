import Mathlib.Data.List.TakeWhile
import Supercov.Ruby.Trees

/-!
# Stretches of evaluations, and the frames that stand for them

A stretch is what an evaluation saw in one phase.  While no probe meets another evaluation's stretch
the frames on the runtime's stack stand for the stretches on top; only where too many are open, or a
stretch on top was left, is one without its frame.
-/

namespace Supercov.Ruby.Decisions

open Suspended (Seen lastOf)

section Stretches

/-- What is true of the stretches: each is part of what its evaluation saw, all of it where the
evaluation never was elsewhere, and such an evaluation has one. -/
structure Course.Sound (course : Course) : Prop where
  ordered : ∀ evaluation, (course.seen evaluation).Pairwise (·.1 < ·.1)
  settled : ∀ evaluation, ¬ course.begins evaluation → (course.home evaluation).isSome
  fresh : ∀ evaluation, course.begins evaluation → course.strayed evaluation = false
  begun : ∀ place, ∀ stretch ∈ course.stretches place, stretch.seen ≠ []
  part : ∀ place, ∀ stretch ∈ course.stretches place,
    stretch.seen.Sublist (course.seen stretch.evaluation)
  whole : ∀ place, ∀ stretch ∈ course.stretches place,
    course.strays stretch.evaluation place = false → stretch.seen = course.seen stretch.evaluation
  single : ∀ place, (course.stretches place).Pairwise fun one other =>
    one.evaluation = other.evaluation → course.strays one.evaluation place = true

namespace Course

variable {course : Course} {evaluation : Nat} {place : Place} {index : Nat} {truth : Bool}

theorem Sound.first : ({} : Course).Sound where
  ordered _ := List.Pairwise.nil
  settled _ begun := absurd rfl begun
  fresh _ _ := rfl
  begun _ _ := nofun
  part _ _ := nofun
  whole _ _ := nofun
  single _ := List.Pairwise.nil

theorem Sound.not_begins (sound : course.Sound) {stretch : Stretch}
    (listed : stretch ∈ course.stretches place) : ¬ course.begins stretch.evaluation := by
  intro begins
  have part := sound.part place stretch listed
  rw [show course.seen stretch.evaluation = [] from begins, List.sublist_nil] at part
  exact sound.begun place stretch listed part

theorem reach_cases (course : Course) (evaluation : Nat) (place : Place) (condition : Nat × Bool) :
    (∃ top rest, course.stretches place = top :: rest ∧ top.evaluation = evaluation ∧
      course.reach evaluation place condition =
        { top with seen := top.seen ++ [condition] } :: rest) ∨
    (¬ course.innermost evaluation place ∧
      course.reach evaluation place condition =
        ⟨evaluation, [condition]⟩ :: course.stretches place) := by
  by_cases innermost : course.innermost evaluation place
  · refine .inl ?_
    rw [reach, if_pos innermost]
    cases found : course.stretches place with
    | nil => simp [Course.innermost, found] at innermost
    | cons top rest => exact ⟨top, rest, rfl, by simpa [Course.innermost, found] using innermost, rfl⟩
  · exact .inr ⟨innermost, by rw [reach, if_neg innermost]⟩

section Condition

variable (index truth)

theorem strays_other {other : Nat} (apart : other ≠ evaluation) (at_ : Place) :
    (course.after (.condition evaluation place index truth)).strays other at_ =
      course.strays other at_ := by
  by_cases begins : course.begins evaluation
  · simp [strays, after, crowd, begins, apart]
  · simp [strays, after, crowd, begins, apart]

theorem strays_begun (begun : ¬ course.begins evaluation) (at_ : Place) :
    (course.after (.condition evaluation place index truth)).strays evaluation at_ =
      (course.strays evaluation place || (course.home evaluation).any (· != at_)) := by
  simp [strays, after, crowd, begun]

theorem strays_elsewhere (sound : course.Sound) (begun : ¬ course.begins evaluation) {at_ : Place}
    (elsewhere : at_ ≠ place) :
    (course.after (.condition evaluation place index truth)).strays evaluation at_ = true := by
  rw [strays_begun index truth begun, strays]
  obtain ⟨home, home_eq⟩ := Option.isSome_iff_exists.mp (sound.settled evaluation begun)
  by_cases here : home = place
  · subst here
    simp [home_eq, elsewhere.symm]
  · simp [home_eq, here]

theorem strays_on (begun : ¬ course.begins evaluation) (strays : course.strays evaluation place = true)
    (at_ : Place) :
    (course.after (.condition evaluation place index truth)).strays evaluation at_ = true := by
  rw [strays_begun index truth begun, strays, Bool.true_or]

end Condition

/-- The stretch a condition goes to, and those below it. -/
structure Reaches (course : Course) (evaluation : Nat) (place : Place) (index : Nat) (truth : Bool)
    (new : Stretch) (rest : List Stretch) : Prop where
  reach : course.reach evaluation place (index, truth) = new :: rest
  own : new.evaluation = evaluation
  begun : new.seen ≠ []
  part : new.seen.Sublist (course.seen evaluation ++ [(index, truth)])
  whole : (course.after (.condition evaluation place index truth)).strays evaluation place = false →
    new.seen = course.seen evaluation ++ [(index, truth)]
  below : rest.Sublist (course.stretches place)
  apart : ∀ stretch ∈ rest, stretch.evaluation = evaluation → course.strays evaluation place = true

theorem Sound.reaches (sound : course.Sound)
    (undisturbed : course.Undisturbed (.condition evaluation place index truth)) :
    ∃ new rest, course.Reaches evaluation place index truth new rest := by
  have still (begun : ¬ course.begins evaluation)
      (stays : (course.after (.condition evaluation place index truth)).strays evaluation place = false) :
      course.strays evaluation place = false :=
    Bool.eq_false_iff.mpr fun strays =>
      Bool.eq_false_iff.mp stays (strays_on index truth begun strays place)
  obtain ⟨top, rest, found, top_eq, reach⟩ | ⟨other, reach⟩ :=
    course.reach_cases evaluation place (index, truth)
  · have listed : top ∈ course.stretches place := found ▸ List.mem_cons_self
    refine ⟨_, rest, reach, top_eq, by simp, ?_, fun stays => ?_, found ▸ List.sublist_cons_self _ _,
      fun stretch below own => ?_⟩
    · exact (top_eq ▸ sound.part place top listed).append (List.Sublist.refl _)
    · have begun := sound.not_begins listed
      rw [top_eq] at begun
      have whole := sound.whole place top listed
      rw [top_eq] at whole
      rw [whole (still begun stays)]
    · have single := sound.single place
      rw [found] at single
      exact top_eq ▸ (List.pairwise_cons.mp single).1 stretch below (top_eq.trans own.symm)
  · refine ⟨_, _, reach, rfl, List.cons_ne_nil _ _, List.sublist_append_right _ _, fun stays => ?_,
      List.Sublist.refl _, fun stretch listed own => ?_⟩
    · obtain begins | innermost | ⟨strays, -⟩ := undisturbed
      · rw [show course.seen evaluation = [] from begins, List.nil_append]
      · exact absurd innermost other
      · by_cases begins : course.begins evaluation
        · rw [show course.seen evaluation = [] from begins, List.nil_append]
        · exact absurd strays (Bool.eq_false_iff.mp (still begins stays))
    · obtain begins | innermost | ⟨strays, -⟩ := undisturbed
      · exact absurd begins (own ▸ sound.not_begins listed)
      · exact absurd innermost other
      · exact strays

theorem Sound.condition (sound : course.Sound)
    (increasing : ∀ earlier ∈ course.seen evaluation, earlier.1 < index)
    (undisturbed : course.Undisturbed (.condition evaluation place index truth)) :
    (course.after (.condition evaluation place index truth)).Sound := by
  obtain ⟨new, rest, reaches⟩ := sound.reaches undisturbed
  set later := course.after (.condition evaluation place index truth) with later_eq
  have seen_eq : later.seen =
      Function.update course.seen evaluation (course.seen evaluation ++ [(index, truth)]) := rfl
  have stretches_eq : later.stretches = Function.update course.stretches place (new :: rest) := by
    rw [← reaches.reach]
    rfl
  -- An older stretch of the evaluation is of one that has strayed.
  have older {at_ : Place} {stretch : Stretch} (listed : stretch ∈ course.stretches at_)
      (below : at_ = place → stretch ∈ rest) (own : stretch.evaluation = evaluation) :
      later.strays evaluation at_ = true := by
    have begun : ¬ course.begins evaluation := own ▸ sound.not_begins listed
    by_cases here : at_ = place
    · exact strays_on index truth begun (reaches.apart stretch (below here) own) at_
    · exact strays_elsewhere index truth sound begun here
  have split {at_ : Place} {stretch : Stretch} (listed : stretch ∈ later.stretches at_) :
      (at_ = place ∧ stretch = new) ∨
        (stretch ∈ course.stretches at_ ∧ (at_ = place → stretch ∈ rest)) := by
    rw [stretches_eq] at listed
    by_cases here : at_ = place
    · subst here
      rw [Function.update_self] at listed
      obtain rfl | below := List.mem_cons.mp listed
      · exact .inl ⟨rfl, rfl⟩
      · exact .inr ⟨reaches.below.subset below, fun _ => below⟩
    · rw [Function.update_of_ne here] at listed
      exact .inr ⟨listed, fun same => absurd same here⟩
  refine ⟨?_, ?_, ?_, ?_, ?_, ?_, ?_⟩
  · intro other
    rw [seen_eq]
    by_cases own : other = evaluation
    · subst own
      rw [Function.update_self]
      exact List.pairwise_append.mpr ⟨sound.ordered other, List.pairwise_singleton _ _,
        fun earlier listed last only => List.mem_singleton.mp only ▸ increasing earlier listed⟩
    · rw [Function.update_of_ne own]
      exact sound.ordered other
  · intro other begun
    by_cases begins : course.begins evaluation
    · by_cases own : other = evaluation
      · simp [later, Course.after, crowd, begins, own]
      · have before : ¬ course.begins other := by
          simpa [later, Course.begins, Course.after, crowd, own] using begun
        simpa [later, Course.after, crowd, begins, own] using sound.settled other before
    · have before : ¬ course.begins other := by
        by_cases own : other = evaluation
        · exact own ▸ begins
        · simpa [later, Course.begins, Course.after, crowd, own] using begun
      simpa [later, Course.after, crowd, begins] using sound.settled other before
  · intro other begins
    by_cases own : other = evaluation
    · simp [later, Course.begins, Course.after, crowd, own] at begins
    · have before : course.begins other := by
        simpa [later, Course.begins, Course.after, crowd, own] using begins
      simpa [later, Course.after, crowd, own] using sound.fresh other before
  · intro at_ stretch listed
    obtain ⟨-, rfl⟩ | ⟨listed, -⟩ := split listed
    · exact reaches.begun
    · exact sound.begun at_ stretch listed
  · intro at_ stretch listed
    rw [seen_eq]
    obtain ⟨-, rfl⟩ | ⟨listed, -⟩ := split listed
    · rw [reaches.own, Function.update_self]
      exact reaches.part
    · by_cases own : stretch.evaluation = evaluation
      · rw [own, Function.update_self]
        exact (own ▸ sound.part at_ stretch listed).trans (List.sublist_append_left _ _)
      · rw [Function.update_of_ne own]
        exact sound.part at_ stretch listed
  · intro at_ stretch listed stays
    rw [seen_eq]
    obtain ⟨rfl, rfl⟩ | ⟨listed, below⟩ := split listed
    · rw [reaches.own] at stays ⊢
      rw [Function.update_self]
      exact reaches.whole stays
    · by_cases own : stretch.evaluation = evaluation
      · exact absurd (older listed below own) (by rw [← own, stays]; exact Bool.false_ne_true)
      · rw [Function.update_of_ne own]
        exact sound.whole at_ stretch listed (by rwa [later_eq, strays_other index truth own] at stays)
  · intro at_
    have kept {stretches : List Stretch} (within : stretches.Sublist (course.stretches at_))
        (below : at_ = place → stretches.Sublist rest) :
        stretches.Pairwise fun one other =>
          one.evaluation = other.evaluation → later.strays one.evaluation at_ = true := by
      refine ((sound.single at_).sublist within).imp_of_mem fun {one other} first _ single same => ?_
      by_cases own : one.evaluation = evaluation
      · exact own ▸ older (within.subset first) (fun here => (below here).subset first) own
      · rw [later_eq, strays_other index truth own]
        exact single same
    rw [stretches_eq]
    by_cases here : at_ = place
    · subst here
      rw [Function.update_self]
      refine List.pairwise_cons.mpr ⟨fun stretch below same => ?_,
        kept reaches.below fun _ => List.Sublist.refl _⟩
      rw [reaches.own] at same ⊢
      exact older (reaches.below.subset below) (fun _ => below) same.symm
    · rw [Function.update_of_ne here]
      exact kept (List.Sublist.refl _) fun same => absurd same here

theorem Sound.outcome (sound : course.Sound) (value : Bool) :
    (course.after (.outcome evaluation place value)).Sound := by
  have below (at_ : Place) : ((course.after (.outcome evaluation place value)).stretches at_).Sublist
      (course.stretches at_) := by
    simp only [after]
    split
    · by_cases here : at_ = place
      · subst here
        rw [Function.update_self]
        exact List.tail_sublist _
      · rw [Function.update_of_ne here]
    · exact List.Sublist.refl _
  exact ⟨sound.ordered, sound.settled, sound.fresh,
    fun at_ stretch listed => sound.begun at_ stretch ((below at_).subset listed),
    fun at_ stretch listed => sound.part at_ stretch ((below at_).subset listed),
    fun at_ stretch listed => sound.whole at_ stretch ((below at_).subset listed),
    fun at_ => (sound.single at_).sublist (below at_)⟩

end Course

end Stretches

section Serving

def Course.lives (course : Course) (stretch : Stretch) : Bool := !course.past stretch.evaluation

/-- Frames stand for the stretches on top: for all a stretch saw, or for its end where its evaluation
was crowded out.  Above a stretch without a frame there is one that is over, or it was crowded
out. -/
def Serves (width : Nat) (course : Course) (live : Bool) : List OpenFrame → List Stretch → Prop
  | [], stretches => live = true →
      ∀ stretch ∈ stretches.takeWhile course.lives,
        course.crowded stretch.evaluation = true
  | _ :: _, [] => False
  | frame :: frames, stretch :: stretches =>
      (∃ content, content ≠ [] ∧ content <:+ stretch.seen ∧ frame = frameOf width content ∧
        (course.crowded stretch.evaluation = false → content = stretch.seen)) ∧
      Serves width course (live && course.lives stretch) frames stretches

variable {width : Nat} {course later : Course}

theorem mem_takeWhile_of_imp {α : Type} {one other : α → Bool} (imp : ∀ element, one element = true →
    other element = true) {list : List α} : ∀ element ∈ list.takeWhile one,
      element ∈ list.takeWhile other := by
  induction list with
  | nil => exact fun _ => id
  | cons head tail inductionHypothesis =>
    intro element listed
    cases first : one head with
    | false => simp [first] at listed
    | true =>
      rw [List.takeWhile_cons_of_pos first] at listed
      rw [List.takeWhile_cons_of_pos (imp head first)]
      exact List.mem_cons.mpr ((List.mem_cons.mp listed).imp_right (inductionHypothesis element))

/-- More evaluations are over, and more crowded out. -/
structure Course.Grows (course later : Course) : Prop where
  past : ∀ evaluation, course.past evaluation = true → later.past evaluation = true
  crowded : ∀ evaluation, course.crowded evaluation = true → later.crowded evaluation = true

theorem Course.grows_after (course : Course) (event : Event) : course.Grows (course.after event) := by
  have past (evaluation other : Nat) (before : course.past other = true) :
      Function.update course.past evaluation true other = true := by
    by_cases own : other = evaluation
    · simp [own]
    · simpa [own] using before
  cases event with
  | condition evaluation place index truth =>
    exact ⟨fun _ => id, fun other before => by simp [after, crowd, before]⟩
  | outcome evaluation place value => exact ⟨past evaluation, fun _ => id⟩
  | leave evaluation => exact ⟨past evaluation, fun _ => id⟩

theorem Serves.mono (grows : course.Grows later) {frames : List OpenFrame} : ∀ {live live' : Bool} {stretches : List Stretch},
      (live' = true → live = true) → Serves width course live frames stretches →
        Serves width later live' frames stretches := by
  have still : ∀ stretch, later.lives stretch = true → course.lives stretch = true := by
    intro stretch open_
    cases before : course.past stretch.evaluation with
    | false => simp [Course.lives, before]
    | true => simp [Course.lives, grows.past _ before] at open_
  induction frames with
  | nil =>
    intro live live' stretches less serves lives stretch listed
    exact grows.crowded _ (serves (less lives) stretch (mem_takeWhile_of_imp still stretch listed))
  | cons frame frames inductionHypothesis =>
    intro live live' stretches less serves
    cases stretches with
    | nil => exact serves
    | cons stretch stretches =>
      obtain ⟨⟨content, begun, suffix, frame_eq, whole⟩, rest⟩ := serves
      refine ⟨⟨content, begun, suffix, frame_eq, fun uncrowded => whole ?_⟩, inductionHypothesis ?_ rest⟩
      · exact Bool.eq_false_iff.mpr fun before => Bool.eq_false_iff.mp uncrowded (grows.crowded _ before)
      · intro lives
        obtain ⟨first, second⟩ := Bool.and_eq_true_iff.mp lives
        exact Bool.and_eq_true_iff.mpr ⟨less first, still stretch second⟩

theorem Serves.dropLast {frames : List OpenFrame} : ∀ {live : Bool} {stretches : List Stretch},
    (live = true →
      frames.length ≤ (stretches.takeWhile course.lives).length →
      ∀ stretch ∈ stretches.takeWhile course.lives,
        course.crowded stretch.evaluation = true) →
    Serves width course live frames stretches → Serves width course live frames.dropLast stretches := by
  induction frames with
  | nil => exact fun _ serves => serves
  | cons frame frames inductionHypothesis =>
    intro live stretches crowds serves
    cases stretches with
    | nil => exact serves.elim
    | cons stretch stretches =>
      cases frames with
      | nil =>
        intro lives top listed
        refine crowds lives ?_ top listed
        exact List.length_pos_of_mem listed
      | cons next frames =>
        refine ⟨serves.1, inductionHypothesis (fun lives long top listed => ?_) serves.2⟩
        obtain ⟨first, open_⟩ := Bool.and_eq_true_iff.mp lives
        rw [List.takeWhile_cons_of_pos open_] at crowds
        exact crowds first (Nat.succ_le_succ long) top (List.mem_cons_of_mem _ listed)

def roomy (stack : List OpenFrame) : List OpenFrame :=
  if maxOpenEvaluations ≤ stack.length then stack.dropLast else stack

section Probe

variable {predicate : Predicate} {place : Place} {index : Nat} {truth : Bool} {runtime : Runtime}

theorem opens_of_new (within : index < predicate.width)
    (nested : ∀ frame ∈ (runtime.opens place).head?, (index : Int) ≤ frame.last) :
    (runtime.probeCondition predicate.probeDecision place.1 place.2 index truth).opens =
      Function.update runtime.opens place
        (frameOf predicate.width [(index, truth)] :: roomy (runtime.opens place)) := by
  have first : (⟨(frameOf predicate.width []).values.set index (some truth), index⟩ : OpenFrame) =
      frameOf predicate.width [(index, truth)] := frameOf_concat within (List.forall_mem_nil _) truth
  rw [frameOf_nil] at first
  have width_eq : predicate.probeDecision.width = predicate.width := rfl
  cases found : runtime.opens place with
  | nil => simp_all [Runtime.probeCondition, roomy]
  | cons frame outer =>
    have before : (index : Int) ≤ frame.last := nested frame (by rw [found]; rfl)
    simp_all [Runtime.probeCondition, roomy]

theorem opens_of_next {content : Seen} {outer : List OpenFrame}
    (found : runtime.opens place = frameOf predicate.width content :: outer) (begun : content ≠ [])
    (earlier : ∀ condition ∈ content, condition.1 < index) (within : index < predicate.width) :
    (runtime.probeCondition predicate.probeDecision place.1 place.2 index truth).opens =
      Function.update runtime.opens place
        (frameOf predicate.width (content ++ [(index, truth)]) :: outer) := by
  have next := frameOf_concat within earlier truth
  have after : ¬ (index : Int) ≤ (frameOf predicate.width content).last :=
    Int.not_le.mpr (Suspended.lastOf_lt begun earlier)
  obtain ⟨context, key⟩ := place
  simp only [Runtime.probeCondition, found, if_neg after, List.modifyHead_cons, next]

theorem Course.mem_openAt_of_takeWhile (course : Course) {stretch : Stretch}
    (listed : stretch ∈ (course.stretches place).takeWhile course.lives) :
    stretch.evaluation ∈ course.openAt place := by
  have lives : course.lives stretch = true := List.mem_takeWhile_imp listed
  exact List.mem_filter.mpr
    ⟨List.mem_map_of_mem ((List.takeWhile_sublist _).subset listed), lives⟩

theorem Course.length_takeWhile_le (course : Course) (place : Place) :
    ((course.stretches place).takeWhile course.lives).length ≤ (course.openAt place).length := by
  rw [openAt, List.filter_map, List.length_map]
  have kept := (List.takeWhile_sublist (l := course.stretches place) course.lives).filter course.lives
  rw [List.filter_eq_self.mpr fun stretch listed => List.mem_takeWhile_imp listed] at kept
  exact kept.length_le

theorem crowded_after {evaluation other : Nat}
    (many : maxOpenEvaluations <
      ((course.after (.condition evaluation place index truth)).openAt place).dedup.length)
    (listed : other ∈ (course.after (.condition evaluation place index truth)).openAt place) :
    (course.after (.condition evaluation place index truth)).crowded other = true := by
  simp only [Course.after, Course.crowd, Bool.or_eq_true, Bool.and_eq_true, decide_eq_true_eq]
  exact .inr ⟨many, listed⟩

theorem le_last_of_suffix {content seen : Seen} (begun : content ≠ []) (suffix : content <:+ seen) :
    lastOf content = lastOf seen := by
  obtain ⟨before, rfl⟩ := suffix
  rw [lastOf, lastOf, List.getLast?_append_of_ne_nil _ begun]

theorem Serves.condition {evaluation : Nat} (sound : course.Sound)
    (open_ : course.past evaluation = false)
    (zero : course.begins evaluation → index = 0)
    (earlier : ∀ condition ∈ course.seen evaluation, condition.1 < index)
    (within : index < predicate.width)
    (undisturbed : course.Undisturbed (.condition evaluation place index truth))
    (counted : (course.after (.condition evaluation place index truth)).Counted place)
    (serves : Serves predicate.width course true (runtime.opens place) (course.stretches place)) :
    ∃ stack, (runtime.probeCondition predicate.probeDecision place.1 place.2 index truth).opens =
        Function.update runtime.opens place stack ∧
      Serves predicate.width (course.after (.condition evaluation place index truth)) true stack
        ((course.after (.condition evaluation place index truth)).stretches place) := by
  have grows := course.grows_after (.condition evaluation place index truth)
  have stretches_eq : (course.after (.condition evaluation place index truth)).stretches place =
      course.reach evaluation place (index, truth) := by
    simp [Course.after, Course.crowd]
  rw [stretches_eq]
  obtain ⟨top, rest, found, rfl, reach⟩ | ⟨other, reach⟩ :=
    course.reach_cases evaluation place (index, truth)
  · rw [reach]
    rw [found] at serves
    cases stack : runtime.opens place with
    | nil =>
      -- The frame went when there were too many.
      rw [stack] at serves
      have crowded := serves rfl
      rw [List.takeWhile_cons_of_pos (by simp [Course.lives, open_])] at crowded
      refine ⟨_, opens_of_new within (by simp [stack]), ⟨[(index, truth)], List.cons_ne_nil _ _,
        List.suffix_append _ _, rfl, fun uncrowded => ?_⟩, ?_⟩
      · rw [grows.crowded _ (crowded top List.mem_cons_self)] at uncrowded
        exact absurd uncrowded Bool.false_ne_true.symm
      · rw [stack]
        exact fun _ stretch listed => grows.crowded _ (crowded stretch (List.mem_cons_of_mem _ listed))
    | cons frame outer =>
      rw [stack] at serves
      obtain ⟨⟨content, begun, suffix, rfl, whole⟩, below⟩ := serves
      have part := suffix.sublist.trans (sound.part place top (found ▸ List.mem_cons_self))
      refine ⟨_, opens_of_next stack begun (fun condition listed => earlier condition
        (part.subset listed)) within, ⟨_, by simp, ?_, rfl, fun uncrowded => ?_⟩,
        Serves.mono grows id below⟩
      · obtain ⟨before, seen_eq⟩ := suffix
        exact ⟨before, by rw [← List.append_assoc, seen_eq]⟩
      · rw [whole (Bool.eq_false_iff.mpr fun before => Bool.eq_false_iff.mp uncrowded
          (grows.crowded _ before))]
  · rw [reach]
    have nested : ∀ frame ∈ (runtime.opens place).head?, (index : Int) ≤ frame.last := by
      intro frame first
      obtain ⟨outer, stack⟩ := List.head?_eq_some_iff.mp first
      rw [stack] at serves
      cases found : course.stretches place with
      | nil =>
        rw [found] at serves
        exact serves.elim
      | cons top rest =>
        rw [found] at serves
        obtain ⟨⟨content, begun, suffix, rfl, -⟩, -⟩ := serves
        show (index : Int) ≤ lastOf content
        rw [le_last_of_suffix begun suffix]
        obtain begins | innermost | ⟨-, after⟩ := undisturbed
        · rw [zero begins]
          exact Suspended.lastOf_nonneg (sound.begun place top (found ▸ List.mem_cons_self))
        · exact absurd innermost other
        · have top_begun := sound.begun place top (found ▸ List.mem_cons_self)
          have last := after top (by rw [found]; rfl) _ (List.getLast?_eq_some_getLast top_begun)
          simpa [lastOf, List.getLast?_eq_some_getLast top_begun] using last
    refine ⟨_, opens_of_new within nested, ⟨[(index, truth)], List.cons_ne_nil _ _, List.suffix_rfl, rfl,
      fun _ => rfl⟩, ?_⟩
    have later : Serves predicate.width (course.after (.condition evaluation place index truth))
        (true && (course.after (.condition evaluation place index truth)).lives
          ⟨evaluation, [(index, truth)]⟩)
        (runtime.opens place) (course.stretches place) :=
      Serves.mono grows (fun _ => rfl) serves
    rw [roomy]
    split
    · rename_i full
      refine later.dropLast fun _ long stretch listed => ?_
      have opened : (course.after (.condition evaluation place index truth)).openAt place =
          evaluation :: course.openAt place := by
        have pushed : (course.after (.condition evaluation place index truth)).stretches place =
            ⟨evaluation, [(index, truth)]⟩ :: course.stretches place := stretches_eq.trans reach
        rw [Course.openAt, pushed, List.map_cons]
        exact List.filter_cons_of_pos (by simp [Course.after, Course.crowd, open_])
      refine crowded_after (counted ?_) ?_
      · rw [opened, List.length_cons]
        exact Nat.lt_succ_of_le (Nat.le_trans full (Nat.le_trans long (course.length_takeWhile_le place)))
      · rw [opened]
        exact List.mem_cons_of_mem _ (course.mem_openAt_of_takeWhile listed)
    · exact later

end Probe

theorem Serves.outcome {evaluation : Nat} {place : Place} {frames : List OpenFrame} {value : Bool}
    (open_ : course.past evaluation = false)
    (undisturbed : course.Undisturbed (.outcome evaluation place value))
    (serves : Serves width course true frames (course.stretches place)) :
    Serves width (course.after (.outcome evaluation place value)) true frames.tail
      ((course.after (.outcome evaluation place value)).stretches place) := by
  refine Serves.mono (course.grows_after _) id ?_
  by_cases innermost : course.innermost evaluation place
  · have stretches_eq : (course.after (.outcome evaluation place value)).stretches place =
        (course.stretches place).tail := by
      simp [Course.after, innermost]
    rw [stretches_eq]
    cases found : course.stretches place with
    | nil => simp [Course.innermost, found] at innermost
    | cons top rest =>
      obtain rfl : top.evaluation = evaluation := by simpa [Course.innermost, found] using innermost
      have lives : course.lives top = true := by simp [Course.lives, open_]
      rw [found] at serves
      cases frames with
      | nil =>
        have crowded := serves rfl
        rw [List.takeWhile_cons_of_pos lives] at crowded
        exact fun _ stretch listed => crowded stretch (List.mem_cons_of_mem _ listed)
      | cons frame outer =>
        have below := serves.2
        rwa [lives, Bool.and_true] at below
  · obtain innermost' | ⟨-, none_⟩ := undisturbed
    · exact absurd innermost' innermost
    · have stretches_eq : (course.after (.outcome evaluation place value)).stretches place = [] := by
        simp [Course.after, innermost, none_]
      rw [stretches_eq]
      rw [none_] at serves
      cases frames with
      | nil => exact serves
      | cons frame outer => exact serves.elim

end Serving

end Supercov.Ruby.Decisions
