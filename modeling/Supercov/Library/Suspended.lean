import Mathlib.Data.List.Nodup
import Mathlib.Logic.Function.Basic
import Mathlib.Tactic.Common

/-!
# Evaluations that may be suspended

Evaluations of decisions see one condition after another and come to an outcome, or are left
before they do.  Each event happens at some place; an evaluation may be suspended while others
go on at the same place, and go on at another.  It is innermost at a place where it began as
the last of those that have come to no outcome.
-/

namespace Suspended

/-- The conditions an evaluation saw, in order, with their truth. -/
abbrev Seen := List (Nat × Bool)

def lastOf (seen : Seen) : Int := (seen.getLast?.map fun condition => (condition.1 : Int)).getD (-1)

theorem lastOf_concat (seen : Seen) (condition : Nat × Bool) :
    lastOf (seen ++ [condition]) = condition.1 := by
  simp [lastOf]

theorem lastOf_nonneg {seen : Seen} (begun : seen ≠ []) : 0 ≤ lastOf seen := by
  obtain ⟨before, last, rfl⟩ := List.eq_nil_or_concat seen |>.resolve_left begun
  simp [lastOf]

theorem lastOf_lt {seen : Seen} (begun : seen ≠ []) {position : Nat}
    (earlier : ∀ condition ∈ seen, condition.1 < position) : lastOf seen < position := by
  obtain ⟨before, last, rfl⟩ := List.eq_nil_or_concat seen |>.resolve_left begun
  simpa [lastOf] using earlier last (by simp)

inductive Event (Place : Type) where
  | condition (evaluation : Nat) (place : Place) (index : Nat) (truth : Bool)
  | outcome (evaluation : Nat) (place : Place) (value : Bool)
  | leave (evaluation : Nat)
  -- The places forget what is in progress there.
  | reset (places : Place → Bool)

structure Completed (Place : Type) where
  place : Place
  seen : Seen
  outcome : Bool

/-- What happened so far: what each evaluation saw and whether it is over, the evaluations that
began at each place and have come to no outcome, the last one first, and those completed. -/
structure Course (Place : Type) where
  seen : Nat → Seen := fun _ => []
  past : Nat → Bool := fun _ => false
  opened : Place → List Nat := fun _ => []
  completed : List (Completed Place) := []

variable {Place : Type} [DecidableEq Place]

namespace Course

def begins (course : Course Place) (evaluation : Nat) : Prop := course.seen evaluation = []

instance (course : Course Place) (evaluation : Nat) : Decidable (course.begins evaluation) :=
  inferInstanceAs (Decidable (_ = _))

def after (course : Course Place) : Event Place → Course Place
  | .condition evaluation place index truth =>
    { course with
      seen := Function.update course.seen evaluation (course.seen evaluation ++ [(index, truth)])
      opened :=
        if course.begins evaluation then
          Function.update course.opened place (evaluation :: course.opened place)
        else
          course.opened }
  | .outcome evaluation place value =>
    { course with
      past := Function.update course.past evaluation true
      opened := Function.update course.opened place ((course.opened place).erase evaluation)
      completed := course.completed ++ [⟨place, course.seen evaluation, value⟩] }
  | .leave evaluation => { course with past := Function.update course.past evaluation true }
  | .reset places =>
    { course with opened := fun place => if places place then [] else course.opened place }

/-- What an evaluation can do: its conditions come in order from the first on, its outcome after
one of them, and nothing once it is over. -/
def Fits (course : Course Place) : Event Place → Prop
  | .condition evaluation _ index _ => course.past evaluation = false ∧
      (course.begins evaluation → index = 0) ∧ ∀ earlier ∈ course.seen evaluation, earlier.1 < index
  | .outcome evaluation _ _ => course.past evaluation = false ∧ ¬ course.begins evaluation
  | .leave _ => True
  | .reset _ => True

/-- Where an evaluation goes on or comes to its outcome it is the innermost one. -/
def Innermost (course : Course Place) : Event Place → Prop
  | .condition evaluation place _ _ =>
      course.begins evaluation ∨ (course.opened place).head? = some evaluation
  | .outcome evaluation place _ => (course.opened place).head? = some evaluation
  | .leave _ => True
  | .reset _ => True

/-- Every open evaluation has begun, and is open at one place, once. -/
structure Sound (course : Course Place) : Prop where
  begun : ∀ place, ∀ evaluation ∈ course.opened place, ¬ course.begins evaluation
  once : ∀ place, (course.opened place).Nodup
  apart : ∀ place other evaluation, evaluation ∈ course.opened place →
    evaluation ∈ course.opened other → place = other

def frames (course : Course Place) (place : Place) : List Seen :=
  (course.opened place).map course.seen

omit [DecidableEq Place] in
theorem Sound.first : ({} : Course Place).Sound where
  begun _ _ := nofun
  once _ := List.nodup_nil
  apart _ _ _ := nofun

theorem mem_opened_begin {course : Course Place} {evaluation index other : Nat} {place : Place}
    {truth : Bool} (begins : course.begins evaluation) (q : Place) :
    other ∈ (course.after (.condition evaluation place index truth)).opened q ↔
      (q = place ∧ other = evaluation) ∨ other ∈ course.opened q := by
  simp only [after, if_pos begins]
  by_cases same : q = place
  · subst same
    simp
  · simp [same]

theorem not_begins_after {course : Course Place} {evaluation index other : Nat} {place : Place}
    {truth : Bool} (other_ : ¬ course.begins other) :
    ¬ (course.after (.condition evaluation place index truth)).begins other := by
  by_cases same : other = evaluation
  · subst same
    simp [after, begins]
  · simpa [after, begins, same] using other_

theorem Sound.after {course : Course Place} (sound : course.Sound) (event : Event Place) :
    (course.after event).Sound := by
  cases event with
  | leave evaluation => exact ⟨sound.begun, sound.once, sound.apart⟩
  | reset places =>
    have kept {place : Place} {evaluation : Nat}
        (listed : evaluation ∈ (course.after (.reset places)).opened place) :
        evaluation ∈ course.opened place := by
      simp only [Course.after] at listed
      split at listed
      · contradiction
      · exact listed
    refine ⟨fun place evaluation listed => sound.begun place evaluation (kept listed), fun place => ?_,
      fun place other evaluation here there => sound.apart _ _ _ (kept here) (kept there)⟩
    simp only [Course.after]
    split
    · exact List.nodup_nil
    · exact sound.once place
  | outcome evaluation place value =>
    have kept {q : Place} {other : Nat}
        (listed : other ∈ (course.after (.outcome evaluation place value)).opened q) :
        other ∈ course.opened q := by
      by_cases same : q = place
      · subst same
        simp only [Course.after, Function.update_self] at listed
        exact List.mem_of_mem_erase listed
      · simpa [Course.after, same] using listed
    refine ⟨fun q other listed => sound.begun q other (kept listed), fun q => ?_,
      fun q r other here there => sound.apart _ _ _ (kept here) (kept there)⟩
    by_cases same : q = place
    · subst same
      simpa [Course.after] using (sound.once q).erase evaluation
    · simpa [Course.after, same] using sound.once q
  | condition evaluation place index truth =>
    by_cases begins : course.begins evaluation
    · have listed := @mem_opened_begin _ _ course evaluation index
      refine ⟨fun q other mem => ?_, fun q => ?_, fun q r other here there => ?_⟩
      · obtain ⟨-, rfl⟩ | mem := (listed begins q).mp mem
        · simp [Course.after, Course.begins]
        · exact not_begins_after (sound.begun q other mem)
      · by_cases same : q = place
        · subst same
          have fresh : evaluation ∉ course.opened q := fun mem => sound.begun q _ mem begins
          simpa [Course.after, begins] using ⟨fresh, sound.once q⟩
        · simpa [Course.after, begins, same] using sound.once q
      · obtain ⟨rfl, rfl⟩ | already := (listed begins q).mp here
        · obtain ⟨rfl, -⟩ | already := (listed begins r).mp there
          · rfl
          · exact absurd begins (sound.begun r _ already)
        · obtain ⟨rfl, rfl⟩ | also := (listed begins r).mp there
          · exact absurd begins (sound.begun q _ already)
          · exact sound.apart q r other already also
    · have same : (course.after (.condition evaluation place index truth)).opened = course.opened := by
        simp [Course.after, begins]
      refine ⟨fun q other mem => ?_, fun q => ?_, fun q r other here there => ?_⟩
      · rw [same] at mem
        exact not_begins_after (sound.begun q other mem)
      · rw [same]
        exact sound.once q
      · rw [same] at here there
        exact sound.apart q r other here there

end Course

/-- What an event of an innermost evaluation does to the frames. -/
inductive Framed : (Place → List Seen) → Event Place → (Place → List Seen) → Prop where
  | begins {frames : Place → List Seen} (evaluation : Nat) (place : Place) (truth : Bool) :
      Framed frames (.condition evaluation place 0 truth)
        (Function.update frames place ([(0, truth)] :: frames place))
  | continues {frames : Place → List Seen} {place : Place} {seen : Seen} {rest : List Seen}
      {index : Nat} (found : frames place = seen :: rest) (begun : seen ≠ [])
      (earlier : ∀ condition ∈ seen, condition.1 < index) (evaluation : Nat) (truth : Bool) :
      Framed frames (.condition evaluation place index truth)
        (Function.update frames place ((seen ++ [(index, truth)]) :: rest))
  | outcome {frames : Place → List Seen} {place : Place} {seen : Seen} {rest : List Seen}
      (found : frames place = seen :: rest) (begun : seen ≠ []) (evaluation : Nat) (value : Bool) :
      Framed frames (.outcome evaluation place value) (Function.update frames place rest)
  | leave {frames : Place → List Seen} (evaluation : Nat) : Framed frames (.leave evaluation) frames
  | reset {frames : Place → List Seen} (places : Place → Bool) :
      Framed frames (.reset places) fun place => if places place then [] else frames place

omit [DecidableEq Place] in
theorem Course.map_seen_update {course : Course Place} {evaluation : Nat} {seen : Seen}
    {opened : List Nat} (other : evaluation ∉ opened) :
    opened.map (Function.update course.seen evaluation seen) = opened.map course.seen := by
  refine List.map_congr_left fun open_ listed => Function.update_of_ne ?_ ..
  rintro rfl
  exact other listed

theorem Course.framed {course : Course Place} (sound : course.Sound) {event : Event Place}
    (fits : course.Fits event) (innermost : course.Innermost event) :
    Framed course.frames event (course.after event).frames := by
  cases event with
  | leave evaluation => exact .leave evaluation
  | reset places =>
    have same : (course.after (.reset places)).frames =
        fun place => if places place then [] else course.frames place := by
      funext place
      simp only [frames, after]
      split <;> rfl
    rw [same]
    exact .reset places
  | outcome evaluation place value =>
    obtain ⟨rest, opened⟩ := List.head?_eq_some_iff.mp innermost
    have same : (course.after (.outcome evaluation place value)).frames =
        Function.update course.frames place (rest.map course.seen) := by
      funext q
      by_cases at_ : q = place
      · subst at_
        simp [frames, after, opened]
      · simp [frames, after, at_]
    rw [same]
    refine .outcome ?_ fits.2 evaluation value
    rw [frames, opened, List.map_cons]
  | condition evaluation place index truth =>
    obtain ⟨-, zero, earlier⟩ := fits
    by_cases begins : course.begins evaluation
    · obtain rfl := zero begins
      have same : (course.after (.condition evaluation place 0 truth)).frames =
          Function.update course.frames place ([(0, truth)] :: course.frames place) := by
        funext q
        have other : evaluation ∉ course.opened q := fun mem => sound.begun q _ mem begins
        have seen : course.seen evaluation = [] := begins
        by_cases at_ : q = place
        · subst at_
          simp [frames, after, begins, seen, map_seen_update other]
        · simp [frames, after, begins, at_, map_seen_update other]
      rw [same]
      exact .begins evaluation place truth
    · obtain ⟨rest, opened⟩ := List.head?_eq_some_iff.mp (innermost.resolve_left begins)
      have same : (course.after (.condition evaluation place index truth)).frames =
          Function.update course.frames place
            ((course.seen evaluation ++ [(index, truth)]) :: rest.map course.seen) := by
        funext q
        by_cases at_ : q = place
        · subst at_
          have other : evaluation ∉ rest := by
            have once := sound.once q
            rw [opened] at once
            exact (List.nodup_cons.mp once).1
          simp [frames, after, begins, opened, map_seen_update other]
        · have other : evaluation ∉ course.opened q := fun mem =>
            at_ (sound.apart q place evaluation mem (by rw [opened]; exact List.mem_cons_self))
          simp [frames, after, begins, at_, map_seen_update other]
      rw [same]
      refine .continues ?_ begins earlier evaluation truth
      rw [frames, opened, List.map_cons]

end Suspended
