import Mathlib.Data.List.Perm.Subperm
import Supercov.Ruby.Evaluations

/-!
# What the tree of a Ruby decision makes of a frame

A frame with all the conditions an evaluation saw has the evaluation's outcome, and its operators'
alternatives.  One with part of them is found inconsistent, for the tree asks for the first condition
it lacks.
-/

namespace Supercov.Ruby.Decisions

open Suspended (Seen lastOf)

section Trees

theorem evaluateTree_node (values : List (Option Bool)) (op : Operator) (left right : ConditionTree)
    (negate : Bool) :
    evaluateTree values (.node op [left, right] negate) =
      match evaluateTree values left with
      | none => none
      | some result =>
        if op.stops result then some (result != negate)
        else (evaluateTree values right).map (· != negate) := by
  rw [evaluateTree, evaluateItems]
  cases evaluateTree values left with
  | none => rfl
  | some result =>
    simp only
    split
    · rfl
    · rw [evaluateItems]
      cases evaluateTree values right with
      | none => rfl
      | some other => simp [evaluateItems]

namespace Predicate

@[simp] theorem length_logicals (predicate : Predicate) (first : Nat) :
    (predicate.logicals first).length = (predicate.logicals 0).length := by
  induction predicate generalizing first with
  | condition not => rfl
  | logical op left right not inductionLeft inductionRight =>
    simp only [logicals, List.length_append, inductionLeft first, inductionRight (first + left.width),
      inductionRight (0 + left.width), List.length_singleton]

theorem width_logical (op : Operator) (left right : Predicate) (not : Nat) :
    (logical op left right not).width = left.width + right.width := List.length_append

theorem width_pos (predicate : Predicate) : 0 < predicate.width := by
  induction predicate with
  | condition not => exact Nat.one_pos
  | logical op left right not inductionLeft _ =>
    rw [width_logical]
    exact Nat.add_pos_left inductionLeft _

def written (predicate : Predicate) (seen : Nat → Option Bool) : List (Option Bool) :=
  predicate.leaves.mapIdx fun index not => (seen index).map (· != (not % 2 == 1))

/-- The values from a position on are the predicate's conditions as written. -/
def Writes (predicate : Predicate) (first : Nat) (seen : Nat → Option Bool)
    (values : List (Option Bool)) : Prop :=
  ∀ index not, predicate.leaves[index]? = some not →
    values.getD (first + index) none = (seen (first + index)).map (· != (not % 2 == 1))

theorem writes_written (predicate : Predicate) (seen : Nat → Option Bool) :
    predicate.Writes 0 seen (predicate.written seen) := by
  intro index not at_
  simp [written, List.getD, at_]

section Sides

variable {op : Operator} {one other : Predicate} {not first : Nat} {seen : Nat → Option Bool}
  {values : List (Option Bool)}

theorem Writes.left (writes : (logical op one other not).Writes first seen values) :
    one.Writes first seen values := by
  intro index negations at_
  refine writes index negations ?_
  rw [leaves, List.getElem?_append_left (List.getElem?_eq_some_iff.mp at_).1, at_]

theorem Writes.right (writes : (logical op one other not).Writes first seen values) :
    other.Writes (first + one.width) seen values := by
  intro index negations at_
  have whole := writes (one.width + index) negations (by
    rw [leaves, width, List.getElem?_append_right (Nat.le_add_right _ _), Nat.add_sub_cancel_left, at_])
  simpa [Nat.add_assoc] using whole

end Sides

namespace Evaluates

variable {predicate : Predicate} {first number : Nat} {seen : Seen} {taken : List (Nat × Bool)}
  {value : Bool}

theorem within (evaluates : predicate.Evaluates first number seen taken value) :
    ∀ condition ∈ seen, first ≤ condition.1 ∧ condition.1 < first + predicate.width := by
  induction evaluates with
  | condition truth => simp [width, leaves]
  | stops _ _ inductionHypothesis =>
    intro condition listed
    have bounds := inductionHypothesis condition listed
    rw [width_logical]
    omega
  | goesOn _ _ _ inductionLeft inductionRight =>
    intro condition listed
    rw [width_logical]
    obtain listed | listed := List.mem_append.mp listed
    · have bounds := inductionLeft condition listed
      omega
    · have bounds := inductionRight condition listed
      omega

theorem nonempty (evaluates : predicate.Evaluates first number seen taken value) : seen ≠ [] := by
  induction evaluates with
  | condition truth => exact List.cons_ne_nil _ _
  | stops _ _ inductionHypothesis => exact inductionHypothesis
  | goesOn _ _ _ inductionLeft _ => exact List.append_ne_nil_of_left_ne_nil inductionLeft _

variable {held : Nat → Option Bool} {values : List (Option Bool)}

theorem tree_eq (evaluates : predicate.Evaluates first number seen taken value)
    (writes : predicate.Writes first held values)
    (all : ∀ condition ∈ seen, held condition.1 = some condition.2) :
    evaluateTree values (predicate.tree first) = some value := by
  induction evaluates with
  | condition truth =>
    have at_ := writes 0 _ rfl
    have found := all _ List.mem_cons_self
    simp_all [tree, evaluateTree]
  | stops _ stops inductionHypothesis =>
    rw [tree, evaluateTree_node, inductionHypothesis writes.left all]
    simp [stops]
  | goesOn _ goes_on _ inductionLeft inductionRight =>
    rw [tree, evaluateTree_node,
      inductionLeft writes.left fun condition listed => all condition (List.mem_append_left _ listed),
      inductionRight writes.right fun condition listed => all condition (List.mem_append_right _ listed)]
    simp [goes_on]

theorem all_of_tree (evaluates : predicate.Evaluates first number seen taken value)
    (writes : predicate.Writes first held values)
    (some_ : ∀ condition ∈ seen, held condition.1 = none ∨ held condition.1 = some condition.2)
    (decided : (evaluateTree values (predicate.tree first)).isSome) :
    ∀ condition ∈ seen, held condition.1 = some condition.2 := by
  induction evaluates with
  | @condition first _ not truth =>
    have at_ := writes 0 _ rfl
    refine List.forall_mem_singleton.mpr ((some_ _ List.mem_cons_self).resolve_left fun missing => ?_)
    simp_all [tree, evaluateTree]
  | stops _ stops inductionHypothesis =>
    refine inductionHypothesis writes.left some_ ?_
    rw [tree, evaluateTree_node] at decided
    cases found : evaluateTree values _ with
    | none => simp [found] at decided
    | some result => rfl
  | goesOn evaluates goes_on _ inductionLeft inductionRight =>
    obtain ⟨some_left, some_right⟩ := List.forall_mem_append.mp some_
    rw [tree, evaluateTree_node] at decided
    have left_all := inductionLeft writes.left some_left (by
      cases found : evaluateTree values _ with
      | none => simp [found] at decided
      | some result => rfl)
    rw [evaluates.tree_eq writes.left left_all] at decided
    refine List.forall_mem_append.mpr ⟨left_all, inductionRight writes.right some_right ?_⟩
    simpa [goes_on] using decided

def Shows (values : List (Option Bool)) (first width : Nat) (seen : Seen) : Prop :=
  ∀ index, first ≤ index → index < first + width →
    ((values.getD index none).isSome = true ↔ ∃ condition ∈ seen, condition.1 = index)

theorem any_shown {width : Nat} (shows : Shows values first width seen) :
    ((List.range' first width).any fun index => (values.getD index none).isSome) = true ↔
      ∃ condition ∈ seen, first ≤ condition.1 ∧ condition.1 < first + width := by
  rw [List.any_eq_true]
  constructor
  · rintro ⟨index, listed, some_⟩
    obtain ⟨low, high⟩ := List.mem_range'_1.mp listed
    obtain ⟨condition, saw, rfl⟩ := (shows index low high).mp some_
    exact ⟨condition, saw, low, high⟩
  · rintro ⟨condition, saw, low, high⟩
    exact ⟨condition.1, List.mem_range'_1.mpr ⟨low, high⟩,
      (shows condition.1 low high).mpr ⟨condition, saw, rfl⟩⟩

theorem Shows.part {low width : Nat} {whole part : Seen} {start size : Nat}
    (shows : Shows values start size whole) (below : start ≤ low) (above : low + width ≤ start + size)
    (same : ∀ condition, low ≤ condition.1 → condition.1 < low + width →
      (condition ∈ whole ↔ condition ∈ part)) :
    Shows values low width part := by
  intro index from_ under
  refine (shows index (Nat.le_trans below from_) (by omega)).trans ⟨?_, ?_⟩
  · rintro ⟨condition, saw, rfl⟩
    exact ⟨condition, (same condition from_ under).mp saw, rfl⟩
  · rintro ⟨condition, saw, rfl⟩
    exact ⟨condition, (same condition from_ under).mpr saw, rfl⟩

theorem alternative_of (evaluates : predicate.Evaluates first number seen taken value)
    (shows : Shows values first predicate.width seen) :
    ∀ alternative ∈ taken, ∃ place logical, alternative.1 = number + place ∧
      (predicate.logicals first)[place]? = some logical ∧
        DerivedLogical.alternative values logical = some alternative.2 := by
  induction evaluates with
  | condition truth => exact fun _ => nofun
  | @stops op left right first number not seen taken value evaluates _ inductionHypothesis =>
    rw [width_logical] at shows
    have own : Shows values first left.width seen :=
      shows.part (Nat.le_refl _) (Nat.add_le_add_left (Nat.le_add_right _ _) _) fun _ _ _ => Iff.rfl
    have others : Shows values (first + left.width) right.width seen :=
      shows.part (Nat.le_add_right _ _) (Nat.le_of_eq (Nat.add_assoc _ _ _)) fun _ _ _ => Iff.rfl
    refine List.forall_mem_append.mpr ⟨fun alternative listed => ?_, List.forall_mem_singleton.mpr ?_⟩
    · obtain ⟨place, logical, number_eq, at_, took⟩ := inductionHypothesis own alternative listed
      refine ⟨place, logical, number_eq, ?_, took⟩
      rw [logicals, List.append_assoc, List.getElem?_append_left (List.getElem?_eq_some_iff.mp at_).1, at_]
    · refine ⟨(left.logicals 0).length + (right.logicals 0).length,
        ⟨List.range' first left.width, List.range' (first + left.width) right.width⟩,
        Nat.add_assoc _ _ _, by simp [logicals], ?_⟩
      have reached : ∃ condition ∈ seen, first ≤ condition.1 ∧ condition.1 < first + left.width := by
        obtain ⟨condition, listed⟩ := List.exists_mem_of_ne_nil _ evaluates.nonempty
        exact ⟨condition, listed, evaluates.within condition listed⟩
      have skipped : ¬ ∃ condition ∈ seen, first + left.width ≤ condition.1 ∧
          condition.1 < first + left.width + right.width := by
        rintro ⟨condition, listed, beyond, -⟩
        exact absurd (evaluates.within condition listed).2 (Nat.not_lt.mpr beyond)
      rw [DerivedLogical.alternative, if_neg ((any_shown others).not.mpr skipped),
        if_pos ((any_shown own).mpr reached)]
  | @goesOn op left right first number not seen more taken further value result evaluates _ operand
      inductionLeft inductionRight =>
    rw [width_logical] at shows
    have own : Shows values first left.width seen := by
      refine shows.part (Nat.le_refl _) (by omega) fun condition _ under => ?_
      refine List.mem_append.trans (or_iff_left fun later => ?_)
      exact absurd (operand.within condition later).1 (Nat.not_le.mpr under)
    have others : Shows values (first + left.width) right.width more := by
      refine shows.part (Nat.le_add_right _ _) (by omega) fun condition from_ _ => ?_
      refine List.mem_append.trans (or_iff_right fun earlier => ?_)
      exact absurd (evaluates.within condition earlier).2 (Nat.not_lt.mpr from_)
    refine List.forall_mem_append.mpr ⟨List.forall_mem_append.mpr
      ⟨fun alternative listed => ?_, fun alternative listed => ?_⟩, List.forall_mem_singleton.mpr ?_⟩
    · obtain ⟨place, logical, number_eq, at_, took⟩ := inductionLeft own alternative listed
      refine ⟨place, logical, number_eq, ?_, took⟩
      rw [logicals, List.append_assoc, List.getElem?_append_left (List.getElem?_eq_some_iff.mp at_).1, at_]
    · obtain ⟨place, logical, number_eq, at_, took⟩ := inductionRight others alternative listed
      refine ⟨(left.logicals 0).length + place, logical, by omega, ?_, took⟩
      rw [logicals, List.append_assoc, List.getElem?_append_right (by simp), length_logicals left first,
        Nat.add_sub_cancel_left, List.getElem?_append_left (List.getElem?_eq_some_iff.mp at_).1, at_]
    · refine ⟨(left.logicals 0).length + (right.logicals 0).length,
        ⟨List.range' first left.width, List.range' (first + left.width) right.width⟩,
        Nat.add_assoc _ _ _, by simp [logicals], ?_⟩
      have reached : ∃ condition ∈ more, first + left.width ≤ condition.1 ∧
          condition.1 < first + left.width + right.width := by
        obtain ⟨condition, listed⟩ := List.exists_mem_of_ne_nil _ operand.nonempty
        exact ⟨condition, listed, operand.within condition listed⟩
      rw [DerivedLogical.alternative, if_pos ((any_shown others).mpr reached)]

end Evaluates

end Predicate

end Trees

section Frames

def frameOf (width : Nat) (content : Seen) : OpenFrame where
  values := (List.range width).map fun index => content.lookup index
  last := lastOf content

theorem frameOf_nil (width : Nat) : frameOf width [] = ⟨List.replicate width none, -1⟩ := by
  simp [frameOf, lastOf, List.map_const']

theorem frameOf_concat {width index : Nat} {content : Seen} (within : index < width)
    (earlier : ∀ condition ∈ content, condition.1 < index) (value : Bool) :
    (⟨(frameOf width content).values.set index (some value), index⟩ : OpenFrame) =
      frameOf width (content ++ [(index, value)]) := by
  have absent : content.lookup index = none :=
    List.lookup_eq_none_iff.mpr fun condition listed => by
      simpa using Nat.ne_of_gt (earlier condition listed)
  have values : (frameOf width content).values.set index (some value) =
      (frameOf width (content ++ [(index, value)])).values := by
    refine List.ext_getElem (by simp [frameOf]) fun place _ inside => ?_
    by_cases at_ : place = index
    · subst at_
      simp [frameOf, List.lookup_append, absent]
    · have other : (place == index) = false := by simpa using at_
      simp [frameOf, List.lookup_append, Ne.symm at_, List.lookup_cons, other]
  rw [values]
  simp [frameOf, Suspended.lastOf_concat]

theorem negated_frameOf (predicate : Predicate) (content : Seen) :
    negated predicate.probeDecision (frameOf predicate.width content).values =
      predicate.written fun index => content.lookup index := by
  refine List.ext_getElem ?_ fun place _ _ => ?_
  · simp [negated, frameOf, Predicate.written, Predicate.probeDecision, Predicate.width]
  · simp [negated, frameOf, Predicate.written, Predicate.probeDecision]

variable {seen content : Seen}

theorem lookup_eq_of_mem (ordered : seen.Pairwise (·.1 < ·.1)) {condition : Nat × Bool}
    (listed : condition ∈ seen) : seen.lookup condition.1 = some condition.2 := by
  obtain ⟨before, after, rfl⟩ := List.append_of_mem listed
  have apart : ∀ earlier ∈ before, earlier.1 < condition.1 := fun earlier first =>
    (List.pairwise_append.mp ordered).2.2 earlier first condition List.mem_cons_self
  refine List.lookup_eq_some_iff.mpr ⟨before, after, rfl, fun earlier first => ?_⟩
  simpa using Nat.ne_of_gt (apart earlier first)

theorem mem_of_lookup {index : Nat} {truth : Bool} (found : seen.lookup index = some truth) :
    (index, truth) ∈ seen := by
  obtain ⟨before, after, rfl, -⟩ := List.lookup_eq_some_iff.mp found
  exact List.mem_append_right _ List.mem_cons_self

variable {predicate : Predicate} {taken : List (Nat × Bool)} {value : Bool}

theorem tree_of_all (ordered : seen.Pairwise (·.1 < ·.1))
    (evaluates : predicate.Evaluates 0 0 seen taken value) :
    evaluateTree (predicate.written fun index => seen.lookup index) predicate.probeDecision.tree =
      some value :=
  evaluates.tree_eq (predicate.writes_written _) fun _ listed => lookup_eq_of_mem ordered listed

theorem tree_of_part (ordered : seen.Pairwise (·.1 < ·.1)) (part : content.Sublist seen)
    (lacks : content ≠ seen) (evaluates : predicate.Evaluates 0 0 seen taken value) :
    evaluateTree (predicate.written fun index => content.lookup index) predicate.probeDecision.tree =
      none := by
  by_contra decided
  have agrees : ∀ condition ∈ seen, content.lookup condition.1 = none ∨
      content.lookup condition.1 = some condition.2 := by
    intro condition listed
    cases found : content.lookup condition.1 with
    | none => exact .inl rfl
    | some truth =>
      have same := lookup_eq_of_mem ordered (part.subset (mem_of_lookup found))
      exact .inr (same.symm.trans (lookup_eq_of_mem ordered listed))
  have all := evaluates.all_of_tree (predicate.writes_written _) agrees
    (Option.isSome_iff_ne_none.mpr decided)
  have nodup : seen.Nodup := ordered.imp fun less same => by simp [same] at less
  have covers : seen ⊆ content := fun condition listed => mem_of_lookup (all condition listed)
  exact lacks (part.eq_of_length_le (List.subperm_of_subset nodup covers).length_le)

end Frames

end Supercov.Ruby.Decisions
