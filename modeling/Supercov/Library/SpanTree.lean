import Mathlib

/-!
# Trees of nested spans

Spans that are listed in the order they start in, each with the one it is right within, make
a tree.  Of any two the later one is within the earlier or starts where that has ended.  The
last that starts at or before a place is therefore within all those that hold the place.
-/

universe u v

/-- A span that ends before its stop, and the number of the one it is right within. -/
structure Held (Place : Type u) where
  start : Place
  stop : Place
  parent : Option Nat

namespace Held

variable {Place : Type u}

def Holds [LinearOrder Place] (span : Held Place) (place : Place) : Prop :=
  span.start ≤ place ∧ place < span.stop

def map {Place' : Type v} (move : Place → Place') (span : Held Place) : Held Place' where
  start := move span.start
  stop := move span.stop
  parent := span.parent

end Held

section Within

variable {Place : Type u} (spans : List (Held Place))

def RightWithin (inner outer : Nat) : Prop :=
  ∃ span, spans[inner]? = some span ∧ span.parent = some outer

def Within : Nat → Nat → Prop :=
  Relation.ReflTransGen (RightWithin spans)

end Within

/-- The first span is within none.  Each other one is not empty, and within an earlier one. -/
structure SpanTree {Place : Type u} [LinearOrder Place] (spans : List (Held Place)) : Prop where
  root : ∃ span, spans[0]? = some span ∧ span.parent = none
  inside : ∀ index span, 0 < index → spans[index]? = some span →
    span.start < span.stop ∧ ∃ outer holder, span.parent = some outer ∧ outer < index ∧
      spans[outer]? = some holder ∧ holder.start ≤ span.start ∧ span.stop ≤ holder.stop
  ordered : spans.Pairwise fun first second => first.start ≤ second.start
  apart : spans.Pairwise fun first second =>
    first.parent = second.parent → first.stop ≤ second.start

namespace SpanTree

variable {Place : Type u} [LinearOrder Place] {spans : List (Held Place)}

theorem start_le (tree : SpanTree spans) {index later : Nat} {span other : Held Place}
    (le : index ≤ later) (found : spans[index]? = some span) (found' : spans[later]? = some other) :
    span.start ≤ other.start := by
  obtain ⟨within, rfl⟩ := List.getElem?_eq_some_iff.mp found
  obtain ⟨within', rfl⟩ := List.getElem?_eq_some_iff.mp found'
  rcases Nat.eq_or_lt_of_le le with rfl | lt
  · exact le_rfl
  · exact List.pairwise_iff_getElem.mp tree.ordered index later within within' lt

theorem stop_le_of_siblings (tree : SpanTree spans) {index later : Nat} {span other : Held Place}
    (lt : index < later) (found : spans[index]? = some span) (found' : spans[later]? = some other)
    (siblings : span.parent = other.parent) : span.stop ≤ other.start := by
  obtain ⟨within, rfl⟩ := List.getElem?_eq_some_iff.mp found
  obtain ⟨within', rfl⟩ := List.getElem?_eq_some_iff.mp found'
  exact List.pairwise_iff_getElem.mp tree.apart index later within within' lt siblings

theorem parent_lt (tree : SpanTree spans) {index outer : Nat} {span : Held Place}
    (found : spans[index]? = some span) (parent : span.parent = some outer) : outer < index := by
  rcases Nat.eq_zero_or_pos index with rfl | positive
  · obtain ⟨root, found', none⟩ := tree.root
    cases found'.symm.trans found
    cases none.symm.trans parent
  · obtain ⟨-, _, _, parent', lt, -⟩ := tree.inside index span positive found
    cases parent'.symm.trans parent
    exact lt

theorem le_of_within (tree : SpanTree spans) {inner outer : Nat} (within : Within spans inner outer) :
    outer ≤ inner := by
  induction within with
  | refl => exact Nat.le_refl _
  | tail _ step ih =>
    obtain ⟨span, found, parent⟩ := step
    exact Nat.le_trans (Nat.le_of_lt (tree.parent_lt found parent)) ih

theorem stop_le_or_within (tree : SpanTree spans) {later : Nat} {other : Held Place}
    (found' : spans[later]? = some other) {index : Nat} {span : Held Place} (lt : index < later)
    (found : spans[index]? = some span) : span.stop ≤ other.start ∨ Within spans later index := by
  -- The later one's holder comes before it: so it goes for the holder first, and then for
  -- those between the two, one after another.
  induction later using Nat.strong_induction_on generalizing other index span with
  | _ later before =>
  obtain ⟨some, outer, holder, parent, lt', found'', starts, ends⟩ :=
    tree.inside later other (Nat.zero_lt_of_lt lt) found'
  have step : Within spans later outer := .single ⟨other, found', parent⟩
  induction index using Nat.strong_induction_on generalizing span with
  | _ index earlier =>
  rcases Nat.lt_trichotomy index outer with lt'' | rfl | lt''
  · rcases before outer lt' found'' lt'' found with ended | within
    · exact .inl (ended.trans starts)
    · exact .inr (step.trans within)
  · exact .inr step
  · obtain ⟨-, middle, holder', parent', earlierThan, foundMiddle, -, ends'⟩ :=
      tree.inside index span (Nat.zero_lt_of_lt lt'') found
    rcases eq_or_ne middle outer with rfl | ne
    · exact .inl (tree.stop_le_of_siblings lt found found' (parent'.trans parent.symm))
    · rcases earlier middle earlierThan (earlierThan.trans lt) foundMiddle with ended | within
      · exact .inl (ends'.trans ended)
      · -- What holds both, and is not right around the later, is around its holder.
        have above : Within spans outer middle := by
          rcases Relation.ReflTransGen.cases_head within with rfl | ⟨next, ⟨_, same, parent''⟩, rest⟩
          · exact absurd (earlierThan.trans lt) (Nat.lt_irrefl _)
          · cases same.symm.trans found'
            cases parent''.symm.trans parent
            exact rest
        rcases before index lt found lt'' found'' with ended | inside
        · exact absurd (ended.trans (tree.start_le lt.le found found'))
            (not_le.mpr (some.trans_le ends))
        · rcases Relation.ReflTransGen.cases_head inside with rfl | ⟨next, ⟨_, same, parent''⟩, rest⟩
          · exact absurd lt'' (Nat.lt_irrefl _)
          · cases same.symm.trans found
            cases parent''.symm.trans parent'
            exact absurd (Nat.le_antisymm (tree.le_of_within above) (tree.le_of_within rest)) ne

/-- The last to start at or before a place is within all that hold it. -/
theorem within_of_holds (tree : SpanTree spans) {place : Place} {last index : Nat}
    {final span : Held Place} (found : spans[last]? = some final) (starts : final.start ≤ place)
    (behind : ∀ later span, spans[later]? = some span → span.start ≤ place → later ≤ last)
    (found' : spans[index]? = some span) (holds : span.Holds place) : Within spans last index := by
  rcases Nat.eq_or_lt_of_le (behind index span found' holds.1) with rfl | lt
  · exact .refl
  · rcases tree.stop_le_or_within found lt found' with ended | within
    · exact absurd (ended.trans starts) (not_le.mpr holds.2)
    · exact within

/-- One more span, behind the others and within one of them. -/
theorem snoc (tree : SpanTree spans) {span holder : Held Place} {outer : Nat}
    (nonempty : span.start < span.stop) (parent : span.parent = some outer)
    (found : spans[outer]? = some holder) (starts : holder.start ≤ span.start)
    (ends : span.stop ≤ holder.stop) (behind : ∀ other ∈ spans, other.start ≤ span.start)
    (apart : ∀ other ∈ spans, other.parent = some outer → other.stop ≤ span.start) :
    SpanTree (spans ++ [span]) where
  root := by
    obtain ⟨root, first, none⟩ := tree.root
    exact ⟨root, by rw [List.getElem?_append_left (List.getElem?_eq_some_iff.mp first).1, first],
      none⟩
  inside := by
    intro index other positive found'
    rcases Nat.lt_or_ge index spans.length with lt | ge
    · rw [List.getElem?_append_left lt] at found'
      obtain ⟨nonempty, outer, holder, parent, lt', found'', inside⟩ :=
        tree.inside index other positive found'
      exact ⟨nonempty, outer, holder, parent, lt', by
        rw [List.getElem?_append_left (lt'.trans lt), found''], inside⟩
    · rw [List.getElem?_append_right ge, List.getElem?_singleton] at found'
      have lt := (List.getElem?_eq_some_iff.mp found).1
      split at found'
      · cases found'
        exact ⟨nonempty, outer, holder, parent, lt.trans_le ge, by
          rw [List.getElem?_append_left lt, found], starts, ends⟩
      · cases found'
  ordered := List.pairwise_append.mpr ⟨tree.ordered, List.pairwise_singleton _ _,
    fun other member _ same => (List.mem_singleton.mp same) ▸ behind other member⟩
  apart := by
    refine List.pairwise_append.mpr ⟨tree.apart, List.pairwise_singleton _ _, ?_⟩
    intro other member last same siblings
    cases List.mem_singleton.mp same
    exact apart other member (siblings.trans parent)

theorem map {Place' : Type v} [LinearOrder Place'] (tree : SpanTree spans) {move : Place → Place'}
    (strict : StrictMono move) : SpanTree (spans.map (Held.map move)) where
  root := by
    obtain ⟨root, found, none⟩ := tree.root
    exact ⟨root.map move, by rw [List.getElem?_map, found]; rfl, none⟩
  inside := by
    intro index span positive found
    rw [List.getElem?_map] at found
    obtain ⟨before, found'', rfl⟩ := Option.map_eq_some_iff.mp found
    obtain ⟨nonempty, outer, holder, parent, lt, found', starts, ends⟩ :=
      tree.inside index before positive found''
    exact ⟨strict nonempty, outer, holder.map move, parent, lt, by rw [List.getElem?_map, found']; rfl,
      strict.monotone starts, strict.monotone ends⟩
  ordered := List.pairwise_map.mpr (tree.ordered.imp fun le => strict.monotone le)
  apart := List.pairwise_map.mpr (tree.apart.imp fun apart siblings =>
    strict.monotone (apart siblings))

end SpanTree
