import Supercov.Js.Selections

/-!
# What the tables hold

The leaves that can decide a tree, in evaluation order and each once; the points each hits on its way
up; and what the table answers for the leaf before.
-/

namespace Supercov.Js

variable {α : Type}

namespace Tree

def size : Tree α → Nat
  | leaf _ => 1
  | selection _ _ _ left right => left.size + right.size

/-- The tree's shape, its leaves numbered from `start`. -/
def numbered (start : Nat) : Tree α → SelectionShape
  | leaf _ => .leaf start
  | selection _ operator first left right =>
    .selection first operator.kind (left.numbered start) (right.numbered (start + left.size))

/-- Each leaf's steps below `path`. -/
def steps (path : List Nat) : Tree α → List (List Nat)
  | leaf _ => [path]
  | selection _ operator first left right =>
    left.steps ((first * 4 + operator.kind) :: path) ++ right.steps ((first * 4 + 3) :: path)

theorem size_pos (tree : Tree α) : 0 < tree.size := by
  induction tree with
  | leaf value => exact Nat.one_pos
  | selection parentheses operator first left right leftPositive rightPositive =>
    exact Nat.add_pos_left leftPositive _

@[simp] theorem length_steps (path : List Nat) (tree : Tree α) :
    (tree.steps path).length = tree.size := by
  induction tree generalizing path with
  | leaf value => rfl
  | selection parentheses operator first left right ofLeft ofRight =>
    simp [steps, size, ofLeft, ofRight]

theorem shape_eq (path : List Nat) (tree : Tree α) (leaves : List (List Nat)) :
    shape path tree leaves = (tree.numbered leaves.length, leaves ++ tree.steps path) := by
  induction tree generalizing path leaves with
  | leaf value => rfl
  | selection parentheses operator first left right ofLeft ofRight =>
    simp [shape, numbered, steps, ofLeft, ofRight]

@[simp] theorem leftmost_numbered (start : Nat) (tree : Tree α) :
    (tree.numbered start).leftmost = start := by
  induction tree generalizing start with
  | leaf value => rfl
  | selection parentheses operator first left right ofLeft ofRight => exact ofLeft start

end Tree

/-! ### Deciders -/

/-- The leaves whose value can be the shape's when it is `value`. -/
def SelectionShape.decidersOf (shape : SelectionShape) (value : Value) : List (Nat × List Nat) :=
  shape.deciders value.isTruthy value.isNullish

namespace SelectionShape

variable {decider : Nat} {points : List Nat} {operator : Operator} {value : Value} {first : Nat}
  {shape left right : SelectionShape}

theorem mem_deciders_selection {kind : Nat} {truthy nullish : Bool} {entry : Nat × List Nat} :
    entry ∈ (selection first kind left right).deciders truthy nullish ↔
      (cuts kind truthy nullish ∧ ∃ below ∈ left.deciders truthy nullish,
        entry = (below.1, below.2 ++ [first + truthy.toNat])) ∨
      ∃ below ∈ right.deciders truthy nullish, entry = (below.1, below.2 ++ [first + 2 + truthy.toNat]) := by
  cases cut : cuts kind truthy nullish <;> simp [deciders, cut, eq_comm]

theorem mem_decidersOf_short (cut : operator.short value)
    (decides : (decider, points) ∈ left.decidersOf value) :
    (decider, points ++ [first + value.isTruthy.toNat]) ∈
      (selection first operator.kind left right).decidersOf value := by
  refine mem_deciders_selection.mpr (.inl ⟨?_, _, decides, rfl⟩)
  cases operator <;> exact cut

theorem mem_decidersOf_right (decides : (decider, points) ∈ right.decidersOf value) :
    (decider, points ++ [first + 2 + value.isTruthy.toNat]) ∈
      (selection first operator.kind left right).decidersOf value := by
  exact mem_deciders_selection.mpr (.inr ⟨_, decides, rfl⟩)

theorem deciders_nullish {entry : Nat × List Nat} (decides : entry ∈ shape.deciders false true) :
    entry ∈ shape.deciders false false := by
  induction shape generalizing entry with
  | leaf number => exact decides
  | selection first kind left right ofLeft ofRight =>
    rcases mem_deciders_selection.mp decides with ⟨cut, below, member, same⟩ | ⟨below, member, same⟩
    · refine mem_deciders_selection.mpr (.inl ⟨?_, below, ofLeft member, same⟩)
      simp only [cuts] at cut ⊢
      split_ifs at cut ⊢ <;> simp_all
    · exact mem_deciders_selection.mpr (.inr ⟨below, ofRight member, same⟩)

theorem mem_deciders_before (goes : operator.short value = false)
    (decides : (decider, points) ∈ shape.decidersOf value) :
    (decider, points) ∈
      shape.deciders (decide (operator.kind = 1)) (decide (operator.kind = 2)) := by
  cases operator <;> cases value <;> cases goes
  · exact deciders_nullish decides
  all_goals exact decides

end SelectionShape

/-! ### Steps -/

theorem selectPathV2_left {operator : Operator} {value : Value} {first : Nat} {path : List Nat}
    (cut : operator.short value) :
    selectPathV2 value ((first * 4 + operator.kind) :: path) =
      (first + value.isTruthy.toNat) :: selectPathV2 value path := by
  cases operator <;> cases value <;> cases cut <;>
    simp [selectPathV2, Operator.kind, short, Value.isTruthy, Value.isNullish]

theorem selectPathV2_right {value : Value} {first : Nat} {path : List Nat} :
    selectPathV2 value ((first * 4 + 3) :: path) =
      (first + 2 + value.isTruthy.toNat) :: selectPathV2 value path := by
  cases value <;> simp [selectPathV2, Value.isTruthy]

theorem selectPathV2_goes {operator : Operator} {value : Value} (goes : operator.short value = false)
    (first : Nat) (path : List Nat) :
    selectPathV2 value ((first * 4 + operator.kind) :: path) = [] := by
  cases operator <;> cases value <;> cases goes <;>
    simp [selectPathV2, Operator.kind, short, Value.isTruthy, Value.isNullish]

theorem SelectionShape.cuts_kind (operator : Operator) (value : Value) :
    cuts operator.kind value.isTruthy value.isNullish = operator.short value := by
  cases operator <;> rfl

namespace Tree

variable {tree : Tree α} {start : Nat} {truthy nullish : Bool}

theorem mem_deciders_bounds {entry : Nat × List Nat}
    (member : entry ∈ (tree.numbered start).deciders truthy nullish) :
    start ≤ entry.1 ∧ entry.1 < start + tree.size := by
  induction tree generalizing start entry with
  | leaf value => simp_all [numbered, SelectionShape.deciders, size]
  | selection parentheses operator first left right ofLeft ofRight =>
    rcases SelectionShape.mem_deciders_selection.mp member with
      ⟨-, below, decides, rfl⟩ | ⟨below, decides, rfl⟩
    · have bounds := ofLeft decides
      exact ⟨bounds.1, Nat.lt_of_lt_of_le bounds.2 (by simp only [size]; omega)⟩
    · have bounds := ofRight decides
      exact ⟨Nat.le_trans (Nat.le_add_right _ _) bounds.1,
        Nat.lt_of_lt_of_le bounds.2 (by simp only [size]; omega)⟩

theorem deciders_increasing :
    ((tree.numbered start).deciders truthy nullish).Pairwise fun one other => one.1 < other.1 := by
  induction tree generalizing start with
  | leaf value => simp [numbered, SelectionShape.deciders]
  | selection parentheses operator first left right ofLeft ofRight =>
    simp only [numbered, SelectionShape.deciders]
    refine List.pairwise_append.mpr ⟨?_, ?_, ?_⟩
    · split
      · exact List.pairwise_map.mpr ofLeft
      · exact .nil
    · exact List.pairwise_map.mpr ofRight
    · intro one ofOne other ofOther
      obtain ⟨behind, member, rfl⟩ := List.mem_map.mp ofOther
      have after := mem_deciders_bounds member
      split at ofOne
      · obtain ⟨ahead, member, rfl⟩ := List.mem_map.mp ofOne
        exact Nat.lt_of_lt_of_le (mem_deciders_bounds member).2 after.1
      · simp at ofOne

theorem selectPathV2_steps {value : Value} {path : List Nat} {decider : Nat} {points : List Nat}
    (decides : (decider, points) ∈ (tree.numbered start).decidersOf value) :
    ((tree.steps path)[decider - start]?).map (selectPathV2 value) =
      some (points ++ selectPathV2 value path) := by
  induction tree generalizing start path points with
  | leaf leaf =>
    obtain ⟨rfl, rfl⟩ : decider = start ∧ points = [] := by
      simpa [numbered, SelectionShape.decidersOf, SelectionShape.deciders] using decides
    simp [steps]
  | selection parentheses operator first left right ofLeft ofRight =>
    rcases SelectionShape.mem_deciders_selection.mp decides with
      ⟨cut, ⟨below, hits⟩, member, same⟩ | ⟨⟨below, hits⟩, member, same⟩
    · obtain ⟨rfl, rfl⟩ := Prod.mk.inj same
      have bounds := mem_deciders_bounds member
      have within : decider - start < (left.steps ((first * 4 + operator.kind) :: path)).length := by
        rw [length_steps]; simp only at bounds; omega
      rw [steps, List.getElem?_append_left within, ofLeft member]
      have step : selectPathV2 value ((first * 4 + operator.kind) :: path) = _ :=
        selectPathV2_left (SelectionShape.cuts_kind operator value ▸ cut)
      simp [step]
    · obtain ⟨rfl, rfl⟩ := Prod.mk.inj same
      have bounds := mem_deciders_bounds member
      have beyond : (left.steps ((first * 4 + operator.kind) :: path)).length ≤ decider - start := by
        rw [length_steps]; simp only at bounds; omega
      rw [steps, List.getElem?_append_right beyond, length_steps, Nat.sub_sub, ofRight member]
      simp [selectPathV2_right]

end Tree

/-! ### The table of choices -/

theorem getElem?_resize_set (row : List (List Nat)) (decider : Nat) (points : List Nat)
    (grows : row.length ≤ decider) :
    (∀ leaf < row.length, ((resize row (decider + 1)).set decider points)[leaf]? = row[leaf]?) ∧
    ((resize row (decider + 1)).set decider points)[decider]? = some points ∧
    ((resize row (decider + 1)).set decider points).length = decider + 1 := by
  have longer : (resize row (decider + 1)).length = decider + 1 := by
    simp [resize]; omega
  refine ⟨fun leaf within => ?_, ?_, by rw [List.length_set, longer]⟩
  · rw [List.getElem?_set_ne (by omega), resize, List.getElem?_append_left within]
  · rw [List.getElem?_set_self (by omega)]

theorem getElem?_rows (deciders : List (Nat × List Nat)) (row : List (List Nat))
    (increasing : deciders.Pairwise fun one other => one.1 < other.1)
    (beyond : ∀ entry ∈ deciders, row.length ≤ entry.1) :
    (∀ leaf < row.length, (deciders.foldl (fun row (decider, points) =>
      (resize row (decider + 1)).set decider points) row)[leaf]? = row[leaf]?) ∧
    ∀ entry ∈ deciders, (deciders.foldl (fun row (decider, points) =>
      (resize row (decider + 1)).set decider points) row)[entry.1]? = some entry.2 := by
  induction deciders generalizing row with
  | nil => simp
  | cons entry rest inductionHypothesis =>
    obtain ⟨decider, points⟩ := entry
    obtain ⟨ahead, increasing⟩ := List.pairwise_cons.mp increasing
    obtain ⟨kept, placed, longer⟩ := getElem?_resize_set row decider points (beyond _ List.mem_cons_self)
    obtain ⟨keptLater, placedLater⟩ := inductionHypothesis
      ((resize row (decider + 1)).set decider points) increasing
      fun entry member => by rw [longer]; exact Nat.succ_le_of_lt (ahead entry member)
    have grows := beyond _ List.mem_cons_self
    refine ⟨fun leaf within => ?_, fun entry member => ?_⟩
    · exact (keptLater leaf (by rw [longer]; simp only at grows; omega)).trans (kept leaf within)
    · rcases List.mem_cons.mp member with rfl | member
      · exact (keptLater decider (by rw [longer]; omega)).trans placed
      · exact placedLater entry member

theorem getElem?_byLeaf {deciders : List (Nat × List Nat)} {entry : Nat × List Nat}
    (several : deciders.length > 1)
    (increasing : deciders.Pairwise fun one other => one.1 < other.1) (member : entry ∈ deciders) :
    (byLeaf deciders)[entry.1]? = some entry.2 := by
  rw [byLeaf, if_pos several]
  exact (getElem?_rows deciders [] increasing fun _ _ => Nat.zero_le _).2 entry member

/-! ### What can come before a leaf -/

namespace Tree

/-- The entries hold, for the first leaf of each right side, the left side's deciders. -/
def Entered (entries : List (List (Nat × List Nat))) : Nat → Tree α → Prop
  | _, leaf _ => True
  | start, selection _ operator _ left right =>
    entries[start + left.size]? = some ((left.numbered start).deciders (decide (operator.kind = 1))
      (decide (operator.kind = 2))) ∧
    Entered entries start left ∧ Entered entries (start + left.size) right

theorem Entered.congr {entries others : List (List (Nat × List Nat))} {start : Nat} {tree : Tree α}
    (entered : Entered entries start tree)
    (same : ∀ leaf, start < leaf → leaf < start + tree.size → others[leaf]? = entries[leaf]?) :
    Entered others start tree := by
  induction tree generalizing start with
  | leaf value => trivial
  | selection parentheses operator first left right ofLeft ofRight =>
    obtain ⟨placed, before, behind⟩ := entered
    have leftPositive := left.size_pos
    have rightPositive := right.size_pos
    simp only [size] at same
    refine ⟨?_, ofLeft before fun leaf after within => same leaf after (by omega),
      ofRight behind fun leaf after within => same leaf (by omega) (by omega)⟩
    rw [same _ (by omega) (by omega), placed]

@[simp] theorem length_before (entries : List (List (Nat × List Nat))) (shape : SelectionShape) :
    (shape.before entries).length = entries.length := by
  induction shape generalizing entries with
  | leaf number => rfl
  | selection first kind left right ofLeft ofRight =>
    simp [SelectionShape.before, ofLeft, ofRight]

theorem getElem?_before {entries : List (List (Nat × List Nat))} {start leaf : Nat} {tree : Tree α}
    (outside : leaf ≤ start ∨ start + tree.size ≤ leaf) :
    ((tree.numbered start).before entries)[leaf]? = entries[leaf]? := by
  induction tree generalizing start entries with
  | leaf value => rfl
  | selection parentheses operator first left right ofLeft ofRight =>
    have leftPositive := left.size_pos
    have rightPositive := right.size_pos
    simp only [size] at outside
    rw [numbered, SelectionShape.before, ofRight (by omega), ofLeft (by omega), leftmost_numbered,
      List.getElem?_set_ne (by omega)]

theorem entered_before (entries : List (List (Nat × List Nat))) (start : Nat) {tree : Tree α}
    (within : start + tree.size ≤ entries.length) :
    Entered ((tree.numbered start).before entries) start tree := by
  induction tree generalizing start entries with
  | leaf value => trivial
  | selection parentheses operator first left right ofLeft ofRight =>
    have leftPositive := left.size_pos
    have rightPositive := right.size_pos
    simp only [size] at within
    rw [numbered, SelectionShape.before, leftmost_numbered]
    have leftEntered := ofLeft (entries.set (start + left.size)
      ((left.numbered start).deciders (decide (operator.kind = 1)) (decide (operator.kind = 2)))) start
      (by rw [List.length_set]; omega)
    refine ⟨?_, leftEntered.congr ?_, ofRight _ _ ?_⟩
    · rw [getElem?_before (by omega), getElem?_before (by omega), List.getElem?_set_self (by omega)]
    · exact fun leaf after within => getElem?_before (by omega)
    · rw [length_before, List.length_set]; omega

end Tree

theorem points_recordedBefore {tables : List SelectionTable} {frame leaf decider : Nat}
    {tree : Option Nat} {deciders : List (Nat × List Nat)} {points : List Nat}
    (increasing : deciders.Pairwise fun one other => one.1 < other.1)
    (tabled : deciders.length > 1 → ∃ index table, tree = some index ∧
      tables[index]? = some table ∧ table.choices[leaf]? = some (byLeaf deciders))
    {read : Nat → Option Nat} (holds : read frame = some decider)
    (decides : (decider, points) ∈ deciders) :
    ((recordedBefore frame tree leaf deciders).map (Recorded.points tables read)).getD [] = points := by
  unfold recordedBefore
  by_cases none : deciders.all fun (_, points) => points.isEmpty
  · rw [if_pos none]
    exact (List.isEmpty_iff.mp (List.all_eq_true.mp none _ decides)).symm
  · rw [if_neg none]
    obtain _ | ⟨one, _ | ⟨another, rest⟩⟩ := deciders
    · cases decides
    · obtain rfl := List.mem_singleton.mp decides
      rfl
    · have more : (one :: another :: rest).length > 1 := by simp
      obtain ⟨index, table, rfl, tabled, choices⟩ := tabled more
      have chosen := getElem?_byLeaf more increasing decides
      simp only at chosen
      simp [Recorded.points, selectNextV2, holds, tabled, choices, chosen]

end Supercov.Js
