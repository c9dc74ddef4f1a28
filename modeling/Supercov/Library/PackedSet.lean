import Mathlib.Data.List.Basic
import Mathlib.Data.Nat.Find
import Mathlib.Tactic.Common

/-!
# Sets of naturals packed into machine words

A set is a list of `w`-bit words, least index first: `i` is a member when bit
`i % w` of word `i / w` is set.  Every operation is stated by its effect on
membership, so a client never looks at a word.
-/

namespace PackedSet

variable {w : Nat}

/-- Whether `i` is in the set. Past the last word nothing is. -/
def contains (s : List (BitVec w)) (i : Nat) : Bool :=
  (s.getD (i / w) 0#w).getLsbD (i % w)

/-- The empty set, with room for `items` members. -/
def empty (w items : Nat) : List (BitVec w) :=
  List.replicate ((items + (w - 1)) / w) 0#w

def insert (s : List (BitVec w)) (i : Nat) : List (BitVec w) :=
  s.modify (i / w) (· ||| 1#w <<< (i % w))

/-- Update each word that has a partner in `t`, and leave the others alone. -/
def update (f : BitVec w → BitVec w → BitVec w) :
    List (BitVec w) → List (BitVec w) → List (BitVec w)
  | [], _ => []
  | s, [] => s
  | a :: s, b :: t => f a b :: update f s t

def removeThrough (s : List (BitVec w)) (i : Nat) : List (BitVec w) :=
  s.mapIdx fun k word =>
    if k < i / w then 0#w
    else if k = i / w then
      word &&& (if i % w + 1 = w then 0#w else BitVec.allOnes w <<< (i % w + 1))
    else word

def first (s : List (BitVec w)) : Option Nat :=
  s.zipIdx.findSome? fun (word, k) =>
    if word ≠ 0#w then some (k * w + word.ctz.toNat) else none

@[simp]
theorem length_insert (s : List (BitVec w)) (i : Nat) :
    (insert s i).length = s.length := by
  simp [insert]

@[simp]
theorem length_update (f : BitVec w → BitVec w → BitVec w) (s t : List (BitVec w)) :
    (update f s t).length = s.length := by
  fun_induction update f s t <;> simp_all

@[simp]
theorem length_removeThrough (s : List (BitVec w)) (i : Nat) :
    (removeThrough s i).length = s.length := by
  simp [removeThrough]

@[simp]
theorem length_empty (items : Nat) : (empty w items).length = (items + (w - 1)) / w := by
  simp [empty]

/-- A set made for `items` members has a word for each of them. -/
theorem word_lt_length_empty {items i : Nat} (hw : 0 < w) (hi : i < items) :
    i / w < (empty w items).length := by
  rw [length_empty]
  have room : i / w * w ≤ i := Nat.div_mul_le_self i w
  rw [Nat.lt_div_iff_mul_lt hw]
  have : w * (i / w) = i / w * w := Nat.mul_comm _ _
  omega

@[simp]
theorem contains_empty (items i : Nat) : contains (empty w items) i = false := by
  unfold contains empty
  rw [List.getD_eq_getElem?_getD, List.getElem?_replicate]
  split <;> simp

theorem eq_of_word_of_bit {i j : Nat} (word : i / w = j / w) (bit : i % w = j % w) : i = j := by
  rw [← Nat.div_add_mod i w, ← Nat.div_add_mod j w, word, bit]

theorem contains_insert (hw : 0 < w) (s : List (BitVec w)) {i : Nat}
    (room : i / w < s.length) (j : Nat) :
    contains (insert s i) j = (decide (j = i) || contains s j) := by
  unfold contains insert
  rw [List.getD_eq_getElem?_getD, List.getD_eq_getElem?_getD, List.getElem?_modify]
  by_cases word : i / w = j / w
  · have bound : j % w < w := Nat.mod_lt j hw
    have here : s[j / w]? = some s[j / w] := List.getElem?_eq_getElem (word ▸ room)
    simp only [word, ↓reduceIte, here, Option.map_eq_map, Option.map_some, Option.getD_some,
      BitVec.getLsbD_or, BitVec.getLsbD_shiftLeft, BitVec.getLsbD_one]
    by_cases bit : i % w = j % w
    · have same : j = i := (eq_of_word_of_bit word bit).symm
      simp [same, Nat.mod_lt i hw, hw]
    · have other : j ≠ i := fun same => bit (by rw [same])
      simp only [other, decide_false, Bool.false_or]
      rw [Bool.or_eq_left_iff_imp]
      simp only [Bool.and_eq_true, decide_eq_true_eq, Bool.not_eq_true', decide_eq_false_iff_not]
      omega
  · have other : j ≠ i := fun same => word (by rw [same])
    simp [word, other]

theorem getElem?_update (f : BitVec w → BitVec w → BitVec w) {s t : List (BitVec w)}
    (same : s.length = t.length) (k : Nat) :
    (update f s t)[k]? = s[k]?.map fun a => f a (t.getD k 0#w) := by
  induction s generalizing t k with
  | nil => simp [update]
  | cons a s ih =>
    cases t with
    | nil => simp at same
    | cons b t =>
      cases k with
      | zero => simp [update]
      | succ k => simpa [update] using ih (by simpa using same) k

theorem contains_and {s t : List (BitVec w)} (same : s.length = t.length) (j : Nat) :
    contains (update (· &&& ·) s t) j = (contains s j && contains t j) := by
  unfold contains
  rw [List.getD_eq_getElem?_getD, getElem?_update _ same, List.getD_eq_getElem?_getD (l := s)]
  cases s[j / w]? <;> simp

theorem contains_andNot (hw : 0 < w) {s t : List (BitVec w)} (same : s.length = t.length)
    (j : Nat) :
    contains (update (fun word mask => word &&& ~~~mask) s t) j =
      (contains s j && !contains t j) := by
  unfold contains
  rw [List.getD_eq_getElem?_getD, getElem?_update _ same, List.getD_eq_getElem?_getD (l := s)]
  cases s[j / w]? <;> simp [Nat.mod_lt j hw]

theorem contains_removeThrough (hw : 0 < w) (s : List (BitVec w)) (i j : Nat) :
    contains (removeThrough s i) j = (decide (i < j) && contains s j) := by
  unfold contains removeThrough
  rw [List.getD_eq_getElem?_getD, List.getElem?_mapIdx, List.getD_eq_getElem?_getD]
  have bound : j % w < w := Nat.mod_lt j hw
  have split_i := Nat.div_add_mod i w
  have split_j := Nat.div_add_mod j w
  cases s[j / w]? with
  | none => simp
  | some word =>
    simp only [Option.map_some, Option.getD_some]
    rcases Nat.lt_trichotomy (j / w) (i / w) with before | at_word | after
    · have small : ¬ i < j := by
        have := Nat.div_le_div_right (c := w) (a := i) (b := j)
        omega
      simp [before, small]
    · have order : i < j ↔ i % w < j % w := by
        rw [at_word] at split_j
        omega
      simp only [at_word, Nat.lt_irrefl, ↓reduceIte, BitVec.getLsbD_and, order]
      by_cases last : i % w + 1 = w
      -- the last bit of a word: nothing of the word is left
      · have : ¬ i % w < j % w := by omega
        simp [last, this]
      · simp only [last, ↓reduceIte, BitVec.getLsbD_shiftLeft, BitVec.getLsbD_allOnes]
        by_cases later : i % w < j % w
        · have : ¬ j % w < i % w + 1 := by omega
          have : j % w - (i % w + 1) < w := by omega
          simp [*]
        · have : j % w < i % w + 1 := by omega
          simp [*]
    · have large : i < j := by
        by_contra h
        have := Nat.div_le_div_right (c := w) (Nat.le_of_not_lt h)
        omega
      have : ¬ j / w < i / w := by omega
      have : j / w ≠ i / w := by omega
      simp [*]

theorem first_cons (word : BitVec w) (s : List (BitVec w)) :
    first (word :: s) =
      if word ≠ 0#w then some word.ctz.toNat else (first s).map (· + w) := by
  unfold first
  rw [List.zipIdx_cons, List.findSome?_cons]
  by_cases zero : word = 0#w
  · simp only [zero, ne_eq, not_true_eq_false, ↓reduceIte]
    rw [List.zipIdx_succ, List.findSome?_map, List.map_findSome?]
    congr 1
    funext ⟨next, k⟩
    by_cases hz : next = 0#w <;> simp [hz, Nat.add_mul, Nat.add_right_comm]
  · simp [zero]

theorem contains_cons_add (hw : 0 < w) (word : BitVec w) (s : List (BitVec w)) (i : Nat) :
    contains (word :: s) (i + w) = contains s i := by
  simp [contains, Nat.add_div_right i hw]

theorem contains_cons_of_lt (word : BitVec w) (s : List (BitVec w)) {i : Nat} (h : i < w) :
    contains (word :: s) i = word.getLsbD i := by
  simp [contains, Nat.div_eq_of_lt h, Nat.mod_eq_of_lt h]

/-- `first` is the least member. -/
theorem first_eq_some_iff (hw : 0 < w) (s : List (BitVec w)) (i : Nat) :
    first s = some i ↔ contains s i = true ∧ ∀ j < i, contains s j = false := by
  induction s generalizing i with
  | nil => simp [first, contains]
  | cons word s ih =>
    rw [first_cons]
    by_cases zero : word = 0#w
    · subst zero
      have low : ∀ j < w, contains (0#w :: s) j = false := fun j h => by
        simp [contains_cons_of_lt _ _ h]
      simp only [ne_eq, not_true_eq_false, ↓reduceIte, Option.map_eq_some_iff]
      constructor
      · rintro ⟨k, found, rfl⟩
        obtain ⟨member, least⟩ := (ih k).mp found
        refine ⟨by rwa [contains_cons_add hw], fun j hj => ?_⟩
        by_cases hjw : j < w
        · exact low j hjw
        · have := least (j - w) (by omega)
          rwa [← contains_cons_add hw 0#w s, Nat.sub_add_cancel (by omega)] at this
      · rintro ⟨member, least⟩
        have hiw : w ≤ i := by
          by_contra h
          simp [low i (by omega)] at member
        refine ⟨i - w, (ih _).mpr ⟨?_, fun j hj => ?_⟩, by omega⟩
        · rwa [← contains_cons_add hw 0#w s, Nat.sub_add_cancel hiw]
        · rw [← contains_cons_add hw 0#w s]
          exact least _ (by omega)
    · have inside : word.ctz.toNat < w := by
        have := BitVec.ctz_lt_iff_ne_zero.mpr zero
        simpa [BitVec.lt_def, Nat.mod_eq_of_lt Nat.lt_two_pow_self] using this
      have set_bit := BitVec.getLsbD_true_ctz_of_ne_zero zero
      simp only [ne_eq, zero, not_false_eq_true, ↓reduceIte, Option.some.injEq]
      constructor
      · rintro rfl
        refine ⟨by rwa [contains_cons_of_lt _ _ inside], fun j hj => ?_⟩
        rw [contains_cons_of_lt _ _ (by omega)]
        exact BitVec.getLsbD_false_of_lt_ctz hj
      · rintro ⟨member, least⟩
        rcases Nat.lt_trichotomy i word.ctz.toNat with less | same | more
        · rw [contains_cons_of_lt _ _ (by omega), BitVec.getLsbD_false_of_lt_ctz less] at member
          simp at member
        · exact same.symm
        · have := least _ more
          rw [contains_cons_of_lt _ _ inside, set_bit] at this
          simp at this

theorem first_eq_none_iff (hw : 0 < w) (s : List (BitVec w)) :
    first s = none ↔ ∀ i, contains s i = false := by
  constructor
  · intro none_found i
    by_contra member
    rw [Bool.not_eq_false] at member
    -- the least member would have been found
    have exists_member : ∃ k, contains s k = true := ⟨i, member⟩
    classical
    have := (first_eq_some_iff hw s (Nat.find exists_member)).mpr
      ⟨Nat.find_spec exists_member, fun j hj => by
        simpa using Nat.find_min exists_member hj⟩
    rw [none_found] at this
    cases this
  · intro no_member
    cases found : first s with
    | none => rfl
    | some i =>
      have := ((first_eq_some_iff hw s i).mp found).1
      rw [no_member i] at this
      cases this

end PackedSet
