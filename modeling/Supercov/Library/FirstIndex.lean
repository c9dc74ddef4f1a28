import Mathlib.Data.List.Basic
import Mathlib.Tactic.Common

/-!
# Scans that stop at the first answer

A loop over a list with its index, left at the first element that answers.
-/

namespace List

variable {α β : Type*}

theorem findSome?_zipIdx_eq_some_iff' (f : α × Nat → Option β) (xs : List α) (start : Nat)
    (b : β) :
    (xs.zipIdx start).findSome? f = some b ↔
      ∃ i x, xs[i]? = some x ∧ f (x, start + i) = some b ∧
        ∀ j < i, ∀ y, xs[j]? = some y → f (y, start + j) = none := by
  induction xs generalizing start with
  | nil => simp
  | cons head tail ih =>
    rw [zipIdx_cons, findSome?_cons]
    cases answer : f (head, start) with
    | some b' =>
      constructor
      · rintro ⟨rfl⟩
        exact ⟨0, head, rfl, answer, by simp⟩
      · rintro ⟨i, x, found, answers, earlier⟩
        cases i with
        | zero =>
          obtain rfl : head = x := by simpa using found
          exact answer.symm.trans answers
        | succ i =>
          have := earlier 0 (Nat.succ_pos i) head rfl
          rw [Nat.add_zero, answer] at this
          cases this
    | none =>
      simp only [ih]
      constructor
      · rintro ⟨i, x, found, answers, earlier⟩
        refine ⟨i + 1, x, by simpa using found, by rwa [Nat.add_right_comm] at answers, ?_⟩
        intro j hj y here
        cases j with
        | zero =>
          obtain rfl : head = y := by simpa using here
          exact answer
        | succ j =>
          have := earlier j (by omega) y (by simpa using here)
          rwa [Nat.add_right_comm] at this
      · rintro ⟨i, x, found, answers, earlier⟩
        cases i with
        | zero =>
          obtain rfl : head = x := by simpa using found
          rw [Nat.add_zero, answer] at answers
          cases answers
        | succ i =>
          refine ⟨i, x, by simpa using found, by rwa [Nat.add_right_comm], ?_⟩
          intro j hj y here
          have := earlier (j + 1) (by omega) y (by simpa using here)
          rwa [Nat.add_right_comm]

/-- The answer of an indexed scan is that of the first element that has one. -/
theorem findSome?_zipIdx_eq_some_iff (f : α × Nat → Option β) (xs : List α) (b : β) :
    xs.zipIdx.findSome? f = some b ↔
      ∃ i x, xs[i]? = some x ∧ f (x, i) = some b ∧
        ∀ j < i, ∀ y, xs[j]? = some y → f (y, j) = none := by
  simpa using findSome?_zipIdx_eq_some_iff' f xs 0 b

theorem findSome?_zipIdx_eq_none_iff (f : α × Nat → Option β) (xs : List α) :
    xs.zipIdx.findSome? f = none ↔ ∀ i x, xs[i]? = some x → f (x, i) = none := by
  rw [findSome?_eq_none_iff]
  constructor
  · intro silent i x found
    exact silent (x, i) (mem_zipIdx_iff_getElem?.mpr found)
  · rintro silent ⟨x, i⟩ member
    exact silent i x (mem_zipIdx_iff_getElem?.mp member)

theorem find?_zipIdx_eq_some_iff (p : α → Bool) (xs : List α) (x : α) (i : Nat) :
    (xs.zipIdx.find? fun entry => p entry.1) = some (x, i) ↔
      xs[i]? = some x ∧ p x = true ∧ ∀ j < i, ∀ y, xs[j]? = some y → p y = false := by
  rw [find?_eq_findSome?_guard, findSome?_zipIdx_eq_some_iff]
  simp only [Option.guard_eq_some_iff, Prod.mk.injEq, Option.guard_eq_none_iff]
  constructor
  · rintro ⟨i', x', found, ⟨⟨rfl, rfl⟩, holds⟩, earlier⟩
    exact ⟨found, holds, fun j hj y here => by simpa using earlier j hj y here⟩
  · rintro ⟨found, holds, earlier⟩
    exact ⟨i, x, found, ⟨⟨rfl, rfl⟩, holds⟩, fun j hj y here => by simpa using earlier j hj y here⟩

end List
