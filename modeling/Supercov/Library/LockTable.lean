import Mathlib.Data.List.Basic

/-!
# Locks that are shared or exclusive

The table of a lock lists who has it and how.  A handle is granted it exclusively where
nobody has it, and shares it where everybody does.
-/

namespace LockTable

inductive Mode where
  | shared
  | exclusive
  deriving DecidableEq

variable {Handle : Type}

def grants (table : List (Handle × Mode)) : Mode → Bool
  | .shared => table.all (·.2 = .shared)
  | .exclusive => table.isEmpty

def lock (handle : Handle) (mode : Mode) (table : List (Handle × Mode)) :
    Option (List (Handle × Mode)) :=
  if grants table mode then some ((handle, mode) :: table) else none

def Coherent (table : List (Handle × Mode)) : Prop :=
  ∀ handle, (handle, Mode.exclusive) ∈ table → ∀ entry ∈ table, entry = (handle, .exclusive)

theorem mem_lock {handle : Handle} {mode : Mode} {table later : List (Handle × Mode)}
    (locked : lock handle mode table = some later) {entry : Handle × Mode} :
    entry ∈ later ↔ entry = (handle, mode) ∨ entry ∈ table := by
  unfold lock at locked
  split at locked
  · obtain rfl := Option.some.inj locked
    exact List.mem_cons
  · contradiction

theorem ne_nil_of_lock_eq_none {handle : Handle} {table : List (Handle × Mode)}
    (refused : lock handle .exclusive table = none) : ∃ entry, entry ∈ table := by
  cases table with
  | nil => contradiction
  | cons entry table => exact ⟨entry, List.mem_cons_self⟩

theorem lock_eq_none {handle other : Handle} {table : List (Handle × Mode)}
    (had : (other, Mode.exclusive) ∈ table) (mode : Mode) : lock handle mode table = none := by
  refine if_neg fun granted => ?_
  cases mode with
  | exclusive =>
    rw [grants, List.isEmpty_iff] at granted
    rw [granted] at had
    contradiction
  | shared =>
    have shared := List.all_eq_true.mp granted _ had
    simp at shared

namespace Coherent

variable {table later : List (Handle × Mode)}

theorem nil : Coherent ([] : List (Handle × Mode)) := nofun

theorem lock {handle : Handle} {mode : Mode} (coherent : Coherent table)
    (locked : lock handle mode table = some later) : Coherent later := by
  unfold LockTable.lock at locked
  split at locked
  case isFalse => contradiction
  case isTrue grants =>
    obtain rfl := Option.some.inj locked
    cases mode with
    | exclusive =>
      obtain rfl : table = [] := List.isEmpty_iff.mp grants
      intro holder holds entry listed
      rw [List.mem_singleton] at holds listed
      rw [listed, ← holds]
    | shared =>
      intro holder holds
      obtain same | holds := List.mem_cons.mp holds
      · cases same
      · have shared := List.all_eq_true.mp grants _ holds
        simp at shared

theorem filter (coherent : Coherent table) (keeps : Handle × Mode → Bool) :
    Coherent (table.filter keeps) := by
  intro handle holds entry listed
  exact coherent handle (List.mem_filter.mp holds).1 entry (List.mem_filter.mp listed).1

theorem eq_of_exclusive (coherent : Coherent table) {handle other : Handle} {mode : Mode}
    (alone : (handle, .exclusive) ∈ table) (also : (other, mode) ∈ table) :
    other = handle ∧ mode = .exclusive :=
  Prod.mk.inj (coherent handle alone _ also)

end Coherent
end LockTable
