import Mathlib.Data.List.Basic
import Mathlib.Order.Nat
import Mathlib.Tactic.Common

/-!
# Short-circuit evaluation, and evaluations inside evaluations

A decision is a tree of `&&` and `||` over conditions.  Code evaluates one
condition at a time; what a condition runs may evaluate any decision again, so
the evaluations in progress form a stack.  Probes observe every condition and
every outcome.
-/

namespace ShortCircuit

/-- A decision's expression.  A junction evaluates its right side when its left
side is `goesOn`: `true` for `&&`, `false` for `||`. -/
inductive Shape where
  | condition
  | junction (goesOn : Bool) (left right : Shape)
  deriving DecidableEq, Repr

namespace Shape

@[match_pattern]
abbrev and (left right : Shape) : Shape := junction true left right

@[match_pattern]
abbrev or (left right : Shape) : Shape := junction false left right

def size : Shape → Nat
  | condition => 1
  | junction _ left right => left.size + right.size

end Shape

/-- How far an evaluation has come: to a condition, or to its value. -/
inductive Progress where
  | waiting (index : Nat)
  | done (value : Bool) (unused : List Bool)
  deriving DecidableEq, Repr

/-- Evaluates a shape with the given values of its conditions, which are numbered
from left to right, starting at `base`. -/
def Shape.resume : Shape → Nat → List Bool → Progress
  | condition, base, [] => .waiting base
  | condition, _, value :: rest => .done value rest
  | junction goesOn left right, base, values =>
    match left.resume base values with
    | .waiting index => .waiting index
    | .done value rest =>
      if value = goesOn then right.resume (base + left.size) rest else .done value rest

/-- Observed conditions: an index and a value each. -/
abbrev Seen := List (Nat × Bool)

def Shape.next (shape : Shape) (seen : Seen) : Progress := shape.resume 0 (seen.map Prod.snd)

/-- The observations that an evaluation of the shape can have made so far. -/
inductive Shape.Path (shape : Shape) : Seen → Prop where
  | start : Path shape []
  | observe {seen : Seen} {index : Nat} (value : Bool) :
      Path shape seen → shape.next seen = .waiting index → Path shape (seen ++ [(index, value)])

section Resume

variable {shape : Shape} {base : Nat} {values : List Bool}

theorem Shape.resume_nil (shape : Shape) (base : Nat) : shape.resume base [] = .waiting base := by
  induction shape generalizing base with
  | condition => rfl
  | junction goesOn left right ihLeft _ => rw [resume, ihLeft]

theorem Shape.resume_append {value : Bool} {unused : List Bool}
    (finished : shape.resume base values = .done value unused) (more : List Bool) :
    shape.resume base (values ++ more) = .done value (unused ++ more) := by
  induction shape generalizing base values value unused with
  | condition =>
    cases values with
    | nil => cases finished
    | cons first rest =>
      cases finished
      rfl
  | junction goesOn left right ihLeft ihRight =>
    rw [resume] at finished ⊢
    cases progress : left.resume base values with
    | waiting index => simp [progress] at finished
    | done first rest =>
      rw [ihLeft progress]
      simp only [progress] at finished ⊢
      by_cases on : first = goesOn
      · rw [if_pos on] at finished ⊢
        exact ihRight finished
      · rw [if_neg on] at finished ⊢
        cases finished
        rfl

theorem Shape.waiting_bounds {index : Nat} (waits : shape.resume base values = .waiting index) :
    base ≤ index ∧ index < base + shape.size := by
  induction shape generalizing base values with
  | condition =>
    cases values with
    | nil =>
      cases waits
      exact ⟨le_refl _, Nat.lt_succ_self _⟩
    | cons first rest => cases waits
  | junction goesOn left right ihLeft ihRight =>
    rw [resume] at waits
    cases progress : left.resume base values with
    | waiting other =>
      simp only [progress] at waits
      cases waits
      obtain ⟨low, high⟩ := ihLeft progress
      exact ⟨low, lt_of_lt_of_le high (Nat.add_le_add_left (Nat.le_add_right _ _) _)⟩
    | done first rest =>
      simp only [progress] at waits
      by_cases on : first = goesOn
      · rw [if_pos on] at waits
        obtain ⟨low, high⟩ := ihRight waits
        exact ⟨le_trans (Nat.le_add_right _ _) low, by rwa [Nat.add_assoc] at high⟩
      · rw [if_neg on] at waits
        cases waits

theorem Shape.waiting_lt {earlier index : Nat} {first : Bool} {more : List Bool}
    (waited : shape.resume base values = .waiting earlier)
    (waits : shape.resume base (values ++ first :: more) = .waiting index) : earlier < index := by
  induction shape generalizing base values with
  | condition =>
    cases values with
    | nil => cases waits
    | cons first rest => cases waited
  | junction goesOn left right ihLeft ihRight =>
    rw [resume] at waited waits
    cases progress : left.resume base values with
    | waiting other =>
      simp only [progress] at waited
      cases waited
      cases progress' : left.resume base (values ++ first :: more) with
      | waiting other' =>
        simp only [progress'] at waits
        cases waits
        exact ihLeft progress progress'
      | done value rest =>
        simp only [progress'] at waits
        by_cases on : value = goesOn
        · rw [if_pos on] at waits
          exact lt_of_lt_of_le (waiting_bounds progress).2 (waiting_bounds waits).1
        · rw [if_neg on] at waits
          cases waits
    | done value rest =>
      rw [resume_append progress] at waits
      simp only [progress] at waited waits
      by_cases on : value = goesOn
      · rw [if_pos on] at waited waits
        exact ihRight waited waits
      · rw [if_neg on] at waited
        cases waited

end Resume

section Paths

variable {shape : Shape} {seen : Seen} {index : Nat}

theorem Shape.next_nil (shape : Shape) : shape.next [] = .waiting 0 := shape.resume_nil 0

theorem Shape.next_lt (waits : shape.next seen = .waiting index) : index < shape.size := by
  have := (waiting_bounds waits).2
  rwa [Nat.zero_add] at this

theorem Shape.Path.lt (path : shape.Path seen) (waits : shape.next seen = .waiting index) :
    ∀ observed ∈ seen, observed.1 < index := by
  induction path generalizing index with
  | start => simp
  | @observe seen earlier value path waited ih =>
    have later : earlier < index := by
      have later := waits
      rw [next, List.map_append] at later
      exact waiting_lt waited later
    intro observed member
    rcases List.mem_append.mp member with old | new
    · exact lt_trans (ih waited observed old) later
    · rw [List.mem_singleton.mp new]
      exact later

theorem Shape.Path.pos (path : shape.Path seen) (waits : shape.next seen = .waiting index)
    (begun : seen ≠ []) : 0 < index := by
  obtain ⟨first, rest, rfl⟩ := List.exists_cons_of_ne_nil begun
  exact lt_of_le_of_lt (Nat.zero_le _) (path.lt waits first (by simp))

theorem Shape.Path.mem_zero (path : shape.Path seen) (begun : seen ≠ []) :
    ∃ value, (0, value) ∈ seen := by
  induction path with
  | start => exact absurd rfl begun
  | @observe seen index value path waits ih =>
    by_cases before : seen = []
    · subst before
      rw [next_nil] at waits
      cases waits
      exact ⟨value, by simp⟩
    · obtain ⟨first, member⟩ := ih before
      exact ⟨first, List.mem_append_left _ member⟩

theorem Shape.Path.lt_size (path : shape.Path seen) : ∀ observed ∈ seen, observed.1 < shape.size := by
  induction path with
  | start => simp
  | observe value path waits ih =>
    intro observed member
    rcases List.mem_append.mp member with old | new
    · exact ih observed old
    · rw [List.mem_singleton.mp new]
      exact next_lt waits

end Paths

end ShortCircuit
