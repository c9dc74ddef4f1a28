import Mathlib.Data.Set.Basic
import Mathlib.Tactic.Common

/-!
# Attribution by sweeping

Facts are noted in one place as they happen and swept now and then: into the total of
all of them, and into the account of the owner at the time.  Where the owner changes
only when nothing is pending, every account holds what happened under its owner.
-/

universe u

@[ext]
structure Sweep (Fact : Type u) where
  pending : Set Fact
  total : Set Fact
  accounts : Nat → Set Fact
  owner : Option Nat

namespace Sweep

variable {Fact : Type u}

def start : Sweep Fact :=
  { pending := ∅, total := ∅, accounts := fun _ => ∅, owner := none }

def note (state : Sweep Fact) (fact : Fact) : Sweep Fact :=
  { state with pending := {other | other ∈ state.pending ∨ other = fact} }

def sweep (state : Sweep Fact) : Sweep Fact :=
  { pending := ∅
    total := {fact | fact ∈ state.total ∨ fact ∈ state.pending}
    accounts := fun owner => {fact | fact ∈ state.accounts owner ∨
      (state.owner = some owner ∧ fact ∈ state.pending)}
    owner := state.owner }

def assign (state : Sweep Fact) (owner : Option Nat) : Sweep Fact := { state with owner := owner }

/-- The state accounts for the log of what happened, each fact under its owner. -/
structure Exact (log : List (Option Nat × Fact)) (state : Sweep Fact) : Prop where
  pending : ∀ fact ∈ state.pending, (state.owner, fact) ∈ log
  total : ∀ fact, (fact ∈ state.total ∨ fact ∈ state.pending) ↔ ∃ owner, (owner, fact) ∈ log
  accounts : ∀ owner fact, (fact ∈ state.accounts owner ∨
    (state.owner = some owner ∧ fact ∈ state.pending)) ↔ (some owner, fact) ∈ log

variable {log : List (Option Nat × Fact)} {state : Sweep Fact} {fact : Fact}

theorem Exact.start : Exact ([] : List (Option Nat × Fact)) start where
  pending := fun _ member => absurd member (Set.notMem_empty _)
  total := by simp [Sweep.start]
  accounts := by simp [Sweep.start]

theorem Exact.note (exact_ : Exact log state) (fact : Fact) :
    Exact (log ++ [(state.owner, fact)]) (state.note fact) where
  pending := by
    intro other member
    rcases member with before | rfl
    · exact List.mem_append_left _ (exact_.pending other before)
    · exact List.mem_append_right _ (List.mem_singleton_self _)
  total := by
    intro other
    simp only [Sweep.note, Set.mem_ofPred_eq, List.mem_append, List.mem_singleton, Prod.mk.injEq,
      exists_or, ← exact_.total other, exists_eq_left, or_assoc]
  accounts := by
    intro owner other
    have before := exact_.accounts owner other
    simp only [Sweep.note, Set.mem_ofPred_eq, List.mem_append, List.mem_singleton, Prod.mk.injEq,
      ← before, and_or_left, or_assoc]
    rw [eq_comm (a := some owner)]

theorem Exact.notes {facts : List Fact} (exact_ : Exact log state) :
    Exact (log ++ facts.map fun fact => (state.owner, fact)) (facts.foldl Sweep.note state) := by
  induction facts generalizing log state with
  | nil => simpa using exact_
  | cons fact facts ih =>
    have rest := ih (exact_.note fact)
    simpa [Sweep.note] using rest

theorem Exact.again (exact_ : Exact log state) (pending : fact ∈ state.pending) :
    Exact (log ++ [(state.owner, fact)]) state := by
  have same : state.note fact = state := by
    have held : {other | other ∈ state.pending ∨ other = fact} = state.pending := by
      ext other
      simp only [Set.mem_ofPred_eq, or_iff_left_iff_imp]
      rintro rfl
      exact pending
    rw [Sweep.note, held]
  have noted := exact_.note fact
  rwa [same] at noted

theorem Exact.sweep (exact_ : Exact log state) : Exact log state.sweep where
  pending := fun _ member => absurd member (Set.notMem_empty _)
  total := by
    intro fact
    rw [← exact_.total fact]
    simp [Sweep.sweep]
  accounts := by
    intro owner fact
    rw [← exact_.accounts owner fact]
    simp [Sweep.sweep]

theorem Exact.assign (exact_ : Exact log state) (owner : Option Nat) :
    Exact log (state.sweep.assign owner) where
  pending := fun _ member => absurd member (Set.notMem_empty _)
  total := exact_.sweep.total
  accounts := by
    intro owner' fact
    rw [← exact_.sweep.accounts owner' fact]
    simp [Sweep.assign, Sweep.sweep]

theorem Exact.mem_total (exact_ : Exact log state) :
    fact ∈ state.sweep.total ↔ ∃ owner, (owner, fact) ∈ log :=
  exact_.total fact

theorem Exact.mem_accounts (exact_ : Exact log state) {owner : Nat} :
    fact ∈ state.sweep.accounts owner ↔ (some owner, fact) ∈ log :=
  exact_.accounts owner fact

end Sweep
