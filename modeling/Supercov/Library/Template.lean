import Mathlib.Data.List.Basic
import Mathlib.Tactic.Common

/-!
# Texts with holes

A text may have holes, each standing for a text of its own, holes included.  A list of
texts fills the first: each hole met takes the next text of the list, which is filled
before what comes after its hole.  What is filled does not depend on how it was done.
-/

universe u

/-- The part before the first hole is where the text says it is. -/
theorem split_unique {α : Type u} {hole : α} {before after before' after' : List α}
    (none : hole ∉ before) (none' : hole ∉ before')
    (same : before ++ hole :: after = before' ++ hole :: after') :
    before = before' ∧ after = after' := by
  induction before generalizing before' with
  | nil =>
    cases before' with
    | nil => exact ⟨rfl, by simpa using same⟩
    | cons first rest =>
      simp only [List.nil_append, List.cons_append, List.cons.injEq] at same
      exact absurd (List.mem_cons.mpr (.inl same.1)) none'
  | cons first rest ih =>
    cases before' with
    | nil =>
      simp only [List.nil_append, List.cons_append, List.cons.injEq] at same
      exact absurd (List.mem_cons.mpr (.inl same.1.symm)) none
    | cons first' rest' =>
      simp only [List.cons_append, List.cons.injEq] at same
      obtain ⟨rfl, same⟩ := same
      obtain ⟨rfl, rfl⟩ := ih (fun found => none (List.mem_cons_of_mem _ found))
        (fun found => none' (List.mem_cons_of_mem _ found)) same
      exact ⟨rfl, rfl⟩

/-- `texts` fill the holes of `pending`, the innermost text first, and give the result. -/
inductive Fills {α : Type u} (hole : α) : List (List α) → List (List α) → List α → Prop where
  | done : Fills hole [] [] []
  | closed {text pending texts result} :
      hole ∉ text →
      Fills hole pending texts result →
      Fills hole (text :: pending) texts (text ++ result)
  | filled {before after text pending texts result} :
      hole ∉ before →
      Fills hole (text :: after :: pending) texts result →
      Fills hole ((before ++ hole :: after) :: pending) (text :: texts) (before ++ result)

namespace Fills

variable {α : Type u} {hole : α} {pending texts : List (List α)} {result : List α}

theorem unique (fills : Fills hole pending texts result) {result' : List α}
    (fills' : Fills hole pending texts result') : result = result' := by
  induction fills generalizing result' with
  | done => cases fills'; rfl
  | @closed text pending texts result none fills ih =>
    generalize opened : text :: pending = whole at fills'
    cases fills' with
    | done => cases opened
    | closed none' fills' =>
      cases opened
      rw [ih fills']
    | filled none' fills' =>
      cases opened
      exact absurd (by simp) none
  | @filled before after text pending texts result none fills ih =>
    generalize opened : (before ++ hole :: after) :: pending = whole at fills'
    cases fills' with
    | closed none' fills' =>
      cases opened
      exact absurd (by simp) none'
    | filled none' fills' =>
      obtain ⟨same, rfl⟩ := List.cons.injEq _ _ _ _ ▸ opened
      obtain ⟨rfl, rfl⟩ := split_unique none none' same
      rw [ih fills']

theorem prepend {before text : List α} (none : hole ∉ before)
    (fills : Fills hole (text :: pending) texts result) :
    Fills hole ((before ++ text) :: pending) texts (before ++ result) := by
  cases fills with
  | closed none' fills =>
    rw [← List.append_assoc]
    exact .closed (by simp [none, none']) fills
  | filled none' fills =>
    rw [← List.append_assoc, ← List.append_assoc]
    exact .filled (by simp [none, none']) fills

end Fills
