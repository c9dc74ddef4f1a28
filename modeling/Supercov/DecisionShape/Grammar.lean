import Supercov.DecisionShape.Reading

/-!
# Decisions as languages write them

A decision is written with the operators and parentheses of its language, and the
language's precedence says which of its trees a text stands for.  One grammar reads them
all: what it reads of a tree is another tree over the same tokens.
-/

namespace Supercov.DecisionShape

open ReadOnce (Formula)

inductive Language where
  | javaScript
  | go
  | java
  | kotlin
  | rust
  | python
  | ruby
  deriving DecidableEq, Repr

/-- An operator is a symbol or a word.  Ruby's `not` with its parenthesis right behind it
is like a call. -/
inductive Spelling where
  | symbol
  | word
  | call
  deriving DecidableEq, Repr

/-- A decision as it is written, down to its parentheses. -/
inductive Decision where
  | condition (index : Nat)
  | group (inner : Decision)
  | not (spelling : Spelling) (inner : Decision)
  | join (isAnd : Bool) (spelling : Spelling) (left right : Decision)
  deriving DecidableEq, Repr

inductive Lexeme where
  | condition (index : Nat)
  | not (spelling : Spelling)
  | join (isAnd : Bool) (spelling : Spelling)
  | opening
  | closing
  deriving DecidableEq, Repr

def Lexeme.token : Lexeme → Token
  | condition index => .condition index
  | not _ => .not
  | join true _ => .and
  | join false _ => .or
  | opening => .opening
  | closing => .closing

def Lexeme.index? : Lexeme → Option Nat
  | condition index => some index
  | _ => none

namespace Decision

def lexemes : Decision → List Lexeme
  | condition index => [.condition index]
  | group inner => .opening :: inner.lexemes ++ [.closing]
  | not spelling inner => .not spelling :: inner.lexemes
  | join isAnd spelling left right => left.lexemes ++ .join isAnd spelling :: right.lexemes

def tokens (decision : Decision) : List Token := decision.lexemes.map Lexeme.token

def formula : Decision → Formula
  | condition index => .condition index
  | group inner => inner.formula
  | not _ inner => .not inner.formula
  | join isAnd _ left right => .junction isAnd left.formula right.formula

def shape : Decision → Shape
  | condition index => .condition index
  | group inner => inner.shape
  | not _ inner => .not inner.shape
  | join true _ left right => .and left.shape right.shape
  | join false _ left right => .or left.shape right.shape

def isGroup : Decision → Bool
  | group _ => true
  | _ => false

/-- How tight a decision binds where `or` binds loosest, then `and`, then `not`. -/
def strength : Decision → Nat
  | join false _ _ _ => 0
  | join true _ _ _ => 1
  | not _ _ => 2
  | _ => 3

end Decision

namespace Language

/-- How tight a decision binds in the language.  Ruby's words bind looser than its
symbols, and `and` and `or` alike. -/
def strength : Language → Decision → Nat
  | ruby, .join _ .word _ _ => 0
  | ruby, .not .word _ => 1
  | ruby, .join false _ _ _ => 2
  | ruby, .join true _ _ _ => 3
  | ruby, .not .symbol _ => 4
  | ruby, _ => 5
  | _, decision => decision.strength

def spells : Language → Spelling → Bool
  | ruby, _ => true
  | python, spelling => spelling = .word
  | _, spelling => spelling = .symbol

/-- The tree is one that the language reads: an operator's sides bind as tight as it does,
and the right one tighter. -/
def Grammatical (language : Language) : Decision → Prop
  | .condition _ => True
  | .group inner => language.Grammatical inner
  | .not spelling inner => language.spells spelling ∧ language.Grammatical inner ∧
    if spelling = .call then inner.isGroup = true
    else language.strength (.not spelling inner) ≤ language.strength inner
  | .join isAnd spelling left right => spelling ≠ .call ∧ language.spells spelling ∧
    language.Grammatical left ∧ language.Grammatical right ∧
    language.strength (.join isAnd spelling left right) ≤ language.strength left ∧
    language.strength (.join isAnd spelling left right) < language.strength right

instance decidableGrammatical (language : Language) : DecidablePred language.Grammatical
  | .condition _ => inferInstanceAs (Decidable True)
  | .group inner => decidableGrammatical language inner
  | .not _ inner =>
    have := decidableGrammatical language inner
    inferInstanceAs (Decidable (_ ∧ _ ∧ _))
  | .join _ _ left right =>
    have := decidableGrammatical language left
    have := decidableGrammatical language right
    inferInstanceAs (Decidable (_ ∧ _ ∧ _ ∧ _ ∧ _ ∧ _))

end Language

/-- The tree is one that `or`, `and` and `not` make in that order of strength. -/
def Uniform : Decision → Prop
  | .condition _ => True
  | .group inner => Uniform inner
  | .not _ inner => Uniform inner ∧ 2 ≤ inner.strength
  | .join isAnd _ left right =>
    Uniform left ∧ Uniform right ∧ isAnd.toNat ≤ left.strength ∧ isAnd.toNat < right.strength

namespace Decision

section Regroup

variable (spelling : Spelling)

/-- The two joined by `or`, whatever the right one is. -/
def joinOr (left : Decision) : Decision → Decision
  | join false between first second => join false between (joinOr left first) second
  | right => join false spelling left right

/-- A decision without `or` of its own joined by `and` to the right one's first operand. -/
def andRight (left : Decision) : Decision → Decision
  | join isAnd between first second => join isAnd between (andRight left first) second
  | right => join true spelling left right

/-- The last operand of the left one and the first of the right one joined by `and`. -/
def joinAnd : Decision → Decision → Decision
  | join false between first second, right => joinOr between first (andRight spelling second right)
  | left, right => andRight spelling left right

def negate : Decision → Decision
  | join isAnd between first second => join isAnd between (negate first) second
  | inner => not spelling inner

end Regroup

/-- The tree that `or`, `and` and `not`, in that order, make of the decision's lexemes. -/
def regroup : Decision → Decision
  | condition index => condition index
  | group inner => group inner.regroup
  | not spelling inner => negate spelling inner.regroup
  | join false spelling left right => joinOr spelling left.regroup right.regroup
  | join true spelling left right => joinAnd spelling left.regroup right.regroup

section Regroup

variable {spelling : Spelling} {left right decision : Decision}

theorem lexemes_joinOr (spelling : Spelling) (left right : Decision) :
    (joinOr spelling left right).lexemes = left.lexemes ++ .join false spelling :: right.lexemes := by
  fun_induction joinOr spelling left right with
  | case1 between first second ih => rw [lexemes, ih, lexemes, List.append_assoc, List.cons_append]
  | case2 right => rfl

theorem lexemes_andRight (spelling : Spelling) (left right : Decision) :
    (andRight spelling left right).lexemes = left.lexemes ++ .join true spelling :: right.lexemes := by
  fun_induction andRight spelling left right with
  | case1 isAnd between first second ih =>
    rw [lexemes, ih, lexemes, List.append_assoc, List.cons_append]
  | case2 right => rfl

theorem lexemes_joinAnd (spelling : Spelling) (left right : Decision) :
    (joinAnd spelling left right).lexemes = left.lexemes ++ .join true spelling :: right.lexemes := by
  fun_cases joinAnd spelling left right with
  | case1 between first second =>
    rw [lexemes_joinOr, lexemes_andRight, lexemes, List.append_assoc, List.cons_append]
  | case2 left => exact lexemes_andRight spelling left right

theorem lexemes_negate (spelling : Spelling) (inner : Decision) :
    (negate spelling inner).lexemes = .not spelling :: inner.lexemes := by
  fun_induction negate spelling inner with
  | case1 isAnd between first second ih => rw [lexemes, ih, lexemes, List.cons_append]
  | case2 inner => rfl

theorem lexemes_regroup (decision : Decision) : decision.regroup.lexemes = decision.lexemes := by
  induction decision with
  | condition index => rfl
  | group inner ih => rw [regroup, lexemes, ih, lexemes]
  | not spelling inner ih => rw [regroup, lexemes_negate, ih, lexemes]
  | join isAnd spelling left right ihLeft ihRight =>
    cases isAnd with
    | false => rw [regroup, lexemes_joinOr, ihLeft, ihRight, lexemes]
    | true => rw [regroup, lexemes_joinAnd, ihLeft, ihRight, lexemes]

theorem uniform_joinOr (first : Uniform left) (second : Uniform right) :
    Uniform (joinOr spelling left right) := by
  fun_induction joinOr spelling left right with
  | case1 between inner last ih => exact ⟨ih second.1, second.2.1, Nat.zero_le _, second.2.2.2⟩
  | case2 right other =>
    refine ⟨first, second, Nat.zero_le _, ?_⟩
    cases right with
    | join isAnd between inner last =>
      cases isAnd with
      | false => exact (other between inner last rfl).elim
      | true => exact Nat.one_pos
    | _ => exact Nat.succ_pos _

theorem uniform_andRight (first : Uniform left) (tight : 1 ≤ left.strength) (second : Uniform right) :
    Uniform (andRight spelling left right) ∧
      min 1 right.strength ≤ (andRight spelling left right).strength := by
  fun_induction andRight spelling left right with
  | case1 isAnd between inner last ih =>
    obtain ⟨own, within, loose, tighter⟩ := second
    obtain ⟨joined, bound⟩ := ih own
    refine ⟨⟨joined, within, ?_, tighter⟩, ?_⟩
    · cases isAnd with
      | false => exact Nat.zero_le _
      | true => exact (Nat.le_min.mpr ⟨Nat.le_refl 1, loose⟩).trans bound
    · cases isAnd <;> exact Nat.min_le_right _ _
  | case2 right other =>
    refine ⟨⟨first, second, tight, ?_⟩, Nat.min_le_left _ _⟩
    cases right with
    | join isAnd between inner last => exact (other isAnd between inner last rfl).elim
    | _ => exact Nat.succ_lt_succ (Nat.succ_pos _)

theorem uniform_joinAnd (first : Uniform left) (second : Uniform right) :
    Uniform (joinAnd spelling left right) := by
  cases left with
  | join isAnd between inner last =>
    cases isAnd with
    | false => exact uniform_joinOr first.1 (uniform_andRight first.2.1 first.2.2.2 second).1
    | true => exact (uniform_andRight first (Nat.le_refl 1) second).1
  | _ => exact (uniform_andRight first (Nat.succ_pos _) second).1

theorem uniform_negate {inner : Decision} (own : Uniform inner) :
    Uniform (negate spelling inner) ∧ min 2 inner.strength ≤ (negate spelling inner).strength := by
  fun_induction negate spelling inner with
  | case1 isAnd between first second ih =>
    obtain ⟨left, right, loose, tighter⟩ := own
    obtain ⟨negated, bound⟩ := ih left
    refine ⟨⟨negated, right, ?_, tighter⟩, ?_⟩
    · have small : isAnd.toNat ≤ 2 := isAnd.toNat_le.trans (Nat.le_succ 1)
      exact (Nat.le_min.mpr ⟨small, loose⟩).trans bound
    · cases isAnd <;> exact Nat.min_le_right _ _
  | case2 inner other =>
    refine ⟨⟨own, ?_⟩, Nat.min_le_left _ _⟩
    cases inner with
    | join isAnd between first second => exact (other isAnd between first second rfl).elim
    | _ => exact Nat.succ_le_succ (Nat.succ_pos _)

theorem uniform_regroup (decision : Decision) : Uniform decision.regroup := by
  induction decision with
  | condition index => trivial
  | group inner ih => exact ih
  | not spelling inner ih => exact (uniform_negate ih).1
  | join isAnd spelling left right ihLeft ihRight =>
    cases isAnd with
    | false => exact uniform_joinOr ihLeft ihRight
    | true => exact uniform_joinAnd ihLeft ihRight

end Regroup

@[simp] theorem formula_shape (decision : Decision) : decision.shape.formula = decision.formula := by
  induction decision with
  | condition index => rfl
  | group inner ih => exact ih
  | not spelling inner ih => rw [shape, Shape.formula, ih, formula]
  | join isAnd spelling left right ihLeft ihRight =>
    cases isAnd <;> rw [shape, Shape.formula, ihLeft, ihRight, formula]

theorem conditions_formula (decision : Decision) :
    decision.formula.conditions = decision.lexemes.filterMap Lexeme.index? := by
  induction decision with
  | condition index => rfl
  | group inner ih => simp [formula, lexemes, ih, List.filterMap_cons, Lexeme.index?]
  | not spelling inner ih => simp [formula, lexemes, Formula.conditions, ih, List.filterMap_cons, Lexeme.index?]
  | join isAnd spelling left right ihLeft ihRight =>
    simp [formula, lexemes, Formula.conditions, ihLeft, ihRight, List.filterMap_cons, Lexeme.index?]

theorem conditions_regroup (decision : Decision) :
    decision.regroup.formula.conditions = decision.formula.conditions := by
  rw [conditions_formula, lexemes_regroup, ← conditions_formula]

end Decision

end Supercov.DecisionShape
