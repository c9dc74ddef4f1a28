import Supercov.Jvm.Decisions
import Mathlib.Data.List.Nodup

/-!
# Which expressions are decisions

A `&&` or `||` belongs to the largest expression that `&&`, `||` and parentheses make of
it.  The walk tells by what stands right around an operator whether it is part of a larger
one, and leaves out the conditions of `if`s and loops.
-/

namespace Supercov.Jvm

namespace Node

def joined : Node → List Nat
  | node@(.binary _ operator left right) =>
    if node.isLogical then left.joined ++ operator.start :: right.joined else []
  | .parenthesized _ inner => inner.joined
  | _ => []

mutual

def operators : Node → List Nat
  | node@(.binary _ operator left right) =>
    left.operators ++ ((if node.isLogical then [operator.start] else []) ++ right.operators)
  | .parenthesized _ inner => inner.operators
  | .branch _ _ before condition after =>
    operatorsAll before ++ (condition.operators ++ operatorsAll after)
  | .plain _ _ children => operatorsAll children

def operatorsAll : List Node → List Nat
  | [] => []
  | node :: rest => node.operators ++ operatorsAll rest

end

mutual

/-- The largest expressions of `&&` and `||`, where the node itself may stand as an operand
of one, in any parentheses. -/
def maximals (operand : Bool) : Node → List Node
  | node@(.binary _ _ left right) =>
    if node.isLogical then
      (if operand then [] else [node]) ++ (left.maximals true ++ right.maximals true)
    else left.maximals false ++ right.maximals false
  | .parenthesized _ inner => inner.maximals operand
  | .branch _ _ before condition after =>
    maximalsAll before ++ (condition.maximals false ++ maximalsAll after)
  | .plain _ _ children => maximalsAll children

def maximalsAll : List Node → List Node
  | [] => []
  | node :: rest => node.maximals false ++ maximalsAll rest

end

mutual

/-- A `&&` or `||` stands where a value must stay a compile-time constant. -/
def holdsConstant (constant : Bool) : Node → Bool
  | node@(.binary _ _ left right) =>
    (node.isLogical && constant) || left.holdsConstant constant || right.holdsConstant constant
  | .parenthesized _ inner => inner.holdsConstant constant
  | .branch _ _ before condition after => holdsConstantAny constant before ||
    condition.holdsConstant constant || holdsConstantAny constant after
  | node@(.plain _ _ children) => holdsConstantAny (node.constantContext.getD constant) children

def holdsConstantAny (constant : Bool) : List Node → Bool
  | [] => false
  | node :: rest => node.holdsConstant constant || holdsConstantAny constant rest

end

mutual

/-- Every operator is told apart rightly.  `operand` counts the parentheses around an operand
of a larger expression.  In the condition of an `if` or a loop each is part of the
condition's own expression; elsewhere an operand has one pair of parentheses at most. -/
def ToldApart (measured : Bool) (operand : Option Nat) : Node → Prop
  | node@(.binary _ _ left right) =>
    if node.isLogical then
      (if measured then operand.isSome = true else ∀ pairs ∈ operand, pairs ≤ 1) ∧
        left.ToldApart measured (some 0) ∧ right.ToldApart measured (some 0)
    else left.ToldApart measured none ∧ right.ToldApart measured none
  | .parenthesized _ inner => inner.ToldApart measured (operand.map (· + 1))
  | .branch _ _ before condition after => ToldApartAll measured before ∧
    condition.ToldApart true (some 0) ∧ ToldApartAll measured after
  | node@(.plain _ _ children) => ToldApartAll (measured && !node.startsCode) children

def ToldApartAll (measured : Bool) : List Node → Prop
  | [] => True
  | node :: rest => node.ToldApart measured none ∧ ToldApartAll measured rest

end

section Binary

variable {token operator : Token} {left right : Node} {measured : Bool} {operand : Option Nat}

theorem joined_logical (logical : (binary token operator left right).isLogical = true) :
    (binary token operator left right).joined = left.joined ++ operator.start :: right.joined := by
  rw [joined, if_pos logical]

theorem joined_other (other : (binary token operator left right).isLogical = false) :
    (binary token operator left right).joined = [] := by
  rw [joined, if_neg (Bool.eq_false_iff.mp other)]

theorem operators_logical (logical : (binary token operator left right).isLogical = true) :
    (binary token operator left right).operators = left.operators ++ operator.start :: right.operators := by
  rw [operators, if_pos logical]
  rfl

theorem operators_other (other : (binary token operator left right).isLogical = false) :
    (binary token operator left right).operators = left.operators ++ right.operators := by
  rw [operators, if_neg (Bool.eq_false_iff.mp other)]
  rfl

theorem toldApart_logical (logical : (binary token operator left right).isLogical = true) :
    (binary token operator left right).ToldApart measured operand ↔
      (if measured then operand.isSome = true else ∀ pairs ∈ operand, pairs ≤ 1) ∧
        left.ToldApart measured (some 0) ∧ right.ToldApart measured (some 0) := by
  rw [ToldApart, if_pos logical]

theorem toldApart_other (other : (binary token operator left right).isLogical = false) :
    (binary token operator left right).ToldApart measured operand ↔
      left.ToldApart measured none ∧ right.ToldApart measured none := by
  rw [ToldApart, if_neg (Bool.eq_false_iff.mp other)]

end Binary

end Node

def belonging (decisions : List Decision) : List Nat :=
  decisions.flatMap fun decision => decision.node.joined

section Belonging

variable {language : JvmLanguage} {above : List Ancestor} {node : Node}

@[simp] theorem belonging_append (decisions others : List Decision) :
    belonging (decisions ++ others) = belonging decisions ++ belonging others := List.flatMap_append

theorem length_conditionNodes : ∀ node : Node, node.conditionNodes.length = node.joined.length + 1
  | .binary token operator left right => by
    rw [Node.conditionNodes, Node.joined]
    split
    · rw [List.length_append, List.length_append, List.length_cons, length_conditionNodes left,
        length_conditionNodes right]
      omega
    · rfl
  | .parenthesized _ inner => length_conditionNodes inner
  | .branch .. => rfl
  | .plain .. => rfl

theorem joined_sublist : ∀ node : Node, node.joined.Sublist node.operators
  | .binary token operator left right => by
    rw [Node.joined, Node.operators]
    split
    · exact (joined_sublist left).append ((joined_sublist right).cons_cons _)
    · exact List.nil_sublist _
  | .parenthesized _ inner => joined_sublist inner
  | .branch .. => List.nil_sublist _
  | .plain .. => List.nil_sublist _

theorem belonging_addDecision (node : Node) (kind : String) :
    belonging (addDecision node kind).toList = node.joined := by
  rw [addDecision, length_conditionNodes]
  split
  · next few =>
    rw [List.length_eq_zero_iff.mp (Nat.lt_one_iff.mp (Nat.lt_of_succ_lt_succ few))]
    rfl
  · exact List.append_nil _

theorem addDecision_eq (some : node.joined ≠ []) (kind : String) :
    addDecision node kind = Option.some { kind, node, leaves := node.conditionNodes } := by
  have wide := List.length_pos_iff.mpr some
  rw [addDecision, length_conditionNodes, if_neg (by omega)]

theorem conditionNodes_conditionOf (condition : Node) :
    (conditionOf language condition).conditionNodes = condition.conditionNodes := by
  cases condition with
  | parenthesized token inner =>
    rw [conditionOf]
    split <;> rfl
  | _ => rfl

theorem joined_conditionOf (condition : Node) :
    (conditionOf language condition).joined = condition.joined := by
  cases condition with
  | parenthesized token inner =>
    rw [conditionOf]
    split <;> rfl
  | _ => rfl

theorem narrowsAType_conditionOf (condition : Node) :
    (conditionOf language condition).narrowsAType language = condition.narrowsAType language := by
  cases condition with
  | parenthesized token inner =>
    rw [conditionOf]
    split <;> rfl
  | _ => rfl

theorem joined_of_isConstant (constant : node.isConstant = true) : node.joined = [] := by
  cases node with
  | plain token kind children => rfl
  | _ => cases constant

/-- The condition of an `if` or a loop is measured as it is written. -/
theorem belonging_conditionDecision {kind : BranchKind} (plain : node.narrowsAType language = false) :
    belonging (conditionDecision language kind node).toList = node.joined := by
  rw [← narrowsAType_conditionOf] at plain
  rw [conditionDecision, ← joined_conditionOf, if_neg (Bool.eq_false_iff.mp plain)]
  split
  · next constant =>
    rw [joined_of_isConstant (Bool.and_eq_true_iff.mp constant).2]
    rfl
  · exact belonging_addDecision _ _

theorem exists_conditionDecision (kind : BranchKind) (plain : node.narrowsAType language = false)
    (some : node.joined ≠ []) : ∃ decision ∈ (conditionDecision language kind node).toList,
      decision.node.joined = node.joined ∧ decision.leaves = node.conditionNodes := by
  rw [← narrowsAType_conditionOf] at plain
  rw [← joined_conditionOf] at some
  have varies : ¬(kind.isLoop && (conditionOf language node).isConstant) = true := fun constant =>
    some (joined_of_isConstant (Bool.and_eq_true_iff.mp constant).2)
  rw [conditionDecision, if_neg varies, if_neg (Bool.eq_false_iff.mp plain), addDecision_eq some]
  exact ⟨_, List.mem_singleton_self _, joined_conditionOf node, conditionNodes_conditionOf node⟩

/-- What a `&&` or `||` in its place adds. -/
theorem belonging_valueDecision (plain : node.narrowsAType language = false)
    (constant : (node.isLogical && inConstantContext above) = false) :
    belonging (valueDecision language above node).toList =
      if node.isLogical && !isLogicalOperandParent above && !inMeasuredCondition above then node.joined
      else [] := by
  rw [valueDecision, if_neg (Bool.eq_false_iff.mp plain)]
  cases logical : node.isLogical with
  | false => rfl
  | true =>
    rw [logical, Bool.true_and] at constant
    rw [constant, Bool.not_false, Bool.and_true]
    split
    · exact belonging_addDecision _ _
    · rfl

end Belonging

section Within

variable {language : JvmLanguage} {above : List Ancestor}

theorem belonging_condition_subset (language : JvmLanguage) (kind : BranchKind) (condition : Node) :
    belonging (conditionDecision language kind condition).toList ⊆ condition.operators := by
  rw [conditionDecision]
  split
  · exact List.nil_subset _
  · split
    · exact List.nil_subset _
    · rw [belonging_addDecision, joined_conditionOf]
      exact (joined_sublist condition).subset

theorem belonging_value_subset (node : Node) :
    belonging (valueDecision language above node).toList ⊆ node.operators := by
  rw [valueDecision]
  split
  · split
    · exact List.nil_subset _
    · rw [belonging_addDecision]
      exact (joined_sublist node).subset
  · exact List.nil_subset _

mutual

theorem belonging_walk_subset : ∀ (node : Node) (above : List Ancestor),
    belonging (walk language above node) ⊆ node.operators
  | .binary token operator left right, above => by
    have first := belonging_walk_subset left ((.binary token operator left right, false) :: above)
    have second := belonging_walk_subset right ((.binary token operator left right, false) :: above)
    rw [walk, belonging_append, belonging_append]
    refine List.append_subset.mpr ⟨belonging_value_subset _, ?_⟩
    rw [Node.operators]
    exact List.append_subset.mpr ⟨List.subset_append_of_subset_left _ first,
      List.subset_append_of_subset_right _ (List.subset_append_of_subset_right _ second)⟩
  | .parenthesized token inner, above => belonging_walk_subset inner _
  | .branch token kind before condition after, above => by
    have own := belonging_condition_subset language kind condition
    have first := belonging_walkAll_subset before ((.branch token kind before condition after, false) :: above)
    have middle := belonging_walk_subset condition ((.branch token kind before condition after, true) :: above)
    have last := belonging_walkAll_subset after ((.branch token kind before condition after, false) :: above)
    rw [walk, belonging_append, belonging_append, belonging_append, Node.operators]
    refine List.append_subset.mpr ⟨?_, List.append_subset.mpr ⟨?_, List.append_subset.mpr ⟨?_, ?_⟩⟩⟩
    · exact List.subset_append_of_subset_right _ (List.subset_append_of_subset_left _ own)
    · exact List.subset_append_of_subset_left _ first
    · exact List.subset_append_of_subset_right _ (List.subset_append_of_subset_left _ middle)
    · exact List.subset_append_of_subset_right _ (List.subset_append_of_subset_right _ last)
  | .plain token kind children, above => belonging_walkAll_subset children _

theorem belonging_walkAll_subset : ∀ (nodes : List Node) (above : List Ancestor),
    belonging (walkAll language above nodes) ⊆ Node.operatorsAll nodes
  | [], _ => List.nil_subset _
  | node :: rest, above => by
    rw [walkAll, belonging_append, Node.operatorsAll]
    exact List.append_subset.mpr
      ⟨List.subset_append_of_subset_left _ (belonging_walk_subset node above),
        List.subset_append_of_subset_right _ (belonging_walkAll_subset rest above)⟩

end

end Within

end Supercov.Jvm
