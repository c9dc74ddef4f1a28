import Supercov.Jvm.Owners

/-!
# Every short-circuit expression as one decision

An expression stands as a value or as the condition of an `if` or a loop.  Its largest `&&`
and `||` expressions are one decision each exactly where its operators are told apart.
-/

namespace Supercov.Jvm

section Place

/-- Where an expression stands: as a value, or as the condition of an `if` or a loop. -/
inductive Place where
  | value
  | condition (token : Token) (kind : BranchKind) (before after : List Node)

def Place.decisions (language : JvmLanguage) (above : List Ancestor) (expression : Node) :
    Place → List Decision
  | value => walk language above expression
  | condition token kind before after => (conditionDecision language kind expression).toList ++
    walk language ((.branch token kind before expression after, true) :: above) expression

def Place.Whole (above : List Ancestor) : Place → Prop
  | value => inMeasuredCondition above = false ∧ isLogicalOperandParent above = false
  | condition .. => True

def Place.ToldApart (expression : Node) : Place → Prop
  | value => expression.ToldApart false none
  | condition .. => expression.ToldApart true (some 0)

def Decision.shares (expression : Node) (decision : Decision) : Bool :=
  decision.node.joined.any (· ∈ expression.joined)

/-- Each of an expression's largest `&&` and `||` expressions is one decision: the only one
with operators of it, of its conditions in order.  No operator belongs to two, and each
condition has one call of its decision around it. -/
structure OneDecisionEach (expression : Node) (decisions : List Decision) : Prop where
  once : ∀ maximal ∈ expression.maximals false, ∃ decision,
    decisions.filter (·.shares maximal) = [decision] ∧
      decision.node.joined = maximal.joined ∧ decision.leaves = maximal.conditionNodes
  apart : (belonging decisions).Nodup
  wrapped : ∀ base index decision, decisions[index]? = some decision →
    (calls base decisions).filter (·.decision = base + index) =
      decision.leaves.zipIdx.map fun (condition, position) =>
        { decision := base + index, position, condition }

variable {language : JvmLanguage} {above : List Ancestor} {expression : Node} {place : Place}
  {decisions : List Decision}

mutual

theorem exists_maximal {operator : Nat} : ∀ (node : Node) (operand : Bool), operator ∈ node.operators →
    (operand = true ∧ operator ∈ node.joined) ∨
      ∃ maximal ∈ node.maximals operand, operator ∈ maximal.joined
  | .binary token sign left right, operand, member => by
    rw [Node.maximals]
    cases logical : (Node.binary token sign left right).isLogical with
    | true =>
      rw [if_pos rfl, Node.joined_logical logical]
      rw [Node.operators_logical logical] at member
      -- The operators of the node's own expression are of the node, where it is no operand.
      have own (within : operator ∈ left.joined ++ sign.start :: right.joined) :
          (operand = true ∧ operator ∈ left.joined ++ sign.start :: right.joined) ∨
            ∃ maximal ∈ (if operand then [] else [Node.binary token sign left right]) ++
              (left.maximals true ++ right.maximals true), operator ∈ maximal.joined := by
        cases operand with
        | true => exact .inl ⟨rfl, within⟩
        | false =>
          refine .inr ⟨.binary token sign left right, by simp, ?_⟩
          rwa [Node.joined_logical logical]
      rcases List.mem_append.mp member with first | rest
      · rcases exists_maximal left true first with ⟨-, joined⟩ | ⟨maximal, among, joined⟩
        · exact own (List.mem_append_left _ joined)
        · exact .inr ⟨maximal, by simp [among], joined⟩
      · rcases List.mem_cons.mp rest with rfl | last
        · exact own (by simp)
        · rcases exists_maximal right true last with ⟨-, joined⟩ | ⟨maximal, among, joined⟩
          · exact own (by simp [joined])
          · exact .inr ⟨maximal, by simp [among], joined⟩
    | false =>
      rw [if_neg Bool.false_ne_true]
      rw [Node.operators_other logical] at member
      rcases List.mem_append.mp member with first | last
      · rcases exists_maximal left false first with ⟨none, -⟩ | ⟨maximal, among, joined⟩
        · cases none
        · exact .inr ⟨maximal, List.mem_append_left _ among, joined⟩
      · rcases exists_maximal right false last with ⟨none, -⟩ | ⟨maximal, among, joined⟩
        · cases none
        · exact .inr ⟨maximal, List.mem_append_right _ among, joined⟩
  | .parenthesized _ inner, operand, member => exists_maximal inner operand member
  | .branch _ _ before condition after, operand, member => by
    simp only [Node.operators, List.mem_append] at member
    refine .inr ?_
    simp only [Node.maximals, List.mem_append]
    rcases member with early | inside | late
    · obtain ⟨maximal, among, joined⟩ := existsAll_maximal before early
      exact ⟨maximal, .inl among, joined⟩
    · rcases exists_maximal condition false inside with ⟨none, -⟩ | ⟨maximal, among, joined⟩
      · cases none
      · exact ⟨maximal, .inr (.inl among), joined⟩
    · obtain ⟨maximal, among, joined⟩ := existsAll_maximal after late
      exact ⟨maximal, .inr (.inr among), joined⟩
  | .plain _ _ children, _, member => .inr (existsAll_maximal children member)

theorem existsAll_maximal {operator : Nat} : ∀ nodes : List Node, operator ∈ Node.operatorsAll nodes →
    ∃ maximal ∈ Node.maximalsAll nodes, operator ∈ maximal.joined
  | [], member => by cases member
  | node :: rest, member => by
    rw [Node.maximalsAll]
    rcases List.mem_append.mp member with first | later
    · rcases exists_maximal node false first with ⟨none, -⟩ | ⟨maximal, among, joined⟩
      · cases none
      · exact ⟨maximal, List.mem_append_left _ among, joined⟩
    · obtain ⟨maximal, among, joined⟩ := existsAll_maximal rest later
      exact ⟨maximal, List.mem_append_right _ among, joined⟩

end

theorem filter_shares {maximal : Node} (apart : (belonging decisions).Nodup) {decision : Decision}
    (among : decision ∈ decisions) (same : decision.node.joined = maximal.joined)
    (some : maximal.joined ≠ []) : decisions.filter (·.shares maximal) = [decision] := by
  have shares_iff (other : Decision) :
      other.shares maximal = true ↔ ∃ operator ∈ other.node.joined, operator ∈ decision.node.joined := by
    rw [Decision.shares, List.any_eq_true, same]
    simp
  induction decisions with
  | nil => cases among
  | cons first rest ih =>
    have split : (first.node.joined ++ belonging rest).Nodup := apart
    have disjoint := List.disjoint_of_nodup_append split
    rcases List.mem_cons.mp among with rfl | later
    · obtain ⟨operator, member⟩ := List.exists_mem_of_ne_nil _ (same ▸ some)
      rw [List.filter_cons_of_pos ((shares_iff decision).mpr ⟨operator, member, member⟩)]
      have others : rest.filter (·.shares maximal) = [] := by
        rw [List.filter_eq_nil_iff]
        intro other inside shares
        obtain ⟨operator, own, shared⟩ := (shares_iff other).mp shares
        exact disjoint shared (List.mem_flatMap.mpr ⟨other, inside, own⟩)
      rw [others]
    · have other : ¬first.shares maximal = true := by
        intro shares
        obtain ⟨operator, own, shared⟩ := (shares_iff first).mp shares
        exact disjoint own (List.mem_flatMap.mpr ⟨decision, later, shared⟩)
      rw [List.filter_cons_of_neg other]
      exact ih split.of_append_right later

mutual

theorem isLogical_of_mem_maximals {maximal : Node} : ∀ (node : Node) {operand : Bool},
    maximal ∈ node.maximals operand → maximal.isLogical = true
  | .binary token operator left right, operand, member => by
    rw [Node.maximals] at member
    split at member
    · next logical =>
      simp only [List.mem_append] at member
      rcases member with own | first | last
      · cases operand with
        | true => cases own
        | false => exact List.mem_singleton.mp own ▸ logical
      · exact isLogical_of_mem_maximals left first
      · exact isLogical_of_mem_maximals right last
    · rcases List.mem_append.mp member with first | last
      · exact isLogical_of_mem_maximals left first
      · exact isLogical_of_mem_maximals right last
  | .parenthesized _ inner, _, member => isLogical_of_mem_maximals inner member
  | .branch _ _ before condition after, _, member => by
    simp only [Node.maximals, List.mem_append] at member
    rcases member with early | inside | late
    · exact isLogical_of_mem_maximalsAll before early
    · exact isLogical_of_mem_maximals condition inside
    · exact isLogical_of_mem_maximalsAll after late
  | .plain _ _ children, _, member => isLogical_of_mem_maximalsAll children member

theorem isLogical_of_mem_maximalsAll {maximal : Node} : ∀ nodes : List Node,
    maximal ∈ Node.maximalsAll nodes → maximal.isLogical = true
  | [], member => by cases member
  | node :: rest, member => by
    rcases List.mem_append.mp member with first | later
    · exact isLogical_of_mem_maximals node first
    · exact isLogical_of_mem_maximalsAll rest later

end

theorem joined_ne_nil {node : Node} (logical : node.isLogical = true) : node.joined ≠ [] := by
  cases node with
  | binary token operator left right => simp [Node.joined_logical logical]
  | _ => cases logical

theorem calls_cons (base : Nat) (decision : Decision) (rest : List Decision) :
    calls base (decision :: rest) = (decision.leaves.zipIdx.map fun (condition, position) =>
      { decision := base, position, condition }) ++ calls (base + 1) rest := by
  rw [calls, List.zipIdx_cons, List.flatMap_cons, calls]

theorem le_of_mem_calls {base : Nat} {call : Call} (member : call ∈ calls base decisions) :
    base ≤ call.decision := by
  obtain ⟨⟨decision, index⟩, among, own⟩ := List.mem_flatMap.mp member
  obtain ⟨⟨condition, position⟩, -, rfl⟩ := List.mem_map.mp own
  exact (List.mem_zipIdx among).1

theorem filter_calls (base index : Nat) (decision : Decision) (placed : decisions[index]? = some decision) :
    (calls base decisions).filter (·.decision = base + index) =
      decision.leaves.zipIdx.map fun (condition, position) =>
        { decision := base + index, position, condition } := by
  induction decisions generalizing base index with
  | nil => cases placed
  | cons first rest ih =>
    rw [calls_cons, List.filter_append]
    cases index with
    | zero =>
      cases placed
      have others : (calls (base + 1) rest).filter (·.decision = base + 0) = [] := by
        rw [List.filter_eq_nil_iff]
        intro call member
        have later := le_of_mem_calls member
        simp only [decide_eq_true_eq]
        omega
      rw [others, List.append_nil]
      apply List.filter_eq_self.mpr
      intro call member
      obtain ⟨⟨condition, position⟩, -, rfl⟩ := List.mem_map.mp member
      exact decide_eq_true rfl
    | succ index =>
      have others : (first.leaves.zipIdx.map fun (condition, position) =>
          ({ decision := base, position, condition } : Call)).filter (·.decision = base + (index + 1)) = [] := by
        rw [List.filter_eq_nil_iff]
        intro call member
        obtain ⟨⟨condition, position⟩, -, rfl⟩ := List.mem_map.mp member
        simp only [decide_eq_true_eq]
        omega
      rw [others, List.nil_append, ← Nat.succ_add_eq_add_succ]
      exact ih (base + 1) index placed

theorem belonging_decisions_subset : belonging (place.decisions language above expression) ⊆ expression.operators := by
  cases place with
  | value => exact belonging_walk_subset _ _
  | condition token kind before after =>
    rw [Place.decisions, belonging_append]
    exact List.append_subset.mpr ⟨belonging_condition_subset _ _ _, belonging_walk_subset _ _⟩

theorem Place.Whole.stands (whole : Place.value.Whole above) : Stands above false none where
  mode := whole.1
  parent _ := by
    cases above with
    | nil => simp
    | cons first rest =>
      have far := (Bool.or_eq_false_iff.mp whole.2).1
      simp [far]
  near _ := by simp [whole.2]

section Decisions

variable (whole : place.Whole above) (plain : expression.narrowsAType language = false)
  (constant : expression.holdsConstant (inConstantContext above) = false)

include whole plain constant

theorem count_decisions_iff (distinct : expression.operators.Nodup) :
    (∀ operator ∈ expression.operators,
      (belonging (place.decisions language above expression)).count operator = 1) ↔
      place.ToldApart expression := by
  cases place with
  | value =>
    have told := owners_iff expression whole.stands plain constant distinct
    simp only [owners, Option.isSome_none, Bool.false_eq_true, if_false, Nat.add_zero] at told
    exact told
  | condition token kind before after =>
    have context : inConstantContext ((.branch token kind before expression after, true) :: above) =
        inConstantContext above := inConstantContext_cons
    have inCondition : Stands ((.branch token kind before expression after, true) :: above) true (some 0) :=
      stands_condition rfl
    have told := owners_iff expression inCondition plain (context.symm ▸ constant) distinct
    rw [Place.ToldApart, ← told]
    simp only [Place.decisions, belonging_append, belonging_conditionDecision plain, List.count_append,
      owners, Option.isSome_some, if_true, Nat.add_comm]

theorem exists_decision_of_toldApart (told : place.ToldApart expression) :
    ∀ maximal ∈ expression.maximals false, ∃ decision ∈ place.decisions language above expression,
      decision.node.joined = maximal.joined ∧ decision.leaves = maximal.conditionNodes := by
  cases place with
  | value => exact exists_decision expression whole.stands plain constant told
  | condition token kind before after =>
    have context : inConstantContext ((.branch token kind before expression after, true) :: above) =
        inConstantContext above := inConstantContext_cons
    have inCondition : Stands ((.branch token kind before expression after, true) :: above) true (some 0) :=
      stands_condition rfl
    have within := exists_decision expression inCondition plain (context.symm ▸ constant) told
    intro maximal member
    rcases mem_maximals expression member with ⟨some, joined, leaves⟩ | inside
    · obtain ⟨decision, recorded, same, nodes⟩ := exists_conditionDecision kind plain some
      exact ⟨decision, List.mem_append_left _ recorded, same.trans joined.symm, nodes.trans leaves.symm⟩
    · obtain ⟨decision, recorded, same⟩ := within maximal inside
      exact ⟨decision, List.mem_append_right _ recorded, same⟩

/-- Each largest expression is one decision exactly where every operator is told apart: in the
condition of an `if` or a loop all are of the condition's own expression, and elsewhere an
operand has one pair of parentheses at most. -/
theorem oneDecisionEach_iff (distinct : expression.operators.Nodup) :
    OneDecisionEach expression (place.decisions language above expression) ↔
      place.ToldApart expression := by
  have counts := count_decisions_iff whole plain constant distinct
  constructor
  · intro each
    refine counts.mp fun operator member => ?_
    rcases exists_maximal expression false member with ⟨none, -⟩ | ⟨maximal, among, joined⟩
    · cases none
    · obtain ⟨decision, only, same, -⟩ := each.once maximal among
      have recorded : decision ∈ place.decisions language above expression :=
        List.mem_of_mem_filter (only ▸ List.mem_singleton_self decision)
      exact List.count_eq_one_of_mem each.apart (List.mem_flatMap.mpr ⟨decision, recorded, same ▸ joined⟩)
  · intro told
    have apart : (belonging (place.decisions language above expression)).Nodup := by
      rw [List.nodup_iff_count_le_one]
      intro operator
      by_cases member : operator ∈ expression.operators
      · exact (counts.mpr told operator member).le
      · rw [List.count_eq_zero_of_not_mem fun inside => member (belonging_decisions_subset inside)]
        exact Nat.zero_le 1
    refine ⟨fun maximal among => ?_, apart, filter_calls⟩
    obtain ⟨decision, recorded, same, leaves⟩ :=
      exists_decision_of_toldApart whole plain constant told maximal among
    have some := joined_ne_nil (isLogical_of_mem_maximals expression among)
    exact ⟨decision, filter_shares apart recorded same some, same, leaves⟩

end Decisions

/-- `((a && b)) || c` -/
def doublyParenthesized : Node :=
  .binary ⟨0, "((a && b)) || c"⟩ ⟨11, "||"⟩
    (.parenthesized ⟨0, "((a && b))"⟩ (.parenthesized ⟨1, "(a && b)"⟩
      (.binary ⟨2, "a && b"⟩ ⟨4, "&&"⟩ (.plain ⟨2, "a"⟩ (.other "identifier") [])
        (.plain ⟨7, "b"⟩ (.other "identifier") []))))
    (.plain ⟨14, "c"⟩ (.other "identifier") [])

/-- `f(a && b)` -/
def callOfBoth : Node :=
  .plain ⟨0, "f(a && b)"⟩ (.other "method_invocation")
    [.plain ⟨0, "f"⟩ (.other "identifier") [],
      .plain ⟨1, "(a && b)"⟩ (.other "argument_list")
        [.binary ⟨2, "a && b"⟩ ⟨4, "&&"⟩ (.plain ⟨2, "a"⟩ (.other "identifier") [])
          (.plain ⟨7, "b"⟩ (.other "identifier") [])]]

def methodAbove : List Ancestor := [(.plain ⟨0, ""⟩ .methodDeclaration [], false)]

theorem doublyParenthesized_iff :
    OneDecisionEach doublyParenthesized (Place.value.decisions .java methodAbove doublyParenthesized) ↔
      Place.value.ToldApart doublyParenthesized :=
  oneDecisionEach_iff ⟨rfl, rfl⟩ (by decide) (by decide) (by decide)

/-- As a value the one is two decisions, and as an `if`'s condition the other is none. -/
theorem not_oneDecisionEach :
    ¬OneDecisionEach doublyParenthesized (Place.value.decisions .java methodAbove doublyParenthesized) ∧
      ¬OneDecisionEach callOfBoth
        ((Place.condition ⟨0, ""⟩ .ifStatement [] []).decisions .java methodAbove callOfBoth) := by
  constructor
  · intro each
    exact absurd each.apart (by decide)
  · intro each
    obtain ⟨decision, only, -⟩ := each.once _ (List.mem_singleton_self _)
    have none : (Place.condition ⟨0, ""⟩ .ifStatement [] []).decisions .java methodAbove callOfBoth = [] := by
      rfl
    rw [none] at only
    cases only

end Place

end Supercov.Jvm
