import Supercov.Jvm.Maximal

/-!
# How often an operator is counted

What the ancestors say of a node is kept while the walk goes down.  From it follows, node by
node, how many decisions each operator belongs to.
-/

namespace Supercov.Jvm

section Stands

/-- What the ancestors say of a node: whether it is in a measured condition, and otherwise
whether it is an operand, in so many parentheses. -/
structure Stands (above : List Ancestor) (measured : Bool) (operand : Option Nat) : Prop where
  mode : inMeasuredCondition above = measured
  parent : measured = false →
    ((above.head?.any fun (parent, _) => parent.isLogical) = true ↔ operand = some 0)
  near : measured = false → (isLogicalOperandParent above = true ↔ ∃ pairs ∈ operand, pairs ≤ 1)

variable {above : List Ancestor} {measured : Bool} {operand : Option Nat} {node : Node}

theorem inMeasuredCondition_cons {within : Bool} : inMeasuredCondition ((node, within) :: above) =
    if node.startsCode then false else if node.isBranch && within then true
      else inMeasuredCondition above := by
  simp only [inMeasuredCondition, List.findSome?_cons]
  cases node.startsCode <;> cases node.isBranch && within <;> rfl

theorem inConstantContext_cons {within : Bool} : inConstantContext ((node, within) :: above) =
    node.constantContext.getD (inConstantContext above) := by
  simp only [inConstantContext, List.findSome?_cons]
  cases node.constantContext <;> rfl

theorem Stands.join (stands : Stands above measured operand) (logical : node.isLogical = true) :
    Stands ((node, false) :: above) measured (some 0) where
  mode := by
    rw [inMeasuredCondition_cons]
    cases node with
    | binary token operator left right => exact stands.mode
    | _ => cases logical
  parent _ := by simp [logical]
  near _ := by simp [isLogicalOperandParent, logical]

theorem Stands.inner (stands : Stands above measured operand) {token : Token} {inner : Node} :
    Stands ((.parenthesized token inner, false) :: above) measured (operand.map (· + 1)) where
  mode := inMeasuredCondition_cons.trans stands.mode
  parent _ := by cases operand <;> simp [Node.isLogical]
  near value := by
    have parent := stands.parent value
    cases above with
    | nil =>
      cases operand with
      | none => simp [isLogicalOperandParent, Node.isLogical]
      | some pairs =>
        have other : pairs ≠ 0 := by
          rintro rfl
          cases parent.mpr rfl
        simp [isLogicalOperandParent, Node.isLogical, other]
    | cons first rest =>
      have grand : isLogicalOperandParent ((.parenthesized token inner, false) :: first :: rest) =
          first.1.isLogical := rfl
      rw [grand]
      refine Iff.trans parent ?_
      cases operand <;> simp

theorem Stands.apart (stands : Stands above measured operand) (other : node.isLogical = false)
    (bare : ∀ token inner, node ≠ .parenthesized token inner) :
    Stands ((node, false) :: above) (measured && !node.startsCode) none where
  mode := by
    rw [inMeasuredCondition_cons, Bool.and_false, stands.mode]
    cases node.startsCode <;> simp
  parent _ := by simp [other]
  near _ := by
    cases node with
    | parenthesized token inner => exact (bare token inner rfl).elim
    | _ => simp [isLogicalOperandParent, other]

theorem Stands.times_eq_one (stands : Stands above measured operand) :
    (if measured then operand.isSome = true else ∀ pairs ∈ operand, pairs ≤ 1) ↔
      (if !isLogicalOperandParent above && !inMeasuredCondition above then 1 else 0) +
        (if operand.isSome then 1 else 0) = 1 := by
  cases measured with
  | true => cases operand <;> simp [stands.mode]
  | false =>
    have near := stands.near rfl
    cases operand with
    | none =>
      have far : isLogicalOperandParent above = false := by simpa using near
      simp [stands.mode, far]
    | some pairs =>
      by_cases few : pairs ≤ 1
      · have close : isLogicalOperandParent above = true := near.mpr ⟨pairs, rfl, few⟩
        simp [stands.mode, close, few]
      · have far : isLogicalOperandParent above = false := by simpa [few] using near
        simp [stands.mode, far, few]

theorem Stands.beside (stands : Stands above measured operand) (other : node.isLogical = false)
    (bare : ∀ token inner, node ≠ .parenthesized token inner) (same : node.startsCode = false) :
    Stands ((node, false) :: above) measured none := by
  have apart := stands.apart other bare
  rwa [same, Bool.not_false, Bool.and_true] at apart

theorem stands_condition (branch : node.isBranch = true) :
    Stands ((node, true) :: above) true (some 0) where
  mode := by
    cases node with
    | branch token kind before condition after => exact inMeasuredCondition_cons
    | _ => cases branch
  parent value := by cases value
  near value := by cases value

end Stands

theorem mem_maximals {maximal : Node} : ∀ node : Node, maximal ∈ node.maximals false →
    (node.joined ≠ [] ∧ maximal.joined = node.joined ∧ maximal.conditionNodes = node.conditionNodes) ∨
      maximal ∈ node.maximals true
  | .binary token operator left right, member => by
    rw [Node.maximals] at member ⊢
    split at member
    · next logical =>
      rw [if_pos logical]
      rcases List.mem_append.mp member with own | within
      · obtain rfl := List.mem_singleton.mp own
        exact .inl ⟨by simp [Node.joined_logical logical], rfl, rfl⟩
      · exact .inr (List.mem_append_right _ within)
    · next other =>
      rw [if_neg other]
      exact .inr member
  | .parenthesized token inner, member => mem_maximals inner member
  | .branch .., member => .inr member
  | .plain .., member => .inr member

section Count

variable {first second : List Nat} {f g : Nat → Nat}

theorem forall_count_append (apart : (first ++ second).Nodup) (left : ∀ place ∉ first, f place = 0)
    (right : ∀ place ∉ second, g place = 0) :
    (∀ place ∈ first ++ second, f place + g place = 1) ↔
      (∀ place ∈ first, f place = 1) ∧ ∀ place ∈ second, g place = 1 := by
  have disjoint := List.disjoint_of_nodup_append apart
  rw [List.forall_mem_append]
  refine and_congr (forall₂_congr fun place member => ?_) (forall₂_congr fun place member => ?_)
  · rw [right place (disjoint member), Nat.add_zero]
  · rw [left place (fun other => disjoint other member), Nat.zero_add]

theorem forall_count_middle {middle times : Nat} {f' g' : Nat → Nat}
    (apart : (first ++ middle :: second).Nodup) (left : ∀ place ∉ first, f place = 0 ∧ f' place = 0)
    (right : ∀ place ∉ second, g place = 0 ∧ g' place = 0) :
    (∀ place ∈ first ++ middle :: second, times * f place + f' place +
        (times * [middle].count place + (times * g place + g' place)) = 1) ↔
      times = 1 ∧ (∀ place ∈ first, f' place + f place = 1) ∧ ∀ place ∈ second, g' place + g place = 1 := by
  have disjoint := List.disjoint_of_nodup_append apart
  obtain ⟨fresh, -⟩ := List.nodup_cons.mp apart.of_append_right
  have before : middle ∉ first := fun member => disjoint member (List.mem_cons_self ..)
  rw [List.forall_mem_append, List.forall_mem_cons]
  constructor
  · rintro ⟨one, at_middle, two⟩
    have once : times = 1 := by
      simpa [left middle before, right middle fresh] using at_middle
    subst once
    refine ⟨rfl, fun place member => ?_, fun place member => ?_⟩
    · have other : middle ≠ place := fun same => before (same ▸ member)
      have absent : place ∉ second := fun later => disjoint member (List.mem_cons_of_mem _ later)
      have here := one place member
      simp [right place absent, other] at here
      omega
    · have other : middle ≠ place := fun same => fresh (same ▸ member)
      have absent : place ∉ first := fun early => disjoint early (List.mem_cons_of_mem _ member)
      have here := two place member
      simp [left place absent, other] at here
      omega
  · rintro ⟨rfl, one, two⟩
    refine ⟨fun place member => ?_, ?_, fun place member => ?_⟩
    · have other : middle ≠ place := fun same => before (same ▸ member)
      have absent : place ∉ second := fun later => disjoint member (List.mem_cons_of_mem _ later)
      have here := one place member
      simp [right place absent, other]
      omega
    · simp [left middle before, right middle fresh]
    · have other : middle ≠ place := fun same => fresh (same ▸ member)
      have absent : place ∉ first := fun early => disjoint early (List.mem_cons_of_mem _ member)
      have here := two place member
      simp [left place absent, other]
      omega

end Count

section ToldApart

variable {language : JvmLanguage} {above : List Ancestor} {measured : Bool} {operand : Option Nat}

/-- How many decisions an operator belongs to, with the one around its expression. -/
def owners (language : JvmLanguage) (above : List Ancestor) (operand : Option Nat) (node : Node)
    (place : Nat) : Nat :=
  (belonging (walk language above node)).count place +
    if operand.isSome then node.joined.count place else 0

def ownersAll (language : JvmLanguage) (above : List Ancestor) (nodes : List Node) (place : Nat) : Nat :=
  (belonging (walkAll language above nodes)).count place

theorem owners_eq_zero {node : Node} {place : Nat} (absent : place ∉ node.operators) :
    owners language above operand node place = 0 := by
  have walked : place ∉ belonging (walk language above node) := fun member =>
    absent (belonging_walk_subset node above member)
  have joined : place ∉ node.joined := fun member => absent ((joined_sublist node).subset member)
  rw [owners, List.count_eq_zero_of_not_mem walked, List.count_eq_zero_of_not_mem joined]
  exact (Nat.zero_add _).trans (ite_self 0)

theorem ownersAll_eq_zero {nodes : List Node} {place : Nat} (absent : place ∉ Node.operatorsAll nodes) :
    ownersAll language above nodes place = 0 :=
  List.count_eq_zero_of_not_mem fun member => absent (belonging_walkAll_subset nodes above member)

mutual

theorem owners_iff : ∀ (node : Node) {above : List Ancestor} {measured : Bool} {operand : Option Nat},
    Stands above measured operand → node.narrowsAType language = false →
    node.holdsConstant (inConstantContext above) = false → node.operators.Nodup →
    ((∀ place ∈ node.operators, owners language above operand node place = 1) ↔
      node.ToldApart measured operand)
  | .binary token operator left right, above, measured, operand, stands, plain, constant, distinct => by
    have context : inConstantContext ((.binary token operator left right, false) :: above) =
        inConstantContext above := inConstantContext_cons
    have wide := plain
    simp only [Node.narrowsAType, Bool.or_eq_false_iff] at plain
    simp only [Node.holdsConstant, Bool.or_eq_false_iff] at constant
    obtain ⟨⟨-, plainLeft⟩, plainRight⟩ := plain
    obtain ⟨⟨own, freeLeft⟩, freeRight⟩ := constant
    rw [← context] at freeLeft freeRight
    have value := belonging_valueDecision wide own
    cases logical : (Node.binary token operator left right).isLogical with
    | false =>
      have others : Stands ((.binary token operator left right, false) :: above) measured none :=
        stands.beside logical (by simp) rfl
      rw [Node.operators_other logical] at distinct ⊢
      have first := owners_iff left others plainLeft freeLeft distinct.of_append_left
      have last := owners_iff right others plainRight freeRight distinct.of_append_right
      rw [Node.toldApart_other logical, ← first, ← last,
        ← forall_count_append distinct (fun _ => owners_eq_zero) (fun _ => owners_eq_zero)]
      refine forall₂_congr fun place _ => ?_
      simp [owners, walk, value, logical, Node.joined_other logical]
    | true =>
      rw [Node.operators_logical logical] at distinct ⊢
      have inner := distinct.of_append_right
      have first := owners_iff left (stands.join logical) plainLeft freeLeft distinct.of_append_left
      have last := owners_iff right (stands.join logical) plainRight freeRight
        (List.nodup_cons.mp inner).2
      -- The decision that the operator begins, and the one it is part of.
      let times := (if !isLogicalOperandParent above && !inMeasuredCondition above then 1 else 0) +
        if operand.isSome then 1 else 0
      have total (place : Nat) : owners language above operand (.binary token operator left right) place =
          times * left.joined.count place +
            (belonging (walk language ((.binary token operator left right, false) :: above) left)).count place +
          (times * [operator.start].count place + (times * right.joined.count place +
            (belonging (walk language ((.binary token operator left right, false) :: above) right)).count
              place)) := by
        have whole : (Node.binary token operator left right).joined =
            left.joined ++ ([operator.start] ++ right.joined) := Node.joined_logical logical
        simp only [owners, walk, belonging_append, List.count_append, value, logical, Bool.true_and, times,
          whole]
        cases !isLogicalOperandParent above && !inMeasuredCondition above <;> cases operand.isSome <;>
          simp only [if_true, if_false, Bool.false_eq_true, List.count_append, List.count_nil] <;> omega
      have outside {node : Node} {place : Nat} (absent : place ∉ node.operators) :
          node.joined.count place = 0 ∧ (belonging (walk language
            ((.binary token operator left right, false) :: above) node)).count place = 0 := by
        have none : owners language ((.binary token operator left right, false) :: above) (some 0) node
            place = 0 := owners_eq_zero absent
        rw [owners, Nat.add_eq_zero_iff] at none
        exact ⟨none.2, none.1⟩
      rw [Node.toldApart_logical logical, ← first, ← last, stands.times_eq_one]
      simp only [total]
      exact forall_count_middle distinct (fun _ => outside) (fun _ => outside)
  | .parenthesized token inner, above, measured, operand, stands, plain, constant, distinct => by
    have free : inner.holdsConstant (inConstantContext ((.parenthesized token inner, false) :: above)) =
        false := by
      rw [inConstantContext_cons]
      exact constant
    have inside := owners_iff inner stands.inner plain free distinct
    rw [Node.ToldApart, ← inside]
    simp only [owners, Option.isSome_map]
    rfl
  | .branch token kind before condition after, above, measured, operand, stands, plain, constant,
      distinct => by
    have others : Stands ((.branch token kind before condition after, false) :: above) measured none :=
      stands.beside rfl (by simp) rfl
    have inCondition : Stands ((.branch token kind before condition after, true) :: above) true (some 0) :=
      stands_condition rfl
    have context (within : Bool) : inConstantContext
        ((.branch token kind before condition after, within) :: above) = inConstantContext above :=
      inConstantContext_cons
    simp only [Node.narrowsAType, Bool.or_eq_false_iff] at plain
    simp only [Node.holdsConstant, Bool.or_eq_false_iff] at constant
    obtain ⟨⟨plainBefore, plainCondition⟩, plainAfter⟩ := plain
    obtain ⟨⟨freeBefore, freeCondition⟩, freeAfter⟩ := constant
    rw [Node.operators] at distinct ⊢
    have inner := distinct.of_append_right
    have first := ownersAll_iff before others plainBefore ((context false).symm ▸ freeBefore)
      distinct.of_append_left
    have middle := owners_iff condition inCondition plainCondition
      ((context true).symm ▸ freeCondition) inner.of_append_left
    have last := ownersAll_iff after others plainAfter ((context false).symm ▸ freeAfter)
      inner.of_append_right
    rw [Node.ToldApart, ← first, ← middle, ← last,
      ← forall_count_append inner (fun _ => owners_eq_zero) (fun _ => ownersAll_eq_zero),
      ← forall_count_append distinct (fun _ => ownersAll_eq_zero)]
    · refine forall₂_congr fun place _ => ?_
      simp only [owners, ownersAll, walk, belonging_append, List.count_append, Node.joined,
        belonging_conditionDecision plainCondition, Option.isSome_some, if_true, List.count_nil, ite_self]
      omega
    · intro place absent
      rw [List.mem_append, not_or] at absent
      rw [owners_eq_zero absent.1, ownersAll_eq_zero absent.2]
  | .plain token kind children, above, measured, operand, stands, plain, constant, distinct => by
    rw [Node.narrowsAType, Bool.or_eq_false_iff] at plain
    have free : Node.holdsConstantAny (inConstantContext ((.plain token kind children, false) :: above))
        children = false := by
      rw [inConstantContext_cons]
      exact constant
    have others : Stands ((.plain token kind children, false) :: above)
        (measured && !(Node.plain token kind children).startsCode) none := stands.apart rfl (by simp)
    have inside := ownersAll_iff children others plain.2 free distinct
    rw [Node.ToldApart, ← inside]
    simp [owners, ownersAll, Node.operators, Node.joined, walk]

theorem ownersAll_iff : ∀ (nodes : List Node) {above : List Ancestor} {measured : Bool},
    Stands above measured none → Node.narrowsATypeAny language nodes = false →
    Node.holdsConstantAny (inConstantContext above) nodes = false → (Node.operatorsAll nodes).Nodup →
    ((∀ place ∈ Node.operatorsAll nodes, ownersAll language above nodes place = 1) ↔
      Node.ToldApartAll measured nodes)
  | [], above, measured, stands, plain, constant, distinct => by simp [Node.operatorsAll, Node.ToldApartAll]
  | node :: rest, above, measured, stands, plain, constant, distinct => by
    rw [Node.narrowsATypeAny, Bool.or_eq_false_iff] at plain
    rw [Node.holdsConstantAny, Bool.or_eq_false_iff] at constant
    rw [Node.operatorsAll] at distinct ⊢
    have here := owners_iff node stands plain.1 constant.1 distinct.of_append_left
    have there := ownersAll_iff rest stands plain.2 constant.2 distinct.of_append_right
    rw [Node.ToldApartAll, ← here, ← there,
      ← forall_count_append distinct (fun _ => owners_eq_zero) fun _ => ownersAll_eq_zero]
    simp [owners, ownersAll, walkAll]

end

mutual

theorem exists_decision : ∀ (node : Node) {above : List Ancestor} {measured : Bool}
    {operand : Option Nat}, Stands above measured operand → node.narrowsAType language = false →
    node.holdsConstant (inConstantContext above) = false → node.ToldApart measured operand →
    ∀ maximal ∈ node.maximals operand.isSome, ∃ decision ∈ walk language above node,
      decision.node.joined = maximal.joined ∧ decision.leaves = maximal.conditionNodes
  | .binary token operator left right, above, measured, operand, stands, plain, constant, told => by
    have context : inConstantContext ((.binary token operator left right, false) :: above) =
        inConstantContext above := inConstantContext_cons
    have wide := plain
    simp only [Node.narrowsAType, Bool.or_eq_false_iff] at plain
    simp only [Node.holdsConstant, Bool.or_eq_false_iff] at constant
    obtain ⟨⟨-, plainLeft⟩, plainRight⟩ := plain
    obtain ⟨⟨own, freeLeft⟩, freeRight⟩ := constant
    rw [← context] at freeLeft freeRight
    intro maximal member
    rw [Node.maximals] at member
    rw [walk]
    cases logical : (Node.binary token operator left right).isLogical with
    | false =>
      have others : Stands ((.binary token operator left right, false) :: above) measured none :=
        stands.beside logical (by simp) rfl
      obtain ⟨toldLeft, toldRight⟩ := (Node.toldApart_other logical).mp told
      rw [if_neg (Bool.eq_false_iff.mp logical)] at member
      rcases List.mem_append.mp member with first | last
      · obtain ⟨decision, among, same⟩ := exists_decision left others plainLeft freeLeft toldLeft _ first
        exact ⟨decision, by simp [among], same⟩
      · obtain ⟨decision, among, same⟩ := exists_decision right others plainRight freeRight toldRight _ last
        exact ⟨decision, by simp [among], same⟩
    | true =>
      obtain ⟨alone, toldLeft, toldRight⟩ := (Node.toldApart_logical logical).mp told
      rw [if_pos logical] at member
      rcases List.mem_append.mp member with here | within
      · cases operand with
        | some pairs => cases here
        | none =>
          obtain rfl := List.mem_singleton.mp here
          cases measured with
          | true => cases alone
          | false =>
            have far : isLogicalOperandParent above = false := by simpa using stands.near rfl
            have some : (Node.binary token operator left right).joined ≠ [] := by
              simp [Node.joined_logical logical]
            rw [logical, Bool.true_and] at own
            simp [valueDecision, logical, far, stands.mode, own, wide, addDecision_eq some]
      · rcases List.mem_append.mp within with first | last
        · obtain ⟨decision, among, same⟩ :=
            exists_decision left (stands.join logical) plainLeft freeLeft toldLeft _ first
          exact ⟨decision, by simp [among], same⟩
        · obtain ⟨decision, among, same⟩ :=
            exists_decision right (stands.join logical) plainRight freeRight toldRight _ last
          exact ⟨decision, by simp [among], same⟩
  | .parenthesized token inner, above, measured, operand, stands, plain, constant, told => by
    have free : inner.holdsConstant (inConstantContext ((.parenthesized token inner, false) :: above)) =
        false := by
      rw [inConstantContext_cons]
      exact constant
    intro maximal member
    rw [Node.maximals, ← Option.isSome_map] at member
    exact exists_decision inner stands.inner plain free told maximal member
  | .branch token kind before condition after, above, measured, operand, stands, plain, constant, told => by
    have others : Stands ((.branch token kind before condition after, false) :: above) measured none :=
      stands.beside rfl (by simp) rfl
    have inCondition : Stands ((.branch token kind before condition after, true) :: above) true (some 0) :=
      stands_condition rfl
    have context (within : Bool) : inConstantContext
        ((.branch token kind before condition after, within) :: above) = inConstantContext above :=
      inConstantContext_cons
    simp only [Node.narrowsAType, Bool.or_eq_false_iff] at plain
    simp only [Node.holdsConstant, Bool.or_eq_false_iff] at constant
    obtain ⟨⟨plainBefore, plainCondition⟩, plainAfter⟩ := plain
    obtain ⟨⟨freeBefore, freeCondition⟩, freeAfter⟩ := constant
    obtain ⟨toldBefore, toldCondition, toldAfter⟩ := told
    have first := existsAll_decision before others plainBefore ((context false).symm ▸ freeBefore) toldBefore
    have middle := exists_decision condition inCondition plainCondition
      ((context true).symm ▸ freeCondition) toldCondition
    have last := existsAll_decision after others plainAfter ((context false).symm ▸ freeAfter) toldAfter
    intro maximal member
    rw [walk]
    simp only [Node.maximals, List.mem_append] at member
    rcases member with early | inside | late
    · obtain ⟨decision, among, same⟩ := first maximal early
      exact ⟨decision, by simp [among], same⟩
    · rcases mem_maximals condition inside with ⟨some, joined, leaves⟩ | within
      · obtain ⟨decision, among, same, nodes⟩ :=
          exists_conditionDecision kind plainCondition some
        exact ⟨decision, List.mem_append_left _ among, same.trans joined.symm, nodes.trans leaves.symm⟩
      · obtain ⟨decision, among, same⟩ := middle maximal within
        exact ⟨decision, by simp [among], same⟩
    · obtain ⟨decision, among, same⟩ := last maximal late
      exact ⟨decision, by simp [among], same⟩
  | .plain token kind children, above, measured, operand, stands, plain, constant, told => by
    rw [Node.narrowsAType, Bool.or_eq_false_iff] at plain
    have free : Node.holdsConstantAny (inConstantContext ((.plain token kind children, false) :: above))
        children = false := by
      rw [inConstantContext_cons]
      exact constant
    have others : Stands ((.plain token kind children, false) :: above)
        (measured && !(Node.plain token kind children).startsCode) none := stands.apart rfl (by simp)
    exact existsAll_decision children others plain.2 free told

theorem existsAll_decision : ∀ (nodes : List Node) {above : List Ancestor} {measured : Bool},
    Stands above measured none → Node.narrowsATypeAny language nodes = false →
    Node.holdsConstantAny (inConstantContext above) nodes = false → Node.ToldApartAll measured nodes →
    ∀ maximal ∈ Node.maximalsAll nodes, ∃ decision ∈ walkAll language above nodes,
      decision.node.joined = maximal.joined ∧ decision.leaves = maximal.conditionNodes
  | [], above, measured, stands, plain, constant, told => by simp [Node.maximalsAll]
  | node :: rest, above, measured, stands, plain, constant, told => by
    rw [Node.narrowsATypeAny, Bool.or_eq_false_iff] at plain
    rw [Node.holdsConstantAny, Bool.or_eq_false_iff] at constant
    have here := exists_decision node stands plain.1 constant.1 told.1
    have there := existsAll_decision rest stands plain.2 constant.2 told.2
    intro maximal member
    rw [walkAll]
    rcases List.mem_append.mp member with first | later
    · obtain ⟨decision, among, same⟩ := here maximal first
      exact ⟨decision, List.mem_append_left _ among, same⟩
    · obtain ⟨decision, among, same⟩ := there maximal later
      exact ⟨decision, List.mem_append_right _ among, same⟩

end

end ToldApart

end Supercov.Jvm
