import Supercov.DecisionShape.Grammar

/-!
# What the parser makes of a decision's tokens

The parser reads a decision's tokens as its regrouped tree.  Tokens in which a condition
stands right behind an operand are read as no tree.
-/

namespace Supercov.DecisionShape

section Chain

variable {operator : Token} {join : Shape → Shape → Shape} {item : Reads} {count : Nat}
  {left : Shape} {tokens : List Token}

theorem chain_of_head_ne (other : tokens.head? ≠ some operator) :
    chain operator join item count left tokens = some (left, tokens) := by
  cases count <;> rw [chain, if_neg other]

theorem chain_cons :
    chain operator join item (count + 1) left (operator :: tokens) =
      (item tokens).bind fun (right, rest) => chain operator join item count (join left right) rest := by
  rw [chain, List.head?_cons, if_pos rfl, List.tail_cons]

end Chain

namespace Decision

/-- The operators `and` of the outermost chain. -/
def andWidth : Decision → Nat
  | join true _ left _ => left.andWidth + 1
  | _ => 0

/-- The operators `or` of the outermost chain. -/
def orWidth : Decision → Nat
  | join false _ left _ => left.orWidth + 1
  | _ => 0

section Tokens

variable {decision : Decision}

@[simp] theorem tokens_group (inner : Decision) :
    (group inner).tokens = .opening :: (inner.tokens ++ [.closing]) := by
  simp [tokens, lexemes, Lexeme.token]

@[simp] theorem tokens_not (spelling : Spelling) (inner : Decision) :
    (not spelling inner).tokens = .not :: inner.tokens := rfl

@[simp] theorem tokens_join (isAnd : Bool) (spelling : Spelling) (left right : Decision) :
    (join isAnd spelling left right).tokens =
      left.tokens ++ (if isAnd then .and else .or) :: right.tokens := by
  cases isAnd <;> simp [tokens, lexemes, Lexeme.token]

theorem andWidth_le (decision : Decision) : decision.andWidth ≤ decision.tokens.length := by
  fun_induction andWidth decision with
  | case1 spelling left right ih => simp; omega
  | case2 decision other => exact Nat.zero_le _

theorem orWidth_le (decision : Decision) : decision.orWidth ≤ decision.tokens.length := by
  fun_induction orWidth decision with
  | case1 spelling left right ih => simp; omega
  | case2 decision other => exact Nat.zero_le _

end Tokens

section Reads

variable (fuel count : Nat) (decision : Decision) (rest : List Token)

/-- `Parser::not` reads the decision off the tokens. -/
def NotReads : Prop := parseNot fuel (decision.tokens ++ rest) = some (decision.shape, rest)

/-- `Parser::and` reads the decision and goes on with it. -/
def AndReads : Prop :=
  parseAnd (parseNot fuel) count (decision.tokens ++ rest) =
    chain .and .and (parseNot fuel) (count - decision.andWidth) decision.shape rest

/-- `Parser::or` reads the decision and goes on with it. -/
def OrReads : Prop :=
  parseOr (parseNot fuel) count (decision.tokens ++ rest) =
    chain .or .or (parseAnd (parseNot fuel) count) (count - decision.orWidth) decision.shape rest

variable {fuel count decision rest}

theorem NotReads.andReads (reads : NotReads fuel decision rest) (operand : 2 ≤ decision.strength) :
    AndReads fuel count decision rest := by
  have alone : decision.andWidth = 0 := by
    cases decision with
    | join isAnd spelling left right =>
      cases isAnd with
      | false => rfl
      | true => exact (Nat.not_succ_le_self 1 operand).elim
    | _ => rfl
  rw [AndReads, parseAnd, reads, alone]
  rfl

theorem AndReads.orReads (reads : AndReads fuel count decision rest) (operand : 1 ≤ decision.strength)
    (ends : rest.head? ≠ some .and) : OrReads fuel count decision rest := by
  have alone : decision.orWidth = 0 := by
    cases decision with
    | join isAnd spelling left right =>
      cases isAnd with
      | false => exact (Nat.not_succ_le_zero 0 operand).elim
      | true => rfl
    | _ => rfl
  rw [OrReads, parseOr, reads, chain_of_head_ne ends, alone]
  rfl

theorem AndReads.join {left right : Decision} {spelling : Spelling}
    (first : AndReads fuel count left (.and :: (right.tokens ++ rest)))
    (second : NotReads fuel right rest) (enough : left.andWidth < count) :
    AndReads fuel count (.join true spelling left right) rest := by
  obtain ⟨more, sum⟩ := Nat.exists_eq_add_of_lt enough
  have here : count - left.andWidth = more + 1 := by omega
  have later : count - (left.andWidth + 1) = more := by omega
  rw [AndReads, tokens_join, List.append_assoc, if_pos rfl, List.cons_append, first, here, chain_cons,
    second, andWidth, later]
  rfl

theorem OrReads.join {left right : Decision} {spelling : Spelling}
    (first : OrReads fuel count left (.or :: (right.tokens ++ rest)))
    (second : AndReads fuel count right rest) (ends : rest.head? ≠ some .and)
    (enough : left.orWidth < count) : OrReads fuel count (.join false spelling left right) rest := by
  obtain ⟨more, sum⟩ := Nat.exists_eq_add_of_lt enough
  have here : count - left.orWidth = more + 1 := by omega
  have later : count - (left.orWidth + 1) = more := by omega
  rw [OrReads, tokens_join, List.append_assoc, if_neg Bool.false_ne_true, List.cons_append, first, here,
    chain_cons, second, chain_of_head_ne ends, orWidth, later]
  rfl

end Reads

theorem NotReads.reads {fuel : Nat} {decision : Decision} {rest : List Token}
    (alone : NotReads fuel decision rest) (operand : 2 ≤ decision.strength) :
    (2 ≤ decision.strength → NotReads fuel decision rest) ∧
    (1 ≤ decision.strength → ∀ count, decision.tokens.length ≤ count →
      AndReads fuel count decision rest) ∧
    (rest.head? ≠ some .and → ∀ count, decision.tokens.length ≤ count →
      OrReads fuel count decision rest) :=
  ⟨fun _ => alone, fun _ _ _ => alone.andReads operand,
    fun ends _ _ => (alone.andReads operand).orReads (Nat.le_of_succ_le operand) ends⟩

theorem reads {decision : Decision} (uniform : Uniform decision) {fuel : Nat}
    (enough : decision.tokens.length ≤ fuel) (rest : List Token) :
    (2 ≤ decision.strength → NotReads fuel decision rest) ∧
    (1 ≤ decision.strength → ∀ count, decision.tokens.length ≤ count →
      AndReads fuel count decision rest) ∧
    (rest.head? ≠ some .and → ∀ count, decision.tokens.length ≤ count →
      OrReads fuel count decision rest) := by
  induction decision generalizing fuel rest with
  | condition index =>
    have alone : NotReads fuel (.condition index) rest := by
      obtain ⟨fuel, rfl⟩ := Nat.exists_eq_succ_of_ne_zero (Nat.ne_of_gt enough)
      rfl
    exact alone.reads (Nat.le_succ 2)
  | group inner ih =>
    have alone : NotReads fuel (.group inner) rest := by
      rw [tokens_group, List.length_cons, List.length_append] at enough
      obtain ⟨fuel, rfl⟩ := Nat.exists_eq_succ_of_ne_zero (Nat.ne_of_gt (Nat.zero_lt_of_lt enough))
      have within : inner.tokens.length ≤ fuel := by omega
      have read := (ih uniform within (.closing :: rest)).2.2 (by simp) fuel within
      rw [NotReads, tokens_group, List.cons_append, List.append_assoc, List.singleton_append, parseNot,
        read, chain_of_head_ne (by simp)]
      rfl
    exact alone.reads (Nat.le_succ 2)
  | not spelling inner ih =>
    have alone : NotReads fuel (.not spelling inner) rest := by
      rw [tokens_not, List.length_cons] at enough
      obtain ⟨fuel, rfl⟩ := Nat.exists_eq_succ_of_ne_zero (Nat.ne_of_gt (Nat.zero_lt_of_lt enough))
      have read := (ih uniform.1 (Nat.le_of_succ_le_succ enough) rest).1 uniform.2
      rw [NotReads, tokens_not, List.cons_append, parseNot, read]
      rfl
    exact alone.reads (Nat.le_refl 2)
  | join isAnd spelling left right ihLeft ihRight =>
    obtain ⟨first, second, tight, tighter⟩ := uniform
    rw [tokens_join, List.length_append, List.length_cons] at enough
    have before : left.tokens.length ≤ fuel := by omega
    have behind : right.tokens.length ≤ fuel := by omega
    cases isAnd with
    | true =>
      have joined (count : Nat) (most : (join true spelling left right).tokens.length ≤ count) :
          AndReads fuel count (.join true spelling left right) rest := by
        rw [tokens_join, List.length_append, List.length_cons] at most
        have width := left.andWidth_le
        refine ((ihLeft first before _).2.1 tight count (by omega)).join ?_ (by omega)
        exact (ihRight second behind rest).1 tighter
      exact ⟨fun operand => (Nat.not_succ_le_self 1 operand).elim, fun _ => joined,
        fun ends count most => (joined count most).orReads (Nat.le_refl 1) ends⟩
    | false =>
      refine ⟨fun operand => (Nat.not_succ_le_zero 1 operand).elim,
        fun operand => (Nat.not_succ_le_zero 0 operand).elim, fun ends count most => ?_⟩
      rw [tokens_join, List.length_append, List.length_cons] at most
      have width := left.orWidth_le
      refine ((ihLeft first before _).2.2 (by simp) count (by omega)).join ?_ ends (by omega)
      exact (ihRight second behind rest).2.1 tighter count (by omega)

theorem parseTokens_tokens (decision : Decision) :
    parseTokens decision.tokens = some decision.regroup.shape := by
  have same : decision.regroup.tokens = decision.tokens := by
    rw [tokens, lexemes_regroup, ← tokens]
  have read := (reads decision.uniform_regroup (Nat.le_refl _) []).2.2 (by simp) _ (Nat.le_refl _)
  rw [OrReads, List.append_nil, chain_of_head_ne (by simp)] at read
  rw [← same, parseTokens, read]
  rfl

end Decision

/-- No condition stands right behind an operand: `behind` says whether one has just ended. -/
def Separated : Bool → List Token → Prop
  | _, [] => True
  | behind, .condition _ :: rest => behind = false ∧ Separated true rest
  | _, .closing :: rest => Separated true rest
  | _, _ :: rest => Separated false rest

def Operand (reads : Reads) : Prop :=
  ∀ tokens shape rest, reads tokens = some (shape, rest) → Separated true rest → Separated false tokens

section Operand

variable {operator : Token} {join : Shape → Shape → Shape} {item : Reads} {count : Nat}

theorem Operand.chain (operand : Operand item) (between : operator = .and ∨ operator = .or)
    {left shape : Shape} {tokens rest : List Token}
    (read : chain operator join item count left tokens = some (shape, rest))
    (separated : Separated true rest) : Separated true tokens := by
  induction count generalizing left tokens with
  | zero =>
    rw [DecisionShape.chain] at read
    split at read
    · cases read
    · cases read
      exact separated
  | succ count ih =>
    rw [DecisionShape.chain] at read
    split at read
    · next head =>
      obtain ⟨⟨right, behind⟩, one, more⟩ := Option.bind_eq_some_iff.mp read
      have later := operand _ _ _ one (ih more)
      obtain ⟨tail, rfl⟩ := List.head?_eq_some_iff.mp head
      rcases between with rfl | rfl <;> exact later
    · cases read
      exact separated

theorem Operand.parseAnd (operand : Operand item) : Operand (parseAnd item count) := by
  intro tokens shape rest read separated
  obtain ⟨⟨left, behind⟩, one, more⟩ := Option.bind_eq_some_iff.mp read
  exact operand _ _ _ one (operand.chain (.inl rfl) more separated)

theorem Operand.parseOr (operand : Operand item) : Operand (parseOr item count) := by
  intro tokens shape rest read separated
  obtain ⟨⟨left, behind⟩, one, more⟩ := Option.bind_eq_some_iff.mp read
  exact operand.parseAnd _ _ _ one (operand.parseAnd.chain (.inr rfl) more separated)

theorem operand_parseNot (fuel : Nat) : Operand (parseNot fuel) := by
  induction fuel with
  | zero =>
    intro tokens shape rest read
    cases read
  | succ fuel ih =>
    intro tokens shape rest read separated
    cases tokens with
    | nil => cases read
    | cons first tail =>
      cases first with
      | condition index =>
        cases read
        exact ⟨rfl, separated⟩
      | not =>
        obtain ⟨⟨inner, behind⟩, one, same⟩ := Option.map_eq_some_iff.mp read
        cases same
        exact ih tail _ _ one separated
      | opening =>
        obtain ⟨⟨inner, behind⟩, all, ends⟩ := Option.bind_eq_some_iff.mp read
        dsimp only at ends
        split at ends
        · next head =>
          cases ends
          obtain ⟨after, rfl⟩ := List.head?_eq_some_iff.mp head
          exact ih.parseOr tail _ _ all separated
        · cases ends
      | _ => cases read

theorem separated_of_parseTokens {tokens : List Token} {shape : Shape}
    (read : parseTokens tokens = some shape) : Separated false tokens := by
  obtain ⟨⟨inner, rest⟩, all, ends⟩ := Option.bind_eq_some_iff.mp read
  dsimp only at ends
  split at ends
  · next none =>
    subst none
    exact (operand_parseNot _).parseOr _ _ _ all trivial
  · cases ends

end Operand

end Supercov.DecisionShape
