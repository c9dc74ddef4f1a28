import Supercov.Analysis.Independence
import Supercov.Library.ReadOnce
import Supercov.Request.Declaration

/-!
# A decision's shape, read back

A decision is kept as its source and the sources of its conditions.  Its tokens are read
from the text, each condition where its text comes next, and parsed by one grammar for
all languages: `or` binds loosest, then `and`, then `not`.  Every assignment of the
conditions is then evaluated, and shows one vector.
-/

namespace Supercov.DecisionShape

open Analysis (McdcVector)
open ReadOnce (Formula)
open Request (isWhitespace)

def maxConditions : Nat := 16

inductive Shape where
  | condition (index : Nat)
  | not (inner : Shape)
  | and (left right : Shape)
  | or (left right : Shape)
  deriving DecidableEq, Repr

inductive Token where
  | condition (index : Nat)
  | not
  | and
  | or
  | opening
  | closing
  deriving DecidableEq, Repr

section Tokens

/-- `str::strip_prefix`. -/
def stripPrefix : List Char → List Char → Option (List Char)
  | [], rest => some rest
  | _ :: _, [] => none
  | first :: keyword, c :: rest => if first = c then stripPrefix keyword rest else none

variable (isAlphanumeric : Char → Bool)

/-- What may stand right behind a keyword: no character of a name. -/
def endsWord (after : List Char) : Bool :=
  after.head?.all fun c => !(isAlphanumeric c || c = '_')

/-- `rest` after `keyword` standing as a word of its own. -/
def word (keyword rest : List Char) : Option (List Char) :=
  (stripPrefix keyword rest).filter (endsWord isAlphanumeric)

/-- An operator or a parenthesis, in any of the languages' spellings. -/
def operator (rest : List Char) : Option (Token × List Char) :=
  (stripPrefix "&&".toList rest).map (.and, ·) <|>
  (stripPrefix "||".toList rest).map (.or, ·) <|>
  (word isAlphanumeric "and".toList rest).map (.and, ·) <|>
  (word isAlphanumeric "or".toList rest).map (.or, ·) <|>
  (word isAlphanumeric "not".toList rest).map (.not, ·) <|>
  ((stripPrefix ['!'] rest).filter (·.head? ≠ some '=')).map (.not, ·) <|>
  (stripPrefix ['('] rest).map (.opening, ·) <|>
  (stripPrefix [')'] rest).map (.closing, ·)

/-- The text behind the next condition, where its text stands first. -/
def nextCondition (conditions : List (List Char)) (next : Nat) (rest : List Char) :
    Option (List Char) :=
  ((conditions[next]?).filter (· ≠ [])).bind (stripPrefix · rest)

/-- The tokens of the text, where `next` conditions have been read. -/
def tokensFrom (conditions : List (List Char)) : Nat → List Char → Nat → Option (List Token)
  -- Every token is of a character at least, so the text's length is enough.
  | 0, _, _ => none
  | fuel + 1, source, next =>
    let rest := source.dropWhile isWhitespace
    if rest = [] then
      if next = conditions.length then some [] else none
    else
      -- A condition's own text first: it may begin with `!` or `(`.
      match nextCondition conditions next rest with
      | some after => (tokensFrom conditions fuel after (next + 1)).map (.condition next :: ·)
      | none =>
        match operator isAlphanumeric rest with
        | some (token, after) => (tokensFrom conditions fuel after next).map (token :: ·)
        | none => none

def tokens (source : String) (conditions : List String) : Option (List Token) :=
  tokensFrom isAlphanumeric (conditions.map String.toList) (source.length + 1) source.toList 0

end Tokens

section Parser

abbrev Reads := List Token → Option (Shape × List Token)

def chain (operator : Token) (join : Shape → Shape → Shape) (item : Reads) : Nat → Shape → Reads
  | 0, left, tokens => if tokens.head? = some operator then none else some (left, tokens)
  | count + 1, left, tokens =>
    if tokens.head? = some operator then
      (item tokens.tail).bind fun (right, rest) =>
        chain operator join item count (join left right) rest
    else some (left, tokens)

/-- `Parser::and`, over `Parser::not`. -/
def parseAnd (not : Reads) (count : Nat) : Reads := fun tokens =>
  (not tokens).bind fun (left, rest) => chain .and .and not count left rest

/-- `Parser::or`, over `Parser::not`. -/
def parseOr (not : Reads) (count : Nat) : Reads := fun tokens =>
  (parseAnd not count tokens).bind fun (left, rest) =>
    chain .or .or (parseAnd not count) count left rest

/-- `Parser::not`, to a nesting of so many. -/
def parseNot : Nat → Reads
  | 0, _ => none
  | fuel + 1, .not :: rest => (parseNot fuel rest).map fun (inner, rest) => (.not inner, rest)
  | fuel + 1, .opening :: rest =>
    (parseOr (parseNot fuel) fuel rest).bind fun (inner, rest) =>
      if rest.head? = some .closing then some (inner, rest.tail) else none
  | _ + 1, .condition index :: rest => some (.condition index, rest)
  | _ + 1, _ => none

def parseTokens (tokens : List Token) : Option Shape :=
  (parseOr (parseNot tokens.length) tokens.length tokens).bind fun (shape, rest) =>
    if rest = [] then some shape else none

end Parser

def parse (isAlphanumeric : Char → Bool) (source : String) (conditions : List String) :
    Option Shape :=
  (tokens isAlphanumeric source conditions).bind parseTokens

/-- The outcome, recording each condition evaluated on the way. -/
def evaluate (values : List Bool) : Shape → List (Option Bool) → Bool × List (Option Bool)
  | .condition index, seen =>
    -- Tokens number the conditions there are, so there is a value.
    let value := values.getD index false
    (value, seen.set index (some value))
  | .not inner, seen =>
    let (outcome, seen) := evaluate values inner seen
    (!outcome, seen)
  | .and left right, seen =>
    let (outcome, seen) := evaluate values left seen
    if outcome then evaluate values right seen else (false, seen)
  | .or left right, seen =>
    let (outcome, seen) := evaluate values left seen
    if outcome then (true, seen) else evaluate values right seen

def vectorOf (shape : Shape) (size assignment : Nat) : McdcVector :=
  let values := (List.range size).map assignment.testBit
  let (outcome, seen) := evaluate values shape (List.replicate size none)
  { values := seen, outcome }

def addVector (vectors : List McdcVector) (vector : McdcVector) : List McdcVector :=
  if vector ∈ vectors then vectors else vectors ++ [vector]

/-- Every vector the decision can produce, where its source reads as its conditions. -/
def possibleVectors (isAlphanumeric : Char → Bool) (source : String) (conditions : List String) :
    Option (List McdcVector) :=
  if conditions = [] ∨ maxConditions < conditions.length then none
  else
    (parse isAlphanumeric source conditions).map fun shape =>
      ((List.range (2 ^ conditions.length)).map (vectorOf shape conditions.length)).foldl addVector []

section Vectors

def Shape.formula : Shape → Formula
  | .condition index => .condition index
  | .not inner => .not inner.formula
  | .and left right => .junction true left.formula right.formula
  | .or left right => .junction false left.formula right.formula

def shownVector (formula : Formula) (size : Nat) (values : Nat → Bool) : McdcVector where
  values := (formula.shown size values).1
  outcome := (formula.shown size values).2

variable {shape : Shape} {size : Nat}

theorem evaluate_eq (values : Nat → Bool) (within : ∀ index ∈ shape.formula.conditions, index < size)
    (seen : Nat → Option Bool) :
    evaluate ((List.range size).map values) shape ((List.range size).map seen) =
      (shape.formula.outcome values, (List.range size).map fun index =>
        if index ∈ shape.formula.evaluated values then some (values index) else seen index) := by
  induction shape generalizing seen with
  | condition index =>
    have inside : index < size := within index (List.mem_singleton_self _)
    have value : ((List.range size).map values).getD index false = values index := by simp [inside]
    rw [evaluate, value]
    refine Prod.ext rfl ?_
    apply List.ext_getElem
    · simp
    · intro place _ _
      by_cases here : index = place
      · simp [here, Shape.formula, Formula.evaluated]
      · simp [here, Ne.symm here, Shape.formula, Formula.evaluated]
  | not inner ih => rw [evaluate, ih within]; rfl
  | and left right ihLeft ihRight =>
    rw [Shape.formula, Formula.conditions, List.forall_mem_append] at within
    rw [evaluate, ihLeft within.1]
    cases ends : left.formula.outcome values with
    | true =>
      dsimp only
      rw [if_pos rfl, ihRight within.2]
      refine Prod.ext (by simp [Shape.formula, Formula.outcome, ends]) ?_
      apply List.map_congr_left
      intro index _
      simp only [Shape.formula, Formula.evaluated, ends, if_true, List.mem_append]
      by_cases later : index ∈ right.formula.evaluated values <;> simp [later]
    | false => simp [Shape.formula, Formula.outcome, Formula.evaluated, ends]
  | or left right ihLeft ihRight =>
    rw [Shape.formula, Formula.conditions, List.forall_mem_append] at within
    rw [evaluate, ihLeft within.1]
    cases ends : left.formula.outcome values with
    | true => simp [Shape.formula, Formula.outcome, Formula.evaluated, ends]
    | false =>
      dsimp only
      rw [if_neg Bool.false_ne_true, ihRight within.2]
      refine Prod.ext (by simp [Shape.formula, Formula.outcome, ends]) ?_
      apply List.map_congr_left
      intro index _
      simp only [Shape.formula, Formula.evaluated, ends, if_true, List.mem_append]
      by_cases later : index ∈ right.formula.evaluated values <;> simp [later]

theorem vectorOf_eq (within : ∀ index ∈ shape.formula.conditions, index < size) (assignment : Nat) :
    vectorOf shape size assignment = shownVector shape.formula size assignment.testBit := by
  have unseen : List.replicate size (none : Option Bool) = (List.range size).map fun _ => none := by
    simp
  rw [vectorOf, unseen, evaluate_eq assignment.testBit within]
  rfl

theorem foldl_addVector (vectors made : List McdcVector) (once : made.Nodup) :
    (vectors.foldl addVector made).Nodup ∧
      ∀ vector, vector ∈ vectors.foldl addVector made ↔ vector ∈ made ∨ vector ∈ vectors := by
  induction vectors generalizing made with
  | nil => simp [once]
  | cons first rest ih =>
    rw [List.foldl_cons, addVector]
    split
    · next held =>
      obtain ⟨distinct, members⟩ := ih made once
      refine ⟨distinct, fun vector => ?_⟩
      rw [members, List.mem_cons]
      constructor
      · tauto
      · rintro (old | rfl | later)
        · exact Or.inl old
        · exact Or.inl held
        · exact Or.inr later
    · next absent =>
      have fresh : (made ++ [first]).Nodup :=
        List.nodup_append.mpr ⟨once, List.nodup_singleton _, by
          rintro vector member _ rest rfl
          exact absent (List.mem_singleton.mp rest ▸ member)⟩
      obtain ⟨distinct, members⟩ := ih _ fresh
      refine ⟨distinct, fun vector => ?_⟩
      rw [members, List.mem_append, List.mem_singleton, List.mem_cons, or_assoc]

theorem exists_assignment (size : Nat) (values : Nat → Bool) :
    ∃ assignment < 2 ^ size, ∀ index < size, assignment.testBit index = values index := by
  refine ⟨Nat.ofBits fun index : Fin size => values index, Nat.ofBits_lt_two_pow _, ?_⟩
  intro index inside
  rw [Nat.testBit_ofBits_lt _ _ inside]

theorem shown_congr {formula : Formula} (within : ∀ index ∈ formula.conditions, index < size)
    {values values' : Nat → Bool} (agree : ∀ index < size, values index = values' index) :
    shownVector formula size values = shownVector formula size values' := by
  have alike : ∀ index ∈ formula.evaluated values, values index = values' index := fun index member =>
    agree index (within index ((ReadOnce.evaluated_sublist _ _).subset member))
  obtain ⟨same, ends⟩ := ReadOnce.evaluated_congr alike
  simp only [shownVector, Formula.shown, same, ends, McdcVector.mk.injEq, and_true]
  apply List.map_congr_left
  intro index inside
  rw [agree index (List.mem_range.mp inside)]

theorem mem_vectors (within : ∀ index ∈ shape.formula.conditions, index < size) :
    let vectors := ((List.range (2 ^ size)).map (vectorOf shape size)).foldl addVector []
    vectors.Nodup ∧
      ∀ vector, vector ∈ vectors ↔ ∃ values, shownVector shape.formula size values = vector := by
  obtain ⟨once, members⟩ :=
    foldl_addVector ((List.range (2 ^ size)).map (vectorOf shape size)) [] List.nodup_nil
  refine ⟨once, fun vector => ?_⟩
  rw [members]
  simp only [List.not_mem_nil, false_or, List.mem_map, List.mem_range]
  constructor
  · rintro ⟨assignment, -, rfl⟩
    exact ⟨_, (vectorOf_eq within assignment).symm⟩
  · rintro ⟨values, rfl⟩
    obtain ⟨assignment, small, bits⟩ := exists_assignment size values
    exact ⟨assignment, small, (vectorOf_eq within assignment).trans (shown_congr within bits)⟩

end Vectors

end Supercov.DecisionShape
