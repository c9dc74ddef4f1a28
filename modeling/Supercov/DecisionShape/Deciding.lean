import Supercov.Analysis.Growth
import Supercov.DecisionShape.Parsing

/-!
# Each condition of a decision can decide it alone

The tokens of a decision hold each of its conditions once, in turn, and so does the shape
that they are parsed as.  Of the vectors that such a shape can show, two are an independence
pair of any given condition.
-/

namespace Supercov.DecisionShape

open Analysis (McdcVector isIndependencePair isIndependencePair_iff AgreeElsewhere)
open ReadOnce (Formula)

section Conditions

def Token.index? : Token → Option Nat
  | .condition index => some index
  | _ => none

def Counts (reads : Reads) : Prop :=
  ∀ tokens shape rest, reads tokens = some (shape, rest) →
    tokens.filterMap Token.index? = shape.formula.conditions ++ rest.filterMap Token.index?

variable {operator : Token} {join : Shape → Shape → Shape} {item : Reads} {count : Nat}

theorem Counts.chain (counts : Counts item) (between : operator.index? = none)
    (joins : ∀ left right, (join left right).formula.conditions =
      left.formula.conditions ++ right.formula.conditions)
    {left shape : Shape} {tokens rest : List Token}
    (read : chain operator join item count left tokens = some (shape, rest)) :
    left.formula.conditions ++ tokens.filterMap Token.index? =
      shape.formula.conditions ++ rest.filterMap Token.index? := by
  induction count generalizing left tokens with
  | zero =>
    rw [DecisionShape.chain] at read
    split at read
    · cases read
    · cases read
      rfl
  | succ count ih =>
    rw [DecisionShape.chain] at read
    split at read
    · next head =>
      obtain ⟨⟨right, behind⟩, one, more⟩ := Option.bind_eq_some_iff.mp read
      have whole := ih more
      obtain ⟨tail, rfl⟩ := List.head?_eq_some_iff.mp head
      have taken := counts _ _ _ one
      rw [List.tail_cons] at taken
      rw [List.filterMap_cons_none between, taken, ← whole, joins, List.append_assoc]
    · cases read
      rfl

theorem Counts.parseAnd (counts : Counts item) : Counts (parseAnd item count) := by
  intro tokens shape rest read
  obtain ⟨⟨left, behind⟩, one, more⟩ := Option.bind_eq_some_iff.mp read
  exact (counts _ _ _ one).trans (counts.chain rfl (fun _ _ => rfl) more)

theorem Counts.parseOr (counts : Counts item) : Counts (parseOr item count) := by
  intro tokens shape rest read
  obtain ⟨⟨left, behind⟩, one, more⟩ := Option.bind_eq_some_iff.mp read
  exact (counts.parseAnd _ _ _ one).trans (counts.parseAnd.chain rfl (fun _ _ => rfl) more)

theorem counts_parseNot (fuel : Nat) : Counts (parseNot fuel) := by
  induction fuel with
  | zero =>
    intro tokens shape rest read
    cases read
  | succ fuel ih =>
    intro tokens shape rest read
    cases tokens with
    | nil => cases read
    | cons first tail =>
      cases first with
      | condition index =>
        cases read
        rfl
      | not =>
        obtain ⟨⟨inner, behind⟩, one, same⟩ := Option.map_eq_some_iff.mp read
        cases same
        exact ih tail inner _ one
      | opening =>
        obtain ⟨⟨inner, behind⟩, all, ends⟩ := Option.bind_eq_some_iff.mp read
        dsimp only at ends
        split at ends
        · next head =>
          cases ends
          obtain ⟨after, rfl⟩ := List.head?_eq_some_iff.mp head
          exact ih.parseOr tail shape (.closing :: after) all
        · cases ends
      | _ => cases read

end Conditions

section Tokens

variable {isAlphanumeric : Char → Bool}

def Joins (read : Option (Token × List Char)) : Prop :=
  ∀ token after, read = some (token, after) → token.index? = none

theorem joins_map {token : Token} (between : token.index? = none) (read : Option (List Char)) :
    Joins (read.map (token, ·)) := by
  intro token' after found
  obtain ⟨after, -, same⟩ := Option.map_eq_some_iff.mp found
  cases same
  exact between

theorem Joins.orElse {read other : Option (Token × List Char)} (first : Joins read)
    (second : Joins other) : Joins (read <|> other) := by
  cases read with
  | none => exact second
  | some found => exact first

theorem joins_operator (rest : List Char) : Joins (operator isAlphanumeric rest) := by
  unfold operator
  iterate 7 refine .orElse (joins_map rfl _) ?_
  exact joins_map rfl _

theorem numbered_of_tokensFrom {conditions : List (List Char)} {fuel next : Nat} {source : List Char}
    {tokens : List Token} (read : tokensFrom isAlphanumeric conditions fuel source next = some tokens)
    (within : next ≤ conditions.length) :
    tokens.filterMap Token.index? = List.range' next (conditions.length - next) := by
  induction fuel generalizing source next tokens with
  | zero => cases read
  | succ fuel ih =>
    unfold tokensFrom at read
    dsimp only at read
    split at read
    · split at read
      · next all =>
        cases read
        simp [all]
      · cases read
    · split at read
      · next after found =>
        obtain ⟨later, read', rfl⟩ := Option.map_eq_some_iff.mp read
        have lt : next < conditions.length := by
          obtain ⟨text, given, -⟩ := Option.bind_eq_some_iff.mp found
          exact (List.getElem?_eq_some_iff.mp (Option.filter_eq_some_iff.mp given).1).1
        rw [List.filterMap_cons_some (show Token.index? (.condition next) = some next from rfl),
          ih read' lt, show conditions.length - next = conditions.length - (next + 1) + 1 by omega,
          List.range'_succ]
      · split at read
        · next token after found =>
          obtain ⟨later, read', rfl⟩ := Option.map_eq_some_iff.mp read
          rw [List.filterMap_cons_none (joins_operator _ _ _ found), ih read' within]
        · cases read

theorem conditions_of_parse {source : String} {conditions : List String} {shape : Shape}
    (read : parse isAlphanumeric source conditions = some shape) :
    shape.formula.conditions = List.range conditions.length := by
  obtain ⟨tokens, cut, parsed⟩ := Option.bind_eq_some_iff.mp read
  obtain ⟨⟨inner, rest⟩, all, ends⟩ := Option.bind_eq_some_iff.mp parsed
  dsimp only at ends
  split at ends
  · next none =>
    cases ends
    subst none
    have counts := (counts_parseNot _).parseOr _ _ _ all
    rw [List.filterMap_nil, List.append_nil] at counts
    rw [← counts, numbered_of_tokensFrom cut (Nat.zero_le _), List.length_map, Nat.sub_zero,
      List.range_eq_range']
  · cases ends

end Tokens

section Pairs

variable {isAlphanumeric : Char → Bool} {formula : Formula} {size index : Nat}

theorem value_shownVector (formula : Formula) (size : Nat) (values : Nat → Bool) {place : Nat}
    (within : place < size) : (shownVector formula size values).value place =
      if place ∈ formula.evaluated values then some (values place) else none := by
  simp [shownVector, Formula.shown, McdcVector.value, within]

theorem isIndependencePair_shown {values values' : Nat → Bool} (within : index < size)
    (decides : ReadOnce.Decides formula index values values') :
    isIndependencePair (shownVector formula size values) (shownVector formula size values') index := by
  have length (values : Nat → Bool) : (shownVector formula size values).values.length = size := by
    simp [shownVector, Formula.shown]
  refine (isIndependencePair_iff ((length values).trans (length values').symm)).mpr
    ⟨values index, ?_, ?_, decides.ends, ?_⟩
  · rw [value_shownVector formula size values within, if_pos decides.reached]
  · rw [value_shownVector formula size values' within, if_pos decides.reached', decides.flipped]
  · intro place value ne found opposite
    have within' : place < size := length values ▸ McdcVector.lt_of_value_eq_some found
    rw [value_shownVector formula size values within'] at found
    rw [value_shownVector formula size values' within'] at opposite
    split at found
    · split at opposite
      · cases found
        exact absurd (Option.some.inj opposite) (by simp [decides.same place ne])
      · cases opposite
    · cases found

theorem exists_independencePair {source : String} {conditions : List String}
    {vectors : List McdcVector}
    (answered : possibleVectors isAlphanumeric source conditions = some vectors)
    (within : index < conditions.length) :
    (∀ vector ∈ vectors, vector.values.length = conditions.length) ∧
      ∃ first ∈ vectors, ∃ second ∈ vectors, isIndependencePair first second index := by
  unfold possibleVectors at answered
  split at answered
  · cases answered
  · obtain ⟨shape, read, rfl⟩ := Option.map_eq_some_iff.mp answered
    have numbered := conditions_of_parse read
    have inside : ∀ place ∈ shape.formula.conditions, place < conditions.length :=
      fun place member => List.mem_range.mp (numbered ▸ member)
    obtain ⟨-, members⟩ := mem_vectors inside
    have once : shape.formula.conditions.Nodup := numbered ▸ List.nodup_range
    obtain ⟨values, values', decides⟩ :=
      ReadOnce.exists_decides once (numbered ▸ List.mem_range.mpr within)
    constructor
    · intro vector member
      obtain ⟨values, rfl⟩ := (members vector).mp member
      simp [shownVector, Formula.shown]
    · exact ⟨_, (members _).mpr ⟨values, rfl⟩, _, (members _).mpr ⟨values', rfl⟩,
        isIndependencePair_shown within decides⟩

end Pairs

end Supercov.DecisionShape
