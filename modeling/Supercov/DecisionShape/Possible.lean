import Supercov.DecisionShape.Writing

/-!
# The vectors that a written decision can produce

A decision's possible vectors are those of the tree that its text is read as.  They are
the decision's own exactly where the conditions of both trees lead to the same places.
-/

namespace Supercov.DecisionShape

open Analysis (McdcVector)
open ReadOnce (Formula)

/-- A decision in its language, and its text behind the blanks of each lexeme. -/
structure Written (isAlphanumeric : Char → Bool) (language : Language) (decision : Decision)
    (pieces : List Piece) (trailing : List Char) (source : String) (conditions : List String) :
    Prop where
  grammatical : language.Grammatical decision
  lexemes : pieces.map Prod.snd = decision.lexemes
  spaced : Spaced isAlphanumeric (conditions.map String.toList) trailing pieces
  text : source.toList = render (conditions.map String.toList) trailing pieces
  numbered : decision.formula.conditions = List.range conditions.length
  readable : ∀ condition ∈ conditions, Readable condition.toList

/-- The vectors are those of the decision's evaluations, each once. -/
def Exact (decision : Decision) (size : Nat) (vectors : List McdcVector) : Prop :=
  vectors.Nodup ∧
    ∀ vector, vector ∈ vectors ↔ ∃ values, shownVector decision.formula size values = vector

section Written

variable {isAlphanumeric : Char → Bool} {language : Language} {decision : Decision}
  {pieces : List Piece} {trailing : List Char} {source : String} {conditions : List String}

theorem Written.parse (written : Written isAlphanumeric language decision pieces trailing source conditions) :
    (Found (conditions.map String.toList) trailing 0 pieces →
      parse isAlphanumeric source conditions = some decision.regroup.shape) ∧
    (¬Found (conditions.map String.toList) trailing 0 pieces →
      parse isAlphanumeric source conditions = none) := by
  have readable : ∀ text ∈ conditions.map String.toList, Readable text := by
    simpa using written.readable
  have alternates : Alternates false (pieces.map Prod.snd) := by
    have all : Alternates false (decision.lexemes ++ []) := decision.alternates rfl
    rwa [List.append_nil, ← written.lexemes] at all
  have numbered : (pieces.map Prod.snd).filterMap Lexeme.index? = List.range' 0 conditions.length := by
    rw [written.lexemes, ← decision.conditions_formula, written.numbered, List.range_eq_range']
  have enough : (render (conditions.map String.toList) trailing pieces).length < source.length + 1 := by
    rw [← written.text, String.length_toList]
    exact Nat.lt_succ_self _
  obtain ⟨forth, back⟩ :=
    tokensFrom_render readable written.spaced alternates numbered (by simp) enough
  rw [← written.text] at forth back
  constructor
  · intro found
    rw [DecisionShape.parse, tokens, forth found]
    have all : pieces.map (fun piece => piece.2.token) = decision.tokens := by
      rw [Decision.tokens, ← written.lexemes, List.map_map]
      rfl
    rw [all]
    exact decision.parseTokens_tokens
  · intro hidden
    apply Option.eq_none_iff_forall_ne_some.mpr
    intro shape read
    obtain ⟨all, read, parsed⟩ := Option.bind_eq_some_iff.mp read
    exact hidden (back all read (separated_of_parseTokens parsed))

theorem shownVector_iff_exits {formula other : Formula} {size : Nat}
    (left : formula.conditions = List.range size) (right : other.conditions = List.range size) :
    (∀ vector, (∃ values, shownVector formula size values = vector) ↔
      ∃ values, shownVector other size values = vector) ↔ formula.exits = other.exits := by
  have same (formula : Formula) (vector : McdcVector) :
      (∃ values, shownVector formula size values = vector) ↔
        ∃ values, formula.shown size values = (vector.values, vector.outcome) := by
    cases vector
    simp only [shownVector, McdcVector.mk.injEq, Prod.ext_iff]
  rw [← ReadOnce.shown_iff_exits left right]
  constructor
  · intro shows seen
    have shown := shows { values := seen.1, outcome := seen.2 }
    rw [same, same] at shown
    exact shown.symm
  · intro shows vector
    rw [same, same]
    exact (shows _).symm

/-- Ruby's `a or b and c`, which is `(a or b) and c`. -/
def orThenAnd : Decision :=
  .join true .word (.join false .word (.condition 0) (.condition 1)) (.condition 2)

def orThenAndPieces : List Piece :=
  [([], .condition 0), ([' '], .join false .word), ([' '], .condition 1), ([' '], .join true .word),
    ([' '], .condition 2)]

theorem orThenAnd_written :
    Written Char.isAlphanum .ruby orThenAnd orThenAndPieces [] "a or b and c" ["a", "b", "c"] where
  grammatical := by decide
  lexemes := rfl
  spaced := by decide
  text := by decide
  numbered := rfl
  readable := by
    intro condition member
    simp only [List.mem_cons, List.not_mem_nil, or_false] at member
    rcases member with rfl | rfl | rfl <;> exact readable_of_head (by decide) (by decide)

end Written

end Supercov.DecisionShape
