import Supercov.Library.Evaluations
import Mathlib.Data.BitVec

/-!
# Decision vectors in one word

The Go and the Java runtime keep an evaluation as two words, the conditions
evaluated and those that were true, and record it as one key: both words and
the outcome, packed.
-/

namespace Supercov.Runtime

open ShortCircuit

abbrev Word := BitVec 64

instance : LawfulBEq Word := inferInstance

def packedValueShift : Nat := 24
def packedOutcomeShift : Nat := 48
def packedMaxWidth : Nat := 24

def bit (index : Nat) : Word := 1#64 <<< index

/-- An evaluation so far: the conditions evaluated, and those that were true. -/
structure Words where
  evaluating : Word
  truth : Word
  deriving DecidableEq, Repr

def Words.empty : Words := { evaluating := 0, truth := 0 }

/-- What the first condition starts afresh and every other adds to. -/
def Words.observe (words : Words) (index : Nat) (value : Bool) : Words :=
  let words :=
    if index = 0 then { evaluating := bit index, truth := 0 }
    else { words with evaluating := words.evaluating ||| bit index }
  if value then { words with truth := words.truth ||| bit index } else words

def Words.note (words : Words) (index : Nat) (value : Bool) : Words :=
  { evaluating := words.evaluating ||| bit index
    truth := if value then words.truth ||| bit index else words.truth }

def wordsOf (seen : Seen) : Words :=
  seen.foldl (fun words observed => words.note observed.1 observed.2) .empty

def Words.key (words : Words) (outcome : Bool) : Word :=
  let key := words.evaluating ||| (words.truth <<< packedValueShift)
  if outcome then key ||| (1#64 <<< packedOutcomeShift) else key

def maskOf (key : Word) : Word := key &&& ((1#64 <<< packedValueShift) - 1#64)

/-- The key says of an evaluation which conditions it evaluated, which of them
were true and what came out, and nothing else. -/
structure Describes (key : Word) (evaluation : Evaluation) : Prop where
  evaluated : ∀ index < packedMaxWidth,
    key.getLsbD index = true ↔ ∃ value, (index, value) ∈ evaluation.seen
  truth : ∀ index < packedMaxWidth,
    key.getLsbD (packedValueShift + index) = true ↔ (index, true) ∈ evaluation.seen
  outcome : key.getLsbD packedOutcomeShift = evaluation.outcome
  nothingElse : ∀ position, packedOutcomeShift < position → key.getLsbD position = false

def Measured (program : List Shape) (decision : Nat) : Prop :=
  ∃ shape, program[decision]? = some shape ∧ shape.size ≤ packedMaxWidth

@[simp]
theorem getLsbD_bit (index position : Nat) :
    (bit index).getLsbD position = decide (position < 64 ∧ position = index) := by
  simp only [bit, BitVec.getLsbD_shiftLeft, BitVec.getLsbD_one]
  grind

theorem wordsOf_append (seen : Seen) (index : Nat) (value : Bool) :
    wordsOf (seen ++ [(index, value)]) = (wordsOf seen).note index value := by
  simp [wordsOf]

theorem getLsbD_evaluating (seen : Seen) (position : Nat) :
    (wordsOf seen).evaluating.getLsbD position = true ↔
      position < 64 ∧ ∃ value, (position, value) ∈ seen := by
  induction seen using List.reverseRecOn with
  | nil => simp [wordsOf, Words.empty]
  | append_singleton seen observed ih =>
    rw [wordsOf_append, Words.note, BitVec.getLsbD_or, Bool.or_eq_true, ih, getLsbD_bit,
      decide_eq_true_eq]
    simp only [List.mem_append, List.mem_singleton]
    grind

theorem getLsbD_truth (seen : Seen) (position : Nat) :
    (wordsOf seen).truth.getLsbD position = true ↔
      position < 64 ∧ (position, true) ∈ seen := by
  induction seen using List.reverseRecOn with
  | nil => simp [wordsOf, Words.empty]
  | append_singleton seen observed ih =>
    obtain ⟨index, value⟩ := observed
    rw [wordsOf_append, Words.note, List.mem_append, List.mem_singleton]
    cases value with
    | true =>
      rw [if_pos rfl, BitVec.getLsbD_or, Bool.or_eq_true, ih, getLsbD_bit, decide_eq_true_eq,
        Prod.mk.injEq]
      tauto
    | false =>
      simp only [Bool.false_eq_true, if_false, ih, Prod.mk.injEq, Bool.true_eq_false, and_false,
        or_false]

theorem getLsbD_key (words : Words) (outcome : Bool) (position : Nat) :
    (words.key outcome).getLsbD position = true ↔
      words.evaluating.getLsbD position = true ∨
        (position < 64 ∧ packedValueShift ≤ position ∧
          words.truth.getLsbD (position - packedValueShift) = true) ∨
        (outcome = true ∧ position = packedOutcomeShift) := by
  have packed : (words.evaluating ||| (words.truth <<< packedValueShift)).getLsbD position = true ↔
      words.evaluating.getLsbD position = true ∨
        (position < 64 ∧ packedValueShift ≤ position ∧
          words.truth.getLsbD (position - packedValueShift) = true) := by
    simp [BitVec.getLsbD_or, BitVec.getLsbD_shiftLeft, and_assoc]
  have flag : (1#64 <<< packedOutcomeShift).getLsbD position = true ↔
      position = packedOutcomeShift := by
    change (bit packedOutcomeShift).getLsbD position = true ↔ position = packedOutcomeShift
    rw [getLsbD_bit, decide_eq_true_eq]
    constructor
    · exact And.right
    · intro same
      exact ⟨by rw [same]; decide, same⟩
  unfold Words.key
  cases outcome with
  | true =>
    simp only [if_true, BitVec.getLsbD_or (x := _ ||| _), Bool.or_eq_true, packed, flag, true_and]
    exact or_assoc
  | false => simp only [Bool.false_eq_true, if_false, packed, false_and, or_false]

theorem key_describes (evaluation : Evaluation)
    (narrow : ∀ observed ∈ evaluation.seen, observed.1 < packedMaxWidth) :
    Describes ((wordsOf evaluation.seen).key evaluation.outcome) evaluation := by
  have absent : ∀ position, packedMaxWidth ≤ position → ∀ value,
      (position, value) ∉ evaluation.seen := fun position high value member =>
    absurd (narrow _ member) (Nat.not_lt.mpr high)
  simp only [packedMaxWidth] at absent
  constructor
  · intro index low
    simp only [packedMaxWidth] at low
    simp only [getLsbD_key, getLsbD_evaluating, packedValueShift, packedOutcomeShift]
    grind
  · intro index low
    simp only [packedMaxWidth] at low
    simp only [getLsbD_key, getLsbD_evaluating, getLsbD_truth, packedValueShift,
      packedOutcomeShift]
    grind
  · apply Bool.eq_iff_iff.mpr
    simp only [getLsbD_key, getLsbD_evaluating, getLsbD_truth, packedValueShift,
      packedOutcomeShift]
    grind
  · intro position high
    apply Bool.eq_false_iff.mpr
    simp only [packedOutcomeShift] at high
    simp only [ne_eq, getLsbD_key, getLsbD_evaluating, getLsbD_truth, packedValueShift,
      packedOutcomeShift]
    grind

theorem evaluating_ne_zero {seen : Seen} {value : Bool} (begun : (0, value) ∈ seen) :
    (wordsOf seen).evaluating ≠ 0 := by
  intro empty
  have first := (getLsbD_evaluating seen 0).mpr ⟨by decide, value, begun⟩
  simp [empty] at first

theorem maskOf_key_ne_zero {seen : Seen} {value : Bool} (begun : (0, value) ∈ seen)
    (outcome : Bool) : maskOf ((wordsOf seen).key outcome) ≠ 0 := by
  intro empty
  have first := (getLsbD_key (wordsOf seen) outcome 0).mpr
    (Or.inl ((getLsbD_evaluating seen 0).mpr ⟨by decide, value, begun⟩))
  have masked : (maskOf ((wordsOf seen).key outcome)).getLsbD 0 = true := by
    rw [maskOf, BitVec.getLsbD_and, first]
    decide
  simp [empty] at masked

theorem observe_wordsOf {shape : Shape} {seen : Seen} {index : Nat} {words : Words}
    (path : shape.Path seen) (waits : shape.next seen = .waiting index)
    (kept : seen ≠ [] → words = wordsOf seen) (value : Bool) :
    words.observe index value = wordsOf (seen ++ [(index, value)]) := by
  by_cases begun : seen = []
  · subst begun
    rw [Shape.next_nil] at waits
    cases waits
    cases value <;> rfl
  · have later : index ≠ 0 := Nat.ne_of_gt (path.pos waits begun)
    rw [kept begun, wordsOf_append]
    cases value <;> simp [Words.observe, Words.note, later]

theorem Words.observe_of_le {index : Nat} (wide : 64 ≤ index) (value : Bool) (words : Words) :
    words.observe index value = words := by
  have none_ : bit index = 0 := by
    apply BitVec.eq_of_getLsbD_eq
    intro position inside
    have apart : position ≠ index := by omega
    simp [apart]
  have later : index ≠ 0 := by omega
  cases value <;> simp [Words.observe, later, none_]

end Supercov.Runtime
