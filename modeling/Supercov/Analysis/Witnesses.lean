import Supercov.Analysis.Independence
import Supercov.Library.FirstIndex
import Supercov.Library.PackedSet
import Mathlib.Data.List.Induction

/-!
# Witness search over dense bitsets

`findWitnessesForConditions` rejects incompatible candidates a word at a time.
It is related to the plain scan of all pairs through one invariant: the bit of
vector `i` in a set says what vector `i` is.
-/

namespace Supercov.Analysis

abbrev Bits := List (BitVec 64)

namespace Bits

def empty (items : Nat) : Bits := PackedSet.empty 64 items

def insert (bits : Bits) (index : Nat) : Bits := PackedSet.insert bits index

def andAssign (bits other : Bits) : Bits := PackedSet.update (· &&& ·) bits other

def andNotAssign (bits other : Bits) : Bits :=
  PackedSet.update (fun word mask => word &&& ~~~mask) bits other

def removeThrough (bits : Bits) (index : Nat) : Bits := PackedSet.removeThrough bits index

def first (bits : Bits) : Option Nat := PackedSet.first bits

end Bits

/-- The sets the search keeps: the vectors of each outcome, and for each
condition those that evaluated it to each value. -/
structure Table where
  outcomes : Bool → Bits
  values : Bool → List Bits

def Table.empty (items width : Nat) : Table where
  outcomes _ := Bits.empty items
  values _ := List.replicate width (Bits.empty items)

/-- Note that vector `index` evaluated `condition` to `value`. -/
def noteValue (index : Nat) (sets : Bool → List Bits) :
    Option Bool × Nat → Bool → List Bits
  | (some value, condition) =>
      Function.update sets value ((sets value).modify condition (·.insert index))
  | (none, _) => sets

def Table.note (table : Table) (vector : McdcVector) (index : Nat) : Table where
  outcomes := Function.update table.outcomes vector.outcome
    ((table.outcomes vector.outcome).insert index)
  values := vector.values.zipIdx.foldl (noteValue index) table.values

def Table.of (vectors : List McdcVector) (items width : Nat) : Table :=
  vectors.zipIdx.foldl (fun table (vector, index) => table.note vector index)
    (Table.empty items width)

/-- Drop the candidates a condition other than the target tells apart from `left`. -/
def dropMasked (table : Table) (target : Nat) (candidates : Bits) : Option Bool × Nat → Bits
  | (some value, condition) =>
      if condition = target then candidates
      else candidates.andNotAssign ((table.values (!value)).getD condition [])
  | (none, _) => candidates

def candidatesAfter (table : Table) (left : McdcVector) (leftIndex target : Nat)
    (leftTarget : Bool) : Bits :=
  let candidates := (table.outcomes (!left.outcome)).andAssign
    ((table.values (!leftTarget)).getD target [])
  left.values.zipIdx.foldl (dropMasked table target) (candidates.removeThrough leftIndex)

/-- The second vector of the first pair `left` opens. A left vector that did not
evaluate the target opens none. -/
def secondFor (table : Table) (target : Nat) (left : McdcVector) (leftIndex : Nat) :
    Option Nat :=
  match left.value target with
  | none => none
  | some leftTarget => (candidatesAfter table left leftIndex target leftTarget).first

def witnessFor (table : Table) (vectors : List McdcVector) (target : Nat) :
    Option WitnessIndexes :=
  vectors.zipIdx.findSome? fun (left, leftIndex) =>
    (secondFor table target left leftIndex).map fun second => ⟨leftIndex, second⟩

def findWitnessesForConditions (vectors : List McdcVector) (width : Nat) :
    Except AnalysisError (List (Option WitnessIndexes)) :=
  match vectors.zipIdx.find? fun (vector, _) => vector.values.length ≠ width with
  | some (vector, index) =>
      .error (.inconsistentVectorWidth index width vector.values.length)
  | none =>
      let table := Table.of vectors vectors.length width
      .ok ((List.range width).map (witnessFor table vectors))

/-- A set of as many words as `items` vectors need, in which exactly the
vectors that satisfy `holds` are. -/
structure Marks (items : Nat) (holds : Nat → Prop) (bits : Bits) : Prop where
  words : bits.length = (Bits.empty items).length
  contains : ∀ index, PackedSet.contains bits index = true ↔ holds index

namespace Marks

variable {items : Nat} {holds : Nat → Prop} {bits : Bits}

theorem empty (items : Nat) : Marks items (fun _ => False) (Bits.empty items) where
  words := rfl
  contains index := by simp [Bits.empty]

theorem congr (marks : Marks items holds bits) {holds' : Nat → Prop}
    (same : ∀ index, holds index ↔ holds' index) : Marks items holds' bits where
  words := marks.words
  contains index := (marks.contains index).trans (same index)

theorem insert (marks : Marks items holds bits) {index : Nat} (room : index < items) :
    Marks items (fun other => other = index ∨ holds other) (bits.insert index) where
  words := by simpa [Bits.insert] using marks.words
  contains other := by
    have inside : index / 64 < bits.length := by
      rw [marks.words]
      exact PackedSet.word_lt_length_empty (by decide) room
    simp [Bits.insert, PackedSet.contains_insert (by decide) bits inside, marks.contains]

theorem andAssign (marks : Marks items holds bits) {holds' : Nat → Prop} {other : Bits}
    (marks' : Marks items holds' other) :
    Marks items (fun index => holds index ∧ holds' index) (bits.andAssign other) where
  words := by simpa [Bits.andAssign] using marks.words
  contains index := by
    have same : bits.length = other.length := by rw [marks.words, marks'.words]
    simp [Bits.andAssign, PackedSet.contains_and same, marks.contains, marks'.contains]

theorem andNotAssign (marks : Marks items holds bits) {holds' : Nat → Prop} {other : Bits}
    (marks' : Marks items holds' other) :
    Marks items (fun index => holds index ∧ ¬ holds' index) (bits.andNotAssign other) where
  words := by simpa [Bits.andNotAssign] using marks.words
  contains index := by
    have same : bits.length = other.length := by rw [marks.words, marks'.words]
    rw [Bits.andNotAssign, PackedSet.contains_andNot (by decide) same, Bool.and_eq_true,
      marks.contains, Bool.not_eq_true', ← marks'.contains, Bool.not_eq_true]

theorem removeThrough (marks : Marks items holds bits) (index : Nat) :
    Marks items (fun other => index < other ∧ holds other) (bits.removeThrough index) where
  words := by simpa [Bits.removeThrough] using marks.words
  contains other := by
    simp [Bits.removeThrough, PackedSet.contains_removeThrough, marks.contains]

theorem first_eq_some (marks : Marks items holds bits) (index : Nat) :
    bits.first = some index ↔ holds index ∧ ∀ other < index, ¬ holds other := by
  simp only [Bits.first, PackedSet.first_eq_some_iff (by decide : 0 < 64), marks.contains,
    ← Bool.not_eq_true]

theorem first_eq_none (marks : Marks items holds bits) :
    bits.first = none ↔ ∀ index, ¬ holds index := by
  simp only [Bits.first, PackedSet.first_eq_none_iff (by decide : 0 < 64), marks.contains,
    ← Bool.not_eq_true]

end Marks

/-- `table` describes exactly `vectors`. -/
structure Table.Describes (table : Table) (vectors : List McdcVector) (items width : Nat) :
    Prop where
  outcomes : ∀ outcome, Marks items
    (fun index => ∃ vector, vectors[index]? = some vector ∧ vector.outcome = outcome)
    (table.outcomes outcome)
  sized : ∀ value, (table.values value).length = width
  values : ∀ value condition, condition < width → Marks items
    (fun index => ∃ vector, vectors[index]? = some vector ∧ vector.value condition = some value)
    ((table.values value).getD condition [])

theorem Table.empty_describes (items width : Nat) :
    (Table.empty items width).Describes [] items width where
  outcomes _ := (Marks.empty items).congr (by simp)
  sized _ := by simp [Table.empty]
  values value condition inside := by
    have : ((Table.empty items width).values value).getD condition [] = Bits.empty items := by
      simp [Table.empty, inside]
    rw [this]
    exact (Marks.empty items).congr (by simp)

theorem foldl_noteValue (index : Nat) (values : List (Option Bool)) (start : Nat)
    (sets : Bool → List Bits) (value : Bool) (condition : Nat) :
    ((values.zipIdx start).foldl (noteValue index) sets value)[condition]? =
      if start ≤ condition ∧ values[condition - start]? = some (some value) then
        (sets value)[condition]?.map (·.insert index)
      else (sets value)[condition]? := by
  induction values generalizing start sets with
  | nil => simp
  | cons head tail ih =>
    rw [List.zipIdx_cons, List.foldl_cons, ih]
    rcases Nat.lt_trichotomy condition start with before | here | after
    · have : ¬ start + 1 ≤ condition := by omega
      have : ¬ start ≤ condition := by omega
      have : start ≠ condition := by omega
      cases head with
      | none => simp [noteValue, *]
      | some head =>
        by_cases same : value = head
        · subst same
          simp [noteValue, *]
        · simp [noteValue, *]
    · subst here
      have : ¬ condition + 1 ≤ condition := by omega
      cases head with
      | none => simp [noteValue, *]
      | some head =>
        by_cases same : value = head
        · subst same
          simp [noteValue, *]
        · have : head ≠ value := Ne.symm same
          simp [noteValue, *]
    · have step : condition - start = condition - (start + 1) + 1 := by omega
      have : start + 1 ≤ condition := by omega
      have : start ≤ condition := by omega
      have : start ≠ condition := by omega
      cases head with
      | none => simp [noteValue, *]
      | some head =>
        by_cases same : value = head
        · subst same
          simp [noteValue, *]
        · simp [noteValue, *]

theorem length_foldl_noteValue (index : Nat) (entries : List (Option Bool × Nat))
    (sets : Bool → List Bits) (value : Bool) :
    (entries.foldl (noteValue index) sets value).length = (sets value).length := by
  induction entries generalizing sets with
  | nil => rfl
  | cons entry entries ih =>
    rw [List.foldl_cons, ih]
    rcases entry with ⟨_ | evaluated, condition⟩
    · rfl
    · by_cases same : value = evaluated
      · subst same
        simp [noteValue]
      · simp [noteValue, same]

theorem getElem?_append_singleton_iff {α : Type*} {P : α → Prop} (xs : List α) (x : α)
    (index : Nat) :
    (∃ y, (xs ++ [x])[index]? = some y ∧ P y) ↔
      (index = xs.length ∧ P x) ∨ ∃ y, xs[index]? = some y ∧ P y := by
  rcases Nat.lt_trichotomy index xs.length with inside | last | past
  · have : index ≠ xs.length := by omega
    simp [List.getElem?_append_left inside, this]
  · subst last
    simp
  · have : index ≠ xs.length := by omega
    have none_here : xs[index]? = none := List.getElem?_eq_none (by omega)
    have none_there : (xs ++ [x])[index]? = none := List.getElem?_eq_none (by simp; omega)
    simp [this, none_here, none_there]

theorem Table.Describes.note {table : Table} {vectors : List McdcVector} {items width : Nat}
    (describes : table.Describes vectors items width) (vector : McdcVector)
    (room : vectors.length < items) :
    (table.note vector vectors.length).Describes (vectors ++ [vector]) items width where
  outcomes outcome := by
    by_cases same : outcome = vector.outcome
    · subst same
      simp only [Table.note, Function.update_self]
      refine ((describes.outcomes vector.outcome).insert room).congr fun index => ?_
      rw [getElem?_append_singleton_iff]
      simp
    · simp only [Table.note, Function.update_of_ne same]
      refine (describes.outcomes outcome).congr fun index => ?_
      rw [getElem?_append_singleton_iff]
      simp [Ne.symm same]
  sized value := by simp [Table.note, length_foldl_noteValue, describes.sized]
  values value condition inside := by
    have before := describes.values value condition inside
    have some_set : ∃ set, (table.values value)[condition]? = some set :=
      ⟨_, List.getElem?_eq_getElem (by rw [describes.sized]; exact inside)⟩
    obtain ⟨set, found⟩ := some_set
    simp only [List.getD_eq_getElem?_getD, found, Option.getD_some] at before
    simp only [Table.note, List.getD_eq_getElem?_getD, foldl_noteValue, found,
      Nat.zero_le, true_and, Nat.sub_zero, ← McdcVector.value_eq_some]
    split
    next evaluated =>
      refine (before.insert room).congr fun index => ?_
      rw [getElem?_append_singleton_iff]
      simp [evaluated]
    next different =>
      refine before.congr fun index => ?_
      rw [getElem?_append_singleton_iff]
      simp [different]

theorem Table.of_describes (vectors : List McdcVector) {items : Nat} (width : Nat)
    (room : vectors.length ≤ items) : (Table.of vectors items width).Describes vectors items width := by
  induction vectors using List.reverseRecOn with
  | nil => exact Table.empty_describes items width
  | append_singleton vectors vector ih =>
    rw [List.length_append, List.length_singleton] at room
    have step : Table.of (vectors ++ [vector]) items width =
        (Table.of vectors items width).note vector vectors.length := by
      simp [Table.of, List.zipIdx_append]
    rw [step]
    exact (ih (by omega)).note vector (by omega)

theorem foldl_dropMasked {table : Table} {vectors : List McdcVector} {items width : Nat}
    (describes : table.Describes vectors items width) (target : Nat)
    (values : List (Option Bool)) (start : Nat) (fits : start + values.length ≤ width)
    {holds : Nat → Prop} {candidates : Bits} (marks : Marks items holds candidates) :
    Marks items
      (fun index => holds index ∧ ∀ condition value, condition ≠ target → start ≤ condition →
        values[condition - start]? = some (some value) →
        ¬ ∃ vector, vectors[index]? = some vector ∧ vector.value condition = some (!value))
      ((values.zipIdx start).foldl (dropMasked table target) candidates) := by
  induction values generalizing start holds candidates with
  | nil => exact marks.congr (by simp)
  | cons head tail ih =>
    rw [List.length_cons] at fits
    rw [List.zipIdx_cons, List.foldl_cons]
    have step : Marks items
        (fun index => holds index ∧ ∀ value, start ≠ target → head = some value →
          ¬ ∃ vector, vectors[index]? = some vector ∧ vector.value start = some (!value))
        (dropMasked table target candidates (head, start)) := by
      cases head with
      | none => exact marks.congr (by simp)
      | some value =>
        by_cases same : start = target
        · simp only [dropMasked, same, ↓reduceIte]
          exact marks.congr (by simp)
        · simp only [dropMasked, same, ↓reduceIte]
          exact (marks.andNotAssign (describes.values (!value) start (by omega))).congr
            (by simp [same])
    refine (ih (start + 1) (by omega) step).congr fun index => ?_
    constructor
    · rintro ⟨⟨here, first⟩, rest⟩
      refine ⟨here, fun condition value other after evaluated => ?_⟩
      rcases Nat.eq_or_lt_of_le after with same | later
      · subst same
        exact first value other (by simpa using evaluated)
      · have shift : condition - start = condition - (start + 1) + 1 := by omega
        rw [shift, List.getElem?_cons_succ] at evaluated
        exact rest condition value other later evaluated
    · rintro ⟨here, all⟩
      refine ⟨⟨here, fun value other evaluated => ?_⟩,
        fun condition value other later evaluated => ?_⟩
      · exact all start value other (Nat.le_refl _) (by simp [evaluated])
      · have shift : condition - start = condition - (start + 1) + 1 := by omega
        exact all condition value other (by omega) (by simpa [shift] using evaluated)

section Uniform

variable {vectors : List McdcVector} {width : Nat}
  (uniform : ∀ vector ∈ vectors, vector.values.length = width)

include uniform

/-- The candidates left for `left` are the later vectors it pairs with. -/
theorem candidatesAfter_marks {left : McdcVector} {leftIndex target : Nat} {leftTarget : Bool}
    (at_index : vectors[leftIndex]? = some left) (inside : target < width)
    (evaluated : left.value target = some leftTarget) :
    Marks vectors.length (PairAt vectors target leftIndex)
      (candidatesAfter (Table.of vectors vectors.length width) left leftIndex target
        leftTarget) := by
  have describes := Table.of_describes vectors width (Nat.le_refl vectors.length)
  have left_width := uniform left (List.mem_of_getElem? at_index)
  have opposite := (describes.outcomes (!left.outcome)).andAssign
    (describes.values (!leftTarget) target inside)
  have masked := foldl_dropMasked describes target left.values 0 (by omega)
    (opposite.removeThrough leftIndex)
  refine masked.congr fun index => ?_
  constructor
  · rintro ⟨⟨later, ⟨second, found, outcome⟩, ⟨second', found', value⟩⟩, agree⟩
    obtain rfl : second = second' := Option.some.inj (found.symm.trans found')
    have right_width := uniform second (List.mem_of_getElem? found)
    refine ⟨later, left, second, at_index, found, ?_⟩
    rw [isIndependencePair_iff (left_width.trans right_width.symm)]
    refine ⟨leftTarget, evaluated, value, outcome, fun condition bit other here opposite => ?_⟩
    exact agree condition bit other (Nat.zero_le _) (McdcVector.value_eq_some.mp here)
      ⟨second, found, opposite⟩
  · rintro ⟨later, first, second, found_first, found, pair⟩
    obtain rfl : left = first := Option.some.inj (at_index.symm.trans found_first)
    have right_width := uniform second (List.mem_of_getElem? found)
    rw [isIndependencePair_iff (left_width.trans right_width.symm)] at pair
    obtain ⟨target', here, there, outcome, agree⟩ := pair
    obtain rfl : leftTarget = target' := Option.some.inj (evaluated.symm.trans here)
    refine ⟨⟨later, ⟨second, found, outcome⟩, ⟨second, found, there⟩⟩, ?_⟩
    rintro condition bit other - bit_here ⟨second', found', opposite⟩
    obtain rfl : second = second' := Option.some.inj (found.symm.trans found')
    exact agree condition bit other (McdcVector.value_eq_some.mpr bit_here) opposite

theorem not_pairAt_of_value_eq_none {left : McdcVector} {leftIndex target : Nat}
    (at_index : vectors[leftIndex]? = some left) (skipped : left.value target = none)
    (j : Nat) : ¬ PairAt vectors target leftIndex j := by
  rintro ⟨-, first, second, found, found', pair⟩
  obtain rfl : left = first := Option.some.inj (at_index.symm.trans found)
  rw [isIndependencePair_iff ((uniform left (List.mem_of_getElem? found)).trans
    (uniform second (List.mem_of_getElem? found')).symm)] at pair
  obtain ⟨value, here, -⟩ := pair
  rw [skipped] at here
  cases here

theorem secondFor_eq_some_iff {left : McdcVector} {leftIndex target : Nat}
    (at_index : vectors[leftIndex]? = some left) (inside : target < width) (j : Nat) :
    secondFor (Table.of vectors vectors.length width) target left leftIndex = some j ↔
      PairAt vectors target leftIndex j ∧
        ∀ other < j, ¬ PairAt vectors target leftIndex other := by
  unfold secondFor
  cases evaluated : left.value target with
  | none => simp [not_pairAt_of_value_eq_none uniform at_index evaluated]
  | some leftTarget =>
    exact (candidatesAfter_marks uniform at_index inside evaluated).first_eq_some j

theorem secondFor_eq_none_iff {left : McdcVector} {leftIndex target : Nat}
    (at_index : vectors[leftIndex]? = some left) (inside : target < width) :
    secondFor (Table.of vectors vectors.length width) target left leftIndex = none ↔
      ∀ j, ¬ PairAt vectors target leftIndex j := by
  unfold secondFor
  cases evaluated : left.value target with
  | none => simp [not_pairAt_of_value_eq_none uniform at_index evaluated]
  | some leftTarget =>
    exact (candidatesAfter_marks uniform at_index inside evaluated).first_eq_none

theorem witnessFor_eq_some_iff {target : Nat} (inside : target < width) (i j : Nat) :
    witnessFor (Table.of vectors vectors.length width) vectors target = some ⟨i, j⟩ ↔
      FirstPairAt vectors target i j := by
  unfold witnessFor
  rw [List.findSome?_zipIdx_eq_some_iff]
  simp only [Option.map_eq_some_iff, WitnessIndexes.mk.injEq, Option.map_eq_none_iff]
  constructor
  · rintro ⟨k, left, found, ⟨second, answer, rfl, rfl⟩, earlier⟩
    obtain ⟨pair, least⟩ := (secondFor_eq_some_iff uniform found inside second).mp answer
    refine ⟨pair, fun i' j' other => ?_⟩
    obtain ⟨-, first, -, found', -⟩ := id other
    rcases Nat.lt_trichotomy k i' with before | same | after
    · exact .inl before
    · subst same
      exact .inr ⟨rfl, Nat.le_of_not_lt fun less => least j' less other⟩
    · have silent := earlier i' after first found'
      exact absurd other ((secondFor_eq_none_iff uniform found' inside).mp silent j')
  · rintro ⟨pair, first⟩
    obtain ⟨-, left, -, found, -⟩ := id pair
    refine ⟨i, left, found, ⟨j, ?_, rfl, rfl⟩, fun k before other found' => ?_⟩
    · refine (secondFor_eq_some_iff uniform found inside j).mpr ⟨pair, fun j' less other => ?_⟩
      have := first i j' other
      omega
    · refine (secondFor_eq_none_iff uniform found' inside).mpr fun j' other => ?_
      have := first k j' other
      omega

theorem witnessFor_eq_none_iff {target : Nat} (inside : target < width) :
    witnessFor (Table.of vectors vectors.length width) vectors target = none ↔
      ∀ i j, ¬ PairAt vectors target i j := by
  unfold witnessFor
  rw [List.findSome?_zipIdx_eq_none_iff]
  simp only [Option.map_eq_none_iff]
  constructor
  · intro silent i j pair
    obtain ⟨-, left, -, found, -⟩ := id pair
    exact (secondFor_eq_none_iff uniform found inside).mp (silent i left found) j pair
  · intro no_pair i left found
    exact (secondFor_eq_none_iff uniform found inside).mpr (no_pair i)

end Uniform

/-- `vectors[i]` is the first vector that is not `width` wide. -/
def FirstMisfit (vectors : List McdcVector) (width i : Nat) (vector : McdcVector) : Prop :=
  vectors[i]? = some vector ∧ vector.values.length ≠ width ∧
    ∀ j < i, ∀ earlier, vectors[j]? = some earlier → earlier.values.length = width

theorem findWitnessesForConditions_error (vectors : List McdcVector) (width : Nat)
    (error : AnalysisError) :
    findWitnessesForConditions vectors width = .error error ↔
      ∃ i vector, FirstMisfit vectors width i vector ∧
        error = .inconsistentVectorWidth i width vector.values.length := by
  unfold findWitnessesForConditions FirstMisfit
  cases found : vectors.zipIdx.find? fun (vector, _) => vector.values.length ≠ width with
  | none =>
    simp only [reduceCtorEq, false_iff]
    rintro ⟨i, vector, ⟨here, misfit, -⟩, -⟩
    have := List.find?_eq_none.mp found (vector, i) (List.mem_zipIdx_iff_getElem?.mpr here)
    simp [misfit] at this
  | some entry =>
    obtain ⟨vector, i⟩ := entry
    have first := (List.find?_zipIdx_eq_some_iff
      (fun vector : McdcVector => decide (vector.values.length ≠ width)) vectors vector i).mp found
    simp only [decide_eq_true_eq, decide_eq_false_iff_not, ne_eq, Decidable.not_not] at first
    simp only [Except.error.injEq]
    constructor
    · rintro rfl
      exact ⟨i, vector, first, rfl⟩
    · rintro ⟨i', vector', ⟨here, misfit, earlier⟩, rfl⟩
      have same : i = i' := by
        rcases Nat.lt_trichotomy i i' with less | same | more
        · exact absurd (earlier i less vector first.1) first.2.1
        · exact same
        · exact absurd (first.2.2 i' more vector' here) misfit
      subst same
      obtain rfl : vector = vector' := Option.some.inj (first.1.symm.trans here)
      rfl

theorem uniform_of_findWitnessesForConditions {vectors : List McdcVector} {width : Nat}
    {witnesses : List (Option WitnessIndexes)}
    (found : findWitnessesForConditions vectors width = .ok witnesses) :
    (∀ vector ∈ vectors, vector.values.length = width) ∧
      witnesses = (List.range width).map
        (witnessFor (Table.of vectors vectors.length width) vectors) := by
  unfold findWitnessesForConditions at found
  split at found
  next => cases found
  next none_found =>
    refine ⟨fun vector member => ?_, (Except.ok.inj found).symm⟩
    obtain ⟨i, here⟩ := List.getElem?_of_mem member
    have := List.find?_eq_none.mp none_found (vector, i) (List.mem_zipIdx_iff_getElem?.mpr here)
    simpa using this

/-- The bitset search answers what the nested scan of all pairs answers: the
first vector of another width is the error, and otherwise each condition's
entry is the first pair in scan order, or nothing when there is no pair. -/
theorem findWitnessesForConditions_scan (vectors : List McdcVector) (width : Nat) :
    (∀ error, findWitnessesForConditions vectors width = .error error ↔
      ∃ i vector, FirstMisfit vectors width i vector ∧
        error = .inconsistentVectorWidth i width vector.values.length) ∧
    (∀ witnesses, findWitnessesForConditions vectors width = .ok witnesses →
      witnesses.length = width ∧ ∀ condition < width,
        (∀ i j, witnesses[condition]? = some (some ⟨i, j⟩) ↔
          FirstPairAt vectors condition i j) ∧
        (witnesses[condition]? = some none ↔ ∀ i j, ¬ PairAt vectors condition i j)) := by
  refine ⟨findWitnessesForConditions_error vectors width, fun witnesses found => ?_⟩
  obtain ⟨uniform, rfl⟩ := uniform_of_findWitnessesForConditions found
  refine ⟨by simp, fun condition inside => ⟨fun i j => ?_, ?_⟩⟩
  · rw [← witnessFor_eq_some_iff uniform inside]
    simp [inside]
  · rw [← witnessFor_eq_none_iff uniform inside]
    simp [inside]

end Supercov.Analysis
