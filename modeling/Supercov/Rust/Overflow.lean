import Supercov.Rust.Region
import Mathlib.Data.List.ReduceOption

/-!
# What a cut overflow file reads as

The runtime writes each combination that found no entry as one line: its sequence, its thread, its
decision, a digit for each condition and the outcome.  A line that was cut off shows in the number
of its fields, unless the cut stands right behind the last separator.
-/

namespace Supercov.Rust

section Frames

def maxConditions : Nat := 64

/-- A decision while it is evaluated. The value of each condition is two bits, which are never
both set. -/
structure DecisionFrame where
  id : Nat
  values : BitVec 128
  conditions : Nat
  proper : ∀ index, ¬ (values.getLsbD (2 * index) = true ∧ values.getLsbD (2 * index + 1) = true)

def conditionCode (value : Bool) : BitVec 128 := if value then 2#128 else 1#128

theorem getLsbD_three (bit : Nat) : (3#128).getLsbD bit = decide (bit < 2) := by
  match bit with
  | 0 => rfl
  | 1 => rfl
  | bit + 2 => simp [BitVec.getLsbD_ofNat, Nat.testBit_succ]

theorem getLsbD_conditionCode (value : Bool) (bit : Nat) :
    (conditionCode value).getLsbD bit = decide (bit = value.toNat) := by
  match bit with
  | 0 => cases value <;> rfl
  | 1 => cases value <;> rfl
  | bit + 2 => cases value <;> simp [conditionCode, BitVec.getLsbD_ofNat, Nat.testBit_succ]

def storeValue (values : BitVec 128) (index : Nat) (value : Bool) : BitVec 128 :=
  (values &&& ~~~(3#128 <<< (2 * index))) ||| conditionCode value <<< (2 * index)

theorem getLsbD_storeValue (values : BitVec 128) (index bit : Nat) (value : Bool) :
    (storeValue values index value).getLsbD bit =
      if bit / 2 = index then decide (bit < 128 ∧ bit % 2 = value.toNat)
      else values.getLsbD bit := by
  simp only [storeValue, BitVec.getLsbD_or, BitVec.getLsbD_and, BitVec.getLsbD_not,
    BitVec.getLsbD_shiftLeft, getLsbD_three, getLsbD_conditionCode]
  by_cases inside : bit < 128
  · split
    · next same =>
      have low : decide (bit < 2 * index) = false := by simp; omega
      have rest : bit - 2 * index = bit % 2 := by omega
      have two : decide (bit % 2 < 2) = true := by simp; omega
      simp only [inside, low, rest, two]
      simp
    · next other =>
      by_cases below : bit < 2 * index
      · simp [inside, below]
      · have past : decide (bit - 2 * index < 2) = false := by simp; omega
        have unlike : decide (bit - 2 * index = value.toNat) = false := by
          have := Bool.toNat_lt value
          simp
          omega
        simp only [inside, past, unlike, decide_eq_false below]
        simp
  · have beyond : values.getLsbD bit = false := BitVec.getLsbD_of_ge _ _ (by omega)
    simp [inside, beyond]

namespace DecisionFrame

def new (id conditions : Nat) : DecisionFrame where
  id
  values := 0
  conditions
  proper := by simp

def setValue (frame : DecisionFrame) (index : Nat) (value : Bool) : DecisionFrame where
  id := frame.id
  values := storeValue frame.values index value
  conditions := frame.conditions
  proper := by
    intro other ⟨low, high⟩
    rw [getLsbD_storeValue] at low high
    have ⟨first, second⟩ : 2 * other / 2 = other ∧ (2 * other + 1) / 2 = other := by omega
    rw [first] at low
    rw [second] at high
    split at low
    · next same =>
      rw [if_pos same] at high
      have zero := (of_decide_eq_true low).2
      have one := (of_decide_eq_true high).2
      omega
    · next apart =>
      rw [if_neg apart] at high
      exact frame.proper other ⟨low, high⟩

/-- `condition` keeps the value of a condition the frame has room for. -/
def condition (frame : DecisionFrame) (index : Nat) (value : Bool) : DecisionFrame :=
  if index < frame.conditions ∧ index < maxConditions then frame.setValue index value else frame

def value (frame : DecisionFrame) (index : Nat) : Nat :=
  ((frame.values >>> (2 * index)) &&& 3#128).toNat

theorem value_lt (frame : DecisionFrame) (index : Nat) : frame.value index < 3 := by
  have proper := frame.proper index
  have low : frame.values.toNat.testBit (2 * index) =
      (frame.values.toNat >>> (2 * index)).testBit 0 := by
    rw [Nat.testBit_shiftRight, Nat.add_zero]
  have high : frame.values.toNat.testBit (2 * index + 1) =
      (frame.values.toNat >>> (2 * index)).testBit 1 := by
    rw [Nat.testBit_shiftRight]
  rw [BitVec.getLsbD, BitVec.getLsbD, low, high] at proper
  simp only [Nat.testBit_zero, Nat.testBit_succ, decide_eq_true_eq] at proper
  have bits : frame.value index = (frame.values.toNat >>> (2 * index)) % 4 := by
    rw [value, BitVec.toNat_and, BitVec.toNat_ushiftRight]
    exact Nat.and_two_pow_sub_one_eq_mod _ 2
  omega

end DecisionFrame

end Frames

section Written

/-- A combination for the overflow file: a recordable frame, the outcome, and the sequence and
thread of the call, each of thirty-two bits. -/
structure Sighting (layout : RustProbeLayout) where
  frame : DecisionFrame
  outcome : Bool
  sequence : Nat
  thread : Nat
  recordable : frame.conditions ≤ maxConditions ∧ frame.id < layout.decisions.length
  narrow : frame.id < 2 ^ 32 ∧ sequence < 2 ^ 32 ∧ thread < 2 ^ 32

def recordSize : Nat := 128

/-- Bytes are ASCII, one a character. -/
def push (record text : List Char) : Option (List Char) :=
  if record.length + text.length ≤ recordSize then some (record ++ text) else none

def number (record : List Char) (value : Nat) : Option (List Char) :=
  (Text.decimal value).foldlM (fun record digit => push record [digit]) record

variable {layout : RustProbeLayout}

namespace Sighting

def digit (sighting : Sighting layout) (index : Nat) : Char :=
  Char.ofNat ('0'.toNat + sighting.frame.value index)

def outcomeDigit (sighting : Sighting layout) : Char := if sighting.outcome then '1' else '0'

/-- `overflow::decision`; a record that does not fit is not written. -/
def record (sighting : Sighting layout) : Option (List Char) := do
  let record ← push [] ['D', '\t']
  let record ← number record sighting.sequence
  let record ← push record ['\t']
  let record ← number record sighting.thread
  let record ← push record ['\t']
  let record ← number record sighting.frame.id
  let record ← push record ['\t']
  let record ← (List.range sighting.frame.conditions).foldlM
    (fun record index => push record [sighting.digit index]) record
  let record ← push record ['\t']
  let record ← push record [sighting.outcomeDigit]
  push record ['\n']

def digits (sighting : Sighting layout) : List Char :=
  (List.range sighting.frame.conditions).map sighting.digit

/-- The fields before the outcome. -/
def front (sighting : Sighting layout) : List Char :=
  'D' :: '\t' :: (Text.decimal sighting.sequence ++ '\t' :: (Text.decimal sighting.thread ++
    '\t' :: (Text.decimal sighting.frame.id ++ '\t' :: sighting.digits)))

def line (sighting : Sighting layout) : List Char :=
  sighting.front ++ ['\t', sighting.outcomeDigit]

/-- What is read of the sighting when its line is whole. -/
def observed (sighting : Sighting layout) (outcome : Bool) : Sequenced :=
  (sighting.sequence, {
    thread := sighting.thread
    observation := .decision (layout.decisions.get ⟨sighting.frame.id, sighting.recordable.2⟩)
      ((List.range sighting.frame.conditions).map fun index =>
        conditionValue (sighting.frame.value index)) outcome })

end Sighting

def overflowFile (written : List (Sighting layout)) : List UInt8 :=
  written.flatMap fun sighting => JsonText.utf8 (sighting.record.getD [])

theorem push_eq {record text : List Char} (fits : record.length + text.length ≤ recordSize) :
    push record text = some (record ++ text) :=
  if_pos fits

theorem foldlM_push {Item : Type} (shown : Item → Char) {items : List Item} {record : List Char}
    (fits : record.length + items.length ≤ recordSize) :
    items.foldlM (fun record item => push record [shown item]) record =
      some (record ++ items.map shown) := by
  induction items generalizing record with
  | nil => simp
  | cons item items ih =>
    rw [List.length_cons] at fits
    rw [List.foldlM_cons, push_eq (by simp only [List.length_singleton]; omega)]
    show items.foldlM _ (record ++ [shown item]) = _
    rw [ih (by simp only [List.length_append, List.length_singleton]; omega)]
    simp

theorem number_eq {record : List Char} {value : Nat}
    (fits : record.length + (Text.decimal value).length ≤ recordSize) :
    number record value = some (record ++ Text.decimal value) := by
  calc number record value = some (record ++ (Text.decimal value).map id) := foldlM_push id fits
    _ = some (record ++ Text.decimal value) := by rw [List.map_id]

theorem length_decimal_le {value : Nat} (narrow : value < 2 ^ 32) :
    (Text.decimal value).length ≤ 10 :=
  (Nat.length_toDigits_le_iff (by decide) (by decide)).mpr (by omega)

namespace Sighting

theorem record_eq (sighting : Sighting layout) :
    sighting.record = some (sighting.line ++ ['\n']) := by
  have sequence := length_decimal_le sighting.narrow.2.1
  have thread := length_decimal_le sighting.narrow.2.2
  have id := length_decimal_le sighting.narrow.1
  have conditions : sighting.frame.conditions ≤ 64 := sighting.recordable.1
  have size : recordSize = 128 := rfl
  unfold record
  rw [push_eq (by simp [size])]
  simp only [Option.bind_eq_bind, Option.bind_some]
  rw [number_eq (by simp [size]; omega), Option.bind_some, push_eq (by simp [size]; omega),
    Option.bind_some, number_eq (by simp [size]; omega), Option.bind_some,
    push_eq (by simp [size]; omega), Option.bind_some, number_eq (by simp [size]; omega),
    Option.bind_some, push_eq (by simp [size]; omega), Option.bind_some,
    foldlM_push _ (by simp [size]; omega), Option.bind_some, push_eq (by simp [size]; omega),
    Option.bind_some, push_eq (by simp [size]; omega), Option.bind_some,
    push_eq (by simp [size]; omega)]
  simp [line, front, digits]

end Sighting

theorem overflowFile_cons (sighting : Sighting layout) (written : List (Sighting layout)) :
    overflowFile (sighting :: written) =
      JsonText.utf8 sighting.line ++ 10 :: overflowFile written := by
  have feed : JsonText.utf8 ['\n'] = [10] := by decide
  have split (before after : List Char) :
      JsonText.utf8 (before ++ after) = JsonText.utf8 before ++ JsonText.utf8 after :=
    List.flatMap_append
  rw [overflowFile, List.flatMap_cons, sighting.record_eq, Option.getD_some, split, feed,
    List.append_assoc]
  rfl

end Written

section Ascii

variable {text : List Char}

def Ascii (text : List Char) : Prop := ∀ c ∈ text, c.toNat < 128

theorem utf8_of_ascii (ascii : Ascii text) :
    JsonText.utf8 text = text.map fun c => c.val.toUInt8 := by
  induction text with
  | nil => rfl
  | cons c text ih =>
    obtain ⟨first, rest⟩ := List.forall_mem_cons.mp ascii
    have single : c.utf8Size = 1 := by
      have low : c.val ≤ 127 := by
        rw [UInt32.le_iff_toNat_le]
        exact Nat.le_of_lt_succ first
      simp [Char.utf8Size, low]
    rw [JsonText.utf8, List.flatMap_cons, String.utf8EncodeChar_eq_singleton single, List.map_cons,
      ← ih rest]
    rfl

theorem Ascii.take (ascii : Ascii text) (count : Nat) : Ascii (text.take count) :=
  fun c member => ascii c (List.mem_of_mem_take member)

theorem take_utf8 (ascii : Ascii text) (count : Nat) :
    (JsonText.utf8 text).take count = JsonText.utf8 (text.take count) := by
  rw [utf8_of_ascii ascii, utf8_of_ascii (ascii.take count), List.map_take]

theorem length_utf8 (ascii : Ascii text) : (JsonText.utf8 text).length = text.length := by
  rw [utf8_of_ascii ascii, List.length_map]

theorem feed_not_mem_utf8 (ascii : Ascii text) (unbroken : '\n' ∉ text) :
    10 ∉ JsonText.utf8 text := by
  rw [utf8_of_ascii ascii]
  intro member
  obtain ⟨c, among, same⟩ := List.mem_map.mp member
  have code : c.toNat = 10 := by
    have narrowed := congrArg UInt8.toNat same
    have low := ascii c among
    rw [UInt32.toNat_toUInt8] at narrowed
    change c.toNat % 256 = 10 at narrowed
    omega
  have feed : c = '\n' := Char.toNat_inj.mp code
  exact unbroken (feed ▸ among)

end Ascii

section Read

variable {layout : RustProbeLayout} (sighting : Sighting layout)

theorem isDigit_digit {index : Nat} : (sighting.digit index).isDigit = true := by
  have small := sighting.frame.value_lt index
  unfold Sighting.digit
  match sighting.frame.value index, small with
  | 0, _ => rfl
  | 1, _ => rfl
  | 2, _ => rfl

theorem ascii_of_isDigit {c : Char} (digit : c.isDigit = true) : c.toNat < 128 ∧ c ≠ '\t' ∧ c ≠ '\n' := by
  have ⟨low, high⟩ : 48 ≤ c.toNat ∧ c.toNat ≤ 57 := by
    simpa [Char.isDigit, UInt32.le_iff_toNat_le] using digit
  refine ⟨by omega, ?_, ?_⟩
  · rintro rfl
    exact absurd low (by decide)
  · rintro rfl
    exact absurd low (by decide)

theorem isDigit_of_mem_field {c : Char}
    (member : c ∈ Text.decimal sighting.sequence ∨ c ∈ Text.decimal sighting.thread ∨
      c ∈ Text.decimal sighting.frame.id ∨ c ∈ sighting.digits) : c.isDigit = true := by
  rcases member with member | member | member | member
  · exact Text.isDigit_of_mem_decimal member
  · exact Text.isDigit_of_mem_decimal member
  · exact Text.isDigit_of_mem_decimal member
  · obtain ⟨index, _, rfl⟩ := List.mem_map.mp member
    exact isDigit_digit sighting

theorem mem_front {c : Char} (member : c ∈ sighting.front) :
    c = 'D' ∨ c = '\t' ∨ c.isDigit = true := by
  simp only [Sighting.front, List.mem_cons, List.mem_append] at member
  have digit := isDigit_of_mem_field sighting (c := c)
  tauto

theorem ascii_front : Ascii sighting.front := by
  intro c member
  rcases mem_front sighting member with rfl | rfl | digit
  · decide
  · decide
  · exact (ascii_of_isDigit digit).1

theorem feed_not_mem_front : '\n' ∉ sighting.front := by
  intro member
  rcases mem_front sighting member with same | same | digit
  · exact absurd same (by decide)
  · exact absurd same (by decide)
  · exact (ascii_of_isDigit digit).2.2 rfl

theorem splitOn_front (rest : List Char) :
    (sighting.front ++ '\t' :: rest).splitOn '\t' =
      ['D'] :: Text.decimal sighting.sequence :: Text.decimal sighting.thread ::
        Text.decimal sighting.frame.id :: sighting.digits :: rest.splitOn '\t' := by
  have digits {c : Char} := isDigit_of_mem_field sighting (c := c)
  have shape : sighting.front ++ '\t' :: rest =
      ['D'] ++ '\t' :: (Text.decimal sighting.sequence ++ '\t' ::
        (Text.decimal sighting.thread ++ '\t' :: (Text.decimal sighting.frame.id ++
          '\t' :: (sighting.digits ++ '\t' :: rest)))) := by
    simp [Sighting.front]
  rw [shape, List.splitOn_append_cons_self_of_not_mem (by decide),
    List.splitOn_append_cons_self_of_not_mem fun tab =>
      (ascii_of_isDigit (digits (.inl tab))).2.1 rfl,
    List.splitOn_append_cons_self_of_not_mem fun tab =>
      (ascii_of_isDigit (digits (.inr (.inl tab)))).2.1 rfl,
    List.splitOn_append_cons_self_of_not_mem fun tab =>
      (ascii_of_isDigit (digits (.inr (.inr (.inl tab))))).2.1 rfl,
    List.splitOn_append_cons_self_of_not_mem fun tab =>
      (ascii_of_isDigit (digits (.inr (.inr (.inr tab))))).2.1 rfl]

theorem digitValue_digit (error : RustProbeReadError) (index : Nat) :
    digitValue error (sighting.digit index) = .ok (conditionValue (sighting.frame.value index)) := by
  have small := sighting.frame.value_lt index
  unfold Sighting.digit
  match sighting.frame.value index, small with
  | 0, _ => rfl
  | 1, _ => rfl
  | 2, _ => rfl

theorem collect_digitValue (error : RustProbeReadError) :
    Outcome.collect (digitValue error) sighting.digits =
      .ok ((List.range sighting.frame.conditions).map fun index =>
        conditionValue (sighting.frame.value index)) := by
  unfold Sighting.digits
  rw [Outcome.collect_eq_ok, List.forall₂_map_left_iff, List.forall₂_map_right_iff,
    List.forall₂_same]
  exact fun index _ => digitValue_digit sighting error index

theorem overflowRecord_front {outcome : List Char} (one : '\t' ∉ outcome) (line : Nat) :
    overflowRecord layout (JsonText.utf8 (sighting.front ++ '\t' :: outcome), line) =
      .ok (some (sighting.observed (outcome = ['1']))) := by
  have invalid := RustProbeReadError.invalidRecord (line + 1)
  have id : Text.unsigned 64 (Text.decimal sighting.frame.id) = some sighting.frame.id :=
    Text.unsigned_decimal (sighting.narrow.1.trans (by decide))
  have sequence : Text.unsigned 64 (Text.decimal sighting.sequence) = some sighting.sequence :=
    Text.unsigned_decimal (sighting.narrow.2.1.trans (by decide))
  have thread : Text.unsigned 64 (Text.decimal sighting.thread) = some sighting.thread :=
    Text.unsigned_decimal (sighting.narrow.2.2.trans (by decide))
  have known : layout.decisions[sighting.frame.id]? =
      some (layout.decisions.get ⟨sighting.frame.id, sighting.recordable.2⟩) :=
    List.getElem?_eq_getElem sighting.recordable.2
  unfold overflowRecord
  simp only [JsonText.readUtf8_utf8, orRefuse, Outcome.ok_bind, splitOn_front,
    List.splitOn_eq_singleton one, id, sequence, thread, known, collect_digitValue]
  rfl

theorem overflowRecord_cut {count : Nat} (short : count ≤ sighting.front.length) (line : Nat) :
    overflowRecord layout (JsonText.utf8 (sighting.line.take count), line) = .ok none := by
  have taken : sighting.line.take count = sighting.front.take count :=
    List.take_append_of_le_length short
  have fields : (sighting.front ++ ['\t']).countP (· == '\t') = 5 := by
    have split := Text.length_splitOnP (· == '\t') (sighting.front ++ ['\t'])
    rw [← List.splitOn_eq_splitOnP, splitOn_front] at split
    simpa using split.symm
  have few : ((sighting.line.take count).splitOn '\t').length ≤ 5 := by
    have less := (List.take_sublist count sighting.front).countP_le (p := (· == '\t'))
    rw [List.countP_append] at fields
    rw [taken, List.splitOn_eq_splitOnP, Text.length_splitOnP]
    simp at fields
    omega
  unfold overflowRecord
  simp only [JsonText.readUtf8_utf8, orRefuse, Outcome.ok_bind]
  split
  · next six =>
    rw [six] at few
    simp at few
  · rfl

end Read

section Cut

variable {layout : RustProbeLayout}

/-- The sightings whose lines stand whole in the first `cut` bytes. -/
def whole : List (Sighting layout) → Nat → List (Sighting layout)
  | [], _ => []
  | sighting :: rest, cut =>
    if sighting.line.length ≤ cut then
      sighting :: whole rest (cut - (sighting.line.length + 1))
    else
      []

/-- What is read of a line whose outcome was cut off. -/
def torn : List (Sighting layout) → Nat → List Sequenced
  | [], _ => []
  | sighting :: rest, cut =>
    if sighting.line.length < cut then torn rest (cut - (sighting.line.length + 1))
    else if cut + 1 = sighting.line.length then [sighting.observed false]
    else []

theorem length_line (sighting : Sighting layout) :
    sighting.line.length = sighting.front.length + 2 := by
  simp [Sighting.line]

theorem whole_zero (written : List (Sighting layout)) : whole written 0 = [] := by
  cases written with
  | nil => rfl
  | cons sighting rest =>
    have := length_line sighting
    exact if_neg (by omega)

theorem ascii_line (sighting : Sighting layout) : Ascii sighting.line := by
  intro c member
  rcases List.mem_append.mp member with inside | last
  · exact ascii_front sighting c inside
  · have low : ∀ c ∈ ['\t', sighting.outcomeDigit], c.toNat < 128 := by
      unfold Sighting.outcomeDigit
      cases sighting.outcome <;> simp
    exact low c last

theorem feed_not_mem_line (sighting : Sighting layout) : '\n' ∉ sighting.line := by
  intro member
  rcases List.mem_append.mp member with inside | last
  · exact feed_not_mem_front sighting inside
  · revert last
    unfold Sighting.outcomeDigit
    cases sighting.outcome <;> decide

theorem overflowRecord_line (sighting : Sighting layout) (line : Nat) :
    overflowRecord layout (JsonText.utf8 sighting.line, line) =
      .ok (some (sighting.observed sighting.outcome)) := by
  have one : '\t' ∉ [sighting.outcomeDigit] := by
    unfold Sighting.outcomeDigit
    cases sighting.outcome <;> decide
  have said : decide ([sighting.outcomeDigit] = ['1']) = sighting.outcome := by
    unfold Sighting.outcomeDigit
    cases sighting.outcome <;> rfl
  calc overflowRecord layout (JsonText.utf8 sighting.line, line) =
      .ok (some (sighting.observed (decide ([sighting.outcomeDigit] = ['1'])))) :=
        overflowRecord_front sighting one line
    _ = .ok (some (sighting.observed sighting.outcome)) := by rw [said]

theorem overflowRecord_take (sighting : Sighting layout) {cut : Nat}
    (inside : cut ≤ sighting.line.length) (line : Nat) :
    overflowRecord layout (JsonText.utf8 (sighting.line.take cut), line) =
      .ok (if cut = sighting.line.length then some (sighting.observed sighting.outcome)
        else if cut + 1 = sighting.line.length then some (sighting.observed false) else none) := by
  have length := length_line sighting
  split
  · next all => rw [List.take_of_length_le (by omega), overflowRecord_line]
  split
  · next separator =>
    have taken : sighting.line.take cut = sighting.front ++ '\t' :: [] := by
      have last : cut = sighting.front.length + 1 := by omega
      rw [last, Sighting.line, List.take_length_add_append]
      rfl
    rw [taken, overflowRecord_front sighting (by decide)]
    rfl
  · exact overflowRecord_cut sighting (by omega) line

/-- The lines of the first `cut` bytes: those that are whole, and what the cut left of one. -/
theorem collect_lines (written : List (Sighting layout)) (cut start : Nat) :
    ∃ records, Outcome.collect (overflowRecord layout)
        (((((overflowFile written).take cut).splitOn 10).filter (· ≠ [])).zipIdx start) =
        .ok records ∧
      records.reduceOption =
        (whole written cut).map (fun sighting => sighting.observed sighting.outcome) ++
          torn written cut := by
  induction written generalizing cut start with
  | nil => exact ⟨[], by simp [overflowFile, Outcome.collect], rfl⟩
  | cons sighting rest ih =>
    have ascii := ascii_line sighting
    have feedless := feed_not_mem_utf8 ascii (feed_not_mem_line sighting)
    have length := length_line sighting
    rw [overflowFile_cons]
    by_cases behind : sighting.line.length < cut
    · obtain ⟨rest_cut, rfl⟩ : ∃ rest_cut, cut = sighting.line.length + (rest_cut + 1) :=
        ⟨cut - sighting.line.length - 1, by omega⟩
      have taken : (JsonText.utf8 sighting.line ++ 10 :: overflowFile rest).take
          (sighting.line.length + (rest_cut + 1)) =
          JsonText.utf8 sighting.line ++ 10 :: (overflowFile rest).take rest_cut := by
        rw [← length_utf8 ascii, List.take_length_add_append, List.take_succ_cons]
      have some_ : JsonText.utf8 sighting.line ≠ [] := by
        intro none_
        have := length_utf8 ascii
        rw [none_, List.length_nil] at this
        omega
      have left : sighting.line.length + (rest_cut + 1) - (sighting.line.length + 1) = rest_cut := by
        omega
      obtain ⟨records, collected, read⟩ := ih rest_cut (start + 1)
      refine ⟨some (sighting.observed sighting.outcome) :: records, ?_, ?_⟩
      · rw [taken, List.splitOn_append_cons_self_of_not_mem feedless,
          List.filter_cons_of_pos (by simpa using some_), List.zipIdx_cons]
        exact Outcome.bind_of_eq_ok (overflowRecord_line sighting start)
          (Outcome.bind_of_eq_ok collected rfl)
      · rw [whole, torn, if_pos (by omega), if_pos behind, left, List.map_cons,
          List.reduceOption_cons_of_some, read, List.cons_append]
    · have taken : (JsonText.utf8 sighting.line ++ 10 :: overflowFile rest).take cut =
          JsonText.utf8 (sighting.line.take cut) := by
        rw [List.take_append_of_le_length (by rw [length_utf8 ascii]; omega), take_utf8 ascii]
      have one : 10 ∉ JsonText.utf8 (sighting.line.take cut) := by
        rw [← take_utf8 ascii]
        exact fun member => feedless (List.mem_of_mem_take member)
      have later : whole rest (cut - (sighting.line.length + 1)) = [] := by
        rw [Nat.sub_eq_zero_of_le (by omega), whole_zero]
      have read := overflowRecord_take sighting (Nat.not_lt.mp behind) start
      rw [taken, List.splitOn_eq_singleton one, whole, torn, if_neg behind, later]
      by_cases empty : JsonText.utf8 (sighting.line.take cut) = []
      · have zero : cut = 0 := by
          have := congrArg List.length empty
          rw [length_utf8 (ascii.take cut), List.length_take, List.length_nil] at this
          omega
        refine ⟨[], by simp [empty, Outcome.collect], ?_⟩
        rw [if_neg (by omega), if_neg (by omega)]
        rfl
      · refine ⟨[_], by
          rw [List.filter_cons_of_pos (by simpa using empty)]
          exact Outcome.bind_of_eq_ok read rfl, ?_⟩
        by_cases all : cut = sighting.line.length
        · rw [if_pos all, if_pos (by omega), if_neg (by omega)]
          rfl
        have before : ¬ sighting.line.length ≤ cut := by omega
        rw [if_neg all, if_neg before]
        split <;> rfl

theorem overflowRecords_take (written : List (Sighting layout)) (cut : Nat) :
    overflowRecords layout ((overflowFile written).take cut) =
      .ok ((whole written cut).map (fun sighting => sighting.observed sighting.outcome) ++
        torn written cut) := by
  obtain ⟨records, collected, read⟩ := collect_lines written cut 0
  rw [← read]
  exact Outcome.bind_of_eq_ok collected rfl

/-- The cut stands right behind the last separator of some line. -/
def CutBehindSeparator (written : List (Sighting layout)) (cut : Nat) : Prop :=
  ∃ before sighting after, written = before ++ sighting :: after ∧
    cut = (overflowFile before).length + sighting.front.length + 1

theorem torn_eq_nil_iff (written : List (Sighting layout)) (cut : Nat) :
    torn written cut = [] ↔ ¬ CutBehindSeparator written cut := by
  induction written generalizing cut with
  | nil => simp [torn, CutBehindSeparator]
  | cons sighting rest ih =>
    have length := length_line sighting
    have size (before : List (Sighting layout)) : (overflowFile (sighting :: before)).length =
        sighting.line.length + 1 + (overflowFile before).length := by
      rw [overflowFile_cons, List.length_append, length_utf8 (ascii_line sighting), List.length_cons]
      omega
    have here : CutBehindSeparator (sighting :: rest) cut ↔ cut + 1 = sighting.line.length ∨
        sighting.line.length < cut ∧
          CutBehindSeparator rest (cut - (sighting.line.length + 1)) := by
      constructor
      · rintro ⟨before, found, after, same, place⟩
        cases before with
        | nil =>
          cases same
          simp only [overflowFile, List.flatMap_nil, List.length_nil] at place
          exact .inl (by omega)
        | cons first before =>
          cases same
          rw [size] at place
          exact .inr ⟨by omega, before, found, after, rfl, by omega⟩
      · rintro (place | ⟨behind, before, found, after, rfl, place⟩)
        · exact ⟨[], sighting, rest, rfl, by simp [overflowFile]; omega⟩
        · exact ⟨sighting :: before, found, after, rfl, by rw [size]; omega⟩
    rw [here, torn]
    split
    · next behind =>
      rw [ih]
      have apart : cut + 1 ≠ sighting.line.length := by omega
      simp [apart, behind]
    · next inside =>
      split
      · next place => simp [place]
      · next apart => simp [apart, inside]

end Cut

section Claim

variable {layout : RustProbeLayout}

/-- Neither reader crashes. -/
def ReadsSafely (region : Slice) (overflow : Option Slice) (token : Token)
    (layout : RustProbeLayout) : Prop :=
  parseRustRegion region overflow token layout ≠ .crashed ∧
    parseRustRegionCfgs region token layout ≠ .crashed

/-- What a process that died left of the overflow file. -/
structure CutFile (written : List (Sighting layout)) extends Slice where
  cut : bytes <+: overflowFile written

/-- The records read beside the region's are those of the lines that are whole. -/
def ReadsWhole (region : Slice) (token : Token) {written : List (Sighting layout)}
    (file : CutFile written) : Prop :=
  ∀ records, regionRecords region.bytes token layout = .ok records →
    parseRustRegion region (some file.toSlice) token layout =
      .ok (inOrder (records ++ (whole written file.bytes.length).map
        fun sighting => sighting.observed sighting.outcome))

theorem readsSafely_iff (region : Slice) (overflow : Option Slice) (token : Token) :
    ReadsSafely region overflow token layout ↔
      ¬ (Heads region.bytes token layout ∧
        (ShiftsPast region.bytes layout ∨ OutgrowsOffsets region.bytes layout)) := by
  unfold ReadsSafely
  rw [Ne, Ne, parseRustRegion_eq_crashed_iff, parseRustRegionCfgs_eq_crashed_iff]
  tauto

theorem length_inOrder (records : List Sequenced) : (inOrder records).length = records.length := by
  rw [inOrder, List.length_map, List.length_mergeSort]

theorem readsWhole_iff (region : Slice) (token : Token) {written : List (Sighting layout)}
    (file : CutFile written) :
    ReadsWhole region token file ↔
      ¬ (Heads region.bytes token layout ∧ ¬ ShiftsPast region.bytes layout ∧
        CutBehindSeparator written file.bytes.length) := by
  have others : overflowRecords layout file.bytes =
      .ok ((whole written file.bytes.length).map (fun sighting =>
        sighting.observed sighting.outcome) ++ torn written file.bytes.length) := by
    rw [← overflowRecords_take, ← List.prefix_iff_eq_take.mp file.cut]
  have parsed {records : List Sequenced}
      (read : regionRecords region.bytes token layout = .ok records) :
      parseRustRegion region (some file.toSlice) token layout = .ok (inOrder (records ++
        ((whole written file.bytes.length).map (fun sighting =>
          sighting.observed sighting.outcome) ++ torn written file.bytes.length))) :=
    Outcome.bind_of_eq_ok read (Outcome.bind_of_eq_ok others rfl)
  rw [← and_assoc, ← regionRecords_isOk_iff]
  constructor
  · rintro reads ⟨⟨records, read⟩, behind⟩
    have same := reads records read
    rw [parsed read, Outcome.ok.injEq] at same
    have lengths := congrArg List.length same
    simp only [length_inOrder, List.length_append, List.length_map] at lengths
    have none_ : torn written file.bytes.length = [] := List.eq_nil_of_length_eq_zero (by omega)
    exact (torn_eq_nil_iff written _).mp none_ behind
  · intro apart records read
    have none_ : torn written file.bytes.length = [] :=
      (torn_eq_nil_iff written _).mpr fun behind => apart ⟨⟨records, read⟩, behind⟩
    rw [parsed read, none_, List.append_nil]

/-- Both readers end without a crash exactly where no entry is too wide and the gates' offsets fit,
and a file that was cut off gives the lines that are whole exactly where the cut does not stand
right behind a separator. -/
theorem readsSafely_readsWhole_iff (region : Slice) (overflow : Option Slice) (token : Token)
    (layout : RustProbeLayout) {written : List (Sighting layout)} (file : CutFile written) :
    (ReadsSafely region overflow token layout ↔
      ¬ (Heads region.bytes token layout ∧
        (ShiftsPast region.bytes layout ∨ OutgrowsOffsets region.bytes layout))) ∧
    (ReadsWhole region token file ↔
      ¬ (Heads region.bytes token layout ∧ ¬ ShiftsPast region.bytes layout ∧
        CutBehindSeparator written file.bytes.length)) :=
  ⟨readsSafely_iff region overflow token, readsWhole_iff region token file⟩

def oneDecision : RustProbeLayout where
  hits := []
  assertions := []
  decisions := ["d"]
  cfgs := []

def someToken : Token where
  bytes := JsonText.utf8 "0123456789ab".toList
  fits := by decide

set_option maxRecDepth 8000 in
def headOnly : Slice where
  bytes := regionMagic ++ [regionVersion, headerSize, 0, 0, 1, 8, headerSize + 1].flatMap
    (Bytes.writeLE 4) ++ List.replicate 20 0 ++ someToken.bytes ++ List.replicate 60 0
  holds := by decide

def held : Sighting oneDecision where
  frame := (DecisionFrame.new 0 1).condition 0 true
  outcome := true
  sequence := 1
  thread := 7
  recordable := by decide
  narrow := by decide

set_option maxRecDepth 8000 in
def behindSeparator : CutFile [held] where
  bytes := JsonText.utf8 "D\t1\t7\t0\t2\t".toList
  holds := by decide
  cut := by decide

set_option maxRecDepth 8000 in
/-- The outcome was true; what is read says that it was false. -/
theorem not_readsWhole_behindSeparator : ¬ ReadsWhole headOnly someToken behindSeparator := by
  rw [readsWhole_iff, not_not]
  refine ⟨by decide, ?_, [], held, [], rfl, by decide⟩
  intro ⟨ordinal, _, entry, _, among, _⟩
  exact Nat.not_lt_zero _ among

end Claim

end Supercov.Rust
