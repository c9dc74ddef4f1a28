import Mathlib.Data.List.Basic
import Mathlib.Order.Nat
import Mathlib.Tactic.Common

/-!
# Bytes written at offsets

A file is written piece by piece, each piece at an offset of its own.  Pieces that keep
apart are all read back, and what none of them touches stays as it was.
-/

namespace Patch

variable {Byte : Type}

/-- The bytes of a stretch. -/
def slice (file : List Byte) (start length : Nat) : List Byte :=
  (file.drop start).take length

/-- Writes bytes over those from an offset on.  A file that ends before the offset is filled
up to it. -/
def write (blank : Byte) (file : List Byte) (offset : Nat) (bytes : List Byte) : List Byte :=
  if bytes.isEmpty then file
  else
    (file ++ List.replicate (offset - file.length) blank).take offset ++ bytes ++
      file.drop (offset + bytes.length)

def writes (blank : Byte) (file : List Byte) (patches : List (Nat × List Byte)) : List Byte :=
  patches.foldl (fun file patch => write blank file patch.1 patch.2) file

def Apart (start length start' length' : Nat) : Prop :=
  start + length ≤ start' ∨ start' + length' ≤ start

section Slice

variable {file : List Byte} {start length : Nat}

theorem getElem?_slice (index : Nat) :
    (slice file start length)[index]? = if index < length then file[start + index]? else none := by
  rw [slice, List.getElem?_take, List.getElem?_drop]

theorem length_slice (inside : start + length ≤ file.length) :
    (slice file start length).length = length := by
  rw [slice, List.length_take, List.length_drop]
  omega

theorem slice_slice {start' length' : Nat} (inside : start' + length' ≤ length) :
    slice (slice file start length) start' length' = slice file (start + start') length' := by
  refine List.ext_getElem? fun index => ?_
  rw [getElem?_slice, getElem?_slice, getElem?_slice, Nat.add_assoc]
  split
  · rw [if_pos (by omega)]
  · rfl

theorem slice_full (file : List Byte) : slice file 0 file.length = file := by
  simp [slice]

theorem drop_take_eq_slice (stop : Nat) : (file.take stop).drop start = slice file start (stop - start) :=
  List.drop_take

theorem slice_append_left {other : List Byte} (within : start + length ≤ file.length) :
    slice (file ++ other) start length = slice file start length := by
  refine List.ext_getElem? fun index => ?_
  rw [getElem?_slice, getElem?_slice]
  split
  · rw [List.getElem?_append_left (by omega)]
  · rfl

theorem slice_append_right {other : List Byte} (behind : file.length ≤ start) :
    slice (file ++ other) start length = slice other (start - file.length) length := by
  rw [slice, slice, List.drop_append, List.drop_eq_nil_of_le behind, List.nil_append]

theorem slice_left (file other : List Byte) : slice (file ++ other) 0 file.length = file := by
  rw [slice_append_left (by omega), slice_full]

theorem slice_middle (before piece after : List Byte) :
    slice (before ++ (piece ++ after)) before.length piece.length = piece := by
  rw [slice_append_right (Nat.le_refl _), Nat.sub_self, slice_left]

theorem slice_add (more : Nat) : slice file start (length + more) =
    slice file start length ++ slice file (start + length) more := by
  rw [slice, List.take_add, List.drop_drop]
  rfl

theorem getElem?_of_slice {bytes : List Byte} (held : slice file start length = bytes) {index : Nat}
    (within : index < length) : file[start + index]? = bytes[index]? := by
  rw [← held, getElem?_slice, if_pos within]

end Slice

section Write

variable {file : List Byte} {offset : Nat} {bytes : List Byte}

theorem length_write (blank : Byte) (inside : offset + bytes.length ≤ file.length) :
    (write blank file offset bytes).length = file.length := by
  unfold write
  split
  · rfl
  · simp only [List.length_append, List.length_take, List.length_replicate, List.length_drop]
    omega

theorem getElem?_write (blank : Byte) (inside : offset + bytes.length ≤ file.length) (index : Nat) :
    (write blank file offset bytes)[index]? =
      if offset ≤ index ∧ index < offset + bytes.length then bytes[index - offset]? else file[index]? := by
  have front : (file ++ List.replicate (offset - file.length) blank).take offset = file.take offset := by
    rw [List.take_append_of_le_length (by omega)]
  unfold write
  split
  · next empty =>
    rw [List.isEmpty_iff] at empty
    subst empty
    rw [if_neg]
    simp only [List.length_nil]
    omega
  · rw [front, List.append_assoc]
    have length : (file.take offset).length = offset := by
      rw [List.length_take]
      omega
    by_cases before : index < offset
    · rw [List.getElem?_append_left (by omega), List.getElem?_take_of_lt before, if_neg (by omega)]
    · rw [List.getElem?_append_right (by omega), length]
      by_cases within : index < offset + bytes.length
      · rw [List.getElem?_append_left (by omega), if_pos (by omega)]
      · rw [List.getElem?_append_right (by omega), List.getElem?_drop, if_neg (by omega)]
        congr 1
        omega

theorem slice_write (blank : Byte) (inside : offset + bytes.length ≤ file.length) :
    slice (write blank file offset bytes) offset bytes.length = bytes := by
  refine List.ext_getElem? fun index => ?_
  rw [getElem?_slice]
  split
  · rw [getElem?_write blank inside, if_pos (by omega), Nat.add_sub_cancel_left]
  · rw [List.getElem?_eq_none (by omega)]

theorem slice_write_of_apart (blank : Byte) {start length : Nat} (inside : offset + bytes.length ≤ file.length)
    (apart : Apart start length offset bytes.length) :
    slice (write blank file offset bytes) start length = slice file start length := by
  refine List.ext_getElem? fun index => ?_
  rw [getElem?_slice, getElem?_slice]
  split
  · rw [getElem?_write blank inside, if_neg]
    unfold Apart at apart
    omega
  · rfl

end Write

section Writes

variable (blank : Byte) {file : List Byte} {patches : List (Nat × List Byte)}

theorem length_writes (inside : ∀ patch ∈ patches, patch.1 + patch.2.length ≤ file.length) :
    (writes blank file patches).length = file.length := by
  induction patches generalizing file with
  | nil => rfl
  | cons patch patches ih =>
    rw [List.forall_mem_cons] at inside
    have first := length_write blank inside.1
    exact (ih (by rw [first]; exact inside.2)).trans first

theorem slice_writes_of_apart {start length : Nat}
    (inside : ∀ patch ∈ patches, patch.1 + patch.2.length ≤ file.length)
    (apart : ∀ patch ∈ patches, Apart start length patch.1 patch.2.length) :
    slice (writes blank file patches) start length = slice file start length := by
  induction patches generalizing file with
  | nil => rfl
  | cons patch patches ih =>
    rw [List.forall_mem_cons] at inside apart
    have first := length_write blank inside.1
    exact (ih (by rw [first]; exact inside.2) apart.2).trans (slice_write_of_apart blank inside.1 apart.1)

theorem slice_writes (inside : ∀ patch ∈ patches, patch.1 + patch.2.length ≤ file.length)
    (apart : patches.Pairwise fun patch other => Apart patch.1 patch.2.length other.1 other.2.length) :
    ∀ patch ∈ patches, slice (writes blank file patches) patch.1 patch.2.length = patch.2 := by
  induction patches generalizing file with
  | nil => simp
  | cons first patches ih =>
    rw [List.forall_mem_cons] at inside
    rw [List.pairwise_cons] at apart
    have length := length_write blank inside.1
    have later : ∀ patch ∈ patches, patch.1 + patch.2.length ≤
        (write blank file first.1 first.2).length := by
      rw [length]
      exact inside.2
    intro patch member
    rcases List.mem_cons.mp member with rfl | member
    · exact (slice_writes_of_apart blank later apart.1).trans (slice_write blank inside.1)
    · exact ih later apart.2 patch member

end Writes

/-- Of pieces of one width, put together, each is found at its place. -/
theorem slice_flatMap {α : Type} {items : List α} {piece : α → List Byte} {width : Nat}
    (even : ∀ item, (piece item).length = width) {index : Nat} {item : α}
    (found : items[index]? = some item) :
    slice (items.flatMap piece) (index * width) width = piece item := by
  induction items generalizing index with
  | nil => cases found
  | cons first items ih =>
    cases index with
    | zero =>
      cases found
      simp only [slice, List.flatMap_cons, Nat.zero_mul, List.drop_zero]
      exact List.take_left' (even item)
    | succ index =>
      have skipped : (index + 1) * width = (piece first).length + index * width := by
        rw [even first, Nat.succ_mul, Nat.add_comm]
      have rest := ih found
      simp only [slice, List.flatMap_cons, skipped, List.drop_length_add_append] at rest ⊢
      exact rest

/-- Ranges one after another, each from an aligned offset on, from a cursor to the end. -/
def Laid (unit : Nat) : Nat → List (Nat × Nat) → Nat → Prop
  | cursor, [], total => cursor = total
  | cursor, (start, stop) :: rest, total =>
    cursor ≤ start ∧ unit ∣ start ∧ start ≤ stop ∧ Laid unit stop rest total

/-- Ranges with no place in common. -/
def Disjoint (range other : Nat × Nat) : Prop :=
  range.2 ≤ other.1 ∨ other.2 ≤ range.1

theorem Disjoint.symm {range other : Nat × Nat} (disjoint : Disjoint range other) :
    Disjoint other range :=
  Or.symm disjoint

theorem pairwise_disjoint_of_perm {ranges others : List (Nat × Nat)} (perm : ranges.Perm others)
    (apart : others.Pairwise Disjoint) : ranges.Pairwise Disjoint :=
  (perm.pairwise_iff Disjoint.symm).mpr apart

namespace Laid

variable {unit cursor total : Nat} {ranges others : List (Nat × Nat)}

theorem append {between : Nat} (first : Laid unit cursor ranges between)
    (second : Laid unit between others total) : Laid unit cursor (ranges ++ others) total := by
  induction ranges generalizing cursor with
  | nil =>
    cases first
    exact second
  | cons range ranges ih =>
    obtain ⟨before, aligned, ordered, rest⟩ := first
    exact ⟨before, aligned, ordered, ih rest⟩

theorem cursor_le (laid : Laid unit cursor ranges total) : cursor ≤ total := by
  induction ranges generalizing cursor with
  | nil => exact le_of_eq laid
  | cons range ranges ih =>
    obtain ⟨before, -, ordered, rest⟩ := laid
    exact (before.trans ordered).trans (ih rest)

theorem within (laid : Laid unit cursor ranges total) :
    ∀ range ∈ ranges, cursor ≤ range.1 ∧ unit ∣ range.1 ∧ range.1 ≤ range.2 ∧ range.2 ≤ total := by
  induction ranges generalizing cursor with
  | nil => simp
  | cons first ranges ih =>
    obtain ⟨before, aligned, ordered, rest⟩ := laid
    intro range member
    rcases List.mem_cons.mp member with rfl | member
    · exact ⟨before, aligned, ordered, rest.cursor_le⟩
    · obtain ⟨after, facts⟩ := ih rest range member
      exact ⟨(before.trans ordered).trans after, facts⟩

theorem pairwise (laid : Laid unit cursor ranges total) :
    ranges.Pairwise fun range later => range.2 ≤ later.1 := by
  induction ranges generalizing cursor with
  | nil => exact .nil
  | cons first ranges ih =>
    obtain ⟨-, -, -, rest⟩ := laid
    exact List.pairwise_cons.mpr ⟨fun later member => (rest.within later member).1, ih rest⟩

theorem disjoint (laid : Laid unit cursor ranges total) : ranges.Pairwise Disjoint :=
  laid.pairwise.imp Or.inl

end Laid

end Patch
