import Supercov.Ruby.Transport

/-!
# Committed frames are read back

A frame that was written whole and committed passes every check of the reader; frames one
behind another are taken in turn.
-/

namespace Supercov.Ruby

open Outcome

section Frames

def padding (payload : Payload) : Nat :=
  align (transportRecordHeaderSize + payload.bytes.length) -
    (transportRecordHeaderSize + payload.bytes.length)

/-- What a frame holds behind its first byte. -/
def frameTail (payload : Payload) : List UInt8 :=
  [0, 0, 0] ++ (Bytes.writeLE 4 payload.bytes.length ++ (Bytes.writeLE 4 (checksum payload.bytes) ++
    (Bytes.writeLE 4 0 ++ (payload.bytes ++ List.replicate (padding payload) 0))))

def committedFrame (payload : Payload) : List UInt8 := 1 :: frameTail payload

def frames (payloads : List Payload) : List UInt8 := payloads.flatMap committedFrame

theorem le_align (position : Nat) : position ≤ align position := by
  unfold align
  omega

theorem align_add {cursor : Nat} (aligned : 8 ∣ cursor) (length : Nat) :
    align (cursor + length) = cursor + align length := by
  unfold align
  omega

theorem dvd_align (position : Nat) : 8 ∣ align position :=
  Nat.dvd_mul_left ..

theorem length_committedFrame (payload : Payload) :
    (committedFrame payload).length = align (transportRecordHeaderSize + payload.bytes.length) := by
  have before := le_align (transportRecordHeaderSize + payload.bytes.length)
  simp only [committedFrame, frameTail, padding, List.length_cons, List.length_append,
    Bytes.length_writeLE, List.length_replicate, List.length_nil]
  simp only [transportRecordHeaderSize] at before ⊢
  omega

theorem dvd_length_frames (payloads : List Payload) : 8 ∣ (frames payloads).length := by
  induction payloads with
  | nil => exact ⟨0, rfl⟩
  | cons payload payloads ih =>
    rw [frames, List.flatMap_cons, List.length_append, length_committedFrame]
    exact Nat.dvd_add (dvd_align _) ih

theorem transportChecksum_eq (payload : List UInt8) :
    (transportChecksum payload).toNat = checksum payload := by
  unfold transportChecksum checksum
  have start : (0x811c9dc5 : UInt32).toNat = 0x811C9DC5 := rfl
  generalize (0x811c9dc5 : UInt32) = value at start ⊢
  generalize (0x811C9DC5 : Nat) = value' at start ⊢
  induction payload generalizing value value' with
  | nil => exact start
  | cons byte payload ih =>
    refine ih _ _ ?_
    rw [UInt32.toNat_mul, UInt32.toNat_xor, start]
    rfl

theorem checksum_lt (payload : List UInt8) : checksum payload < 2 ^ 32 := by
  rw [← transportChecksum_eq]
  exact UInt32.toNat_lt _

end Frames

section Reads

variable {contents : List UInt8} {cursor : Nat} {payload : Payload}

theorem slices_committedFrame (payload : Payload) :
    Patch.slice (committedFrame payload) 1 3 = [0, 0, 0] ∧
      Patch.slice (committedFrame payload) 4 4 = Bytes.writeLE 4 payload.bytes.length ∧
      Patch.slice (committedFrame payload) 8 4 = Bytes.writeLE 4 (checksum payload.bytes) ∧
      Patch.slice (committedFrame payload) 12 4 = [0, 0, 0, 0] ∧
      Patch.slice (committedFrame payload) 16 payload.bytes.length = payload.bytes ∧
      Patch.slice (committedFrame payload) (16 + payload.bytes.length) (padding payload) =
        List.replicate (padding payload) 0 := by
  have length := Patch.slice_middle [1, 0, 0, 0] (Bytes.writeLE 4 payload.bytes.length)
    (Bytes.writeLE 4 (checksum payload.bytes) ++
      (Bytes.writeLE 4 0 ++ (payload.bytes ++ List.replicate (padding payload) 0)))
  have hash := Patch.slice_middle ([1, 0, 0, 0] ++ Bytes.writeLE 4 payload.bytes.length)
    (Bytes.writeLE 4 (checksum payload.bytes))
    (Bytes.writeLE 4 0 ++ (payload.bytes ++ List.replicate (padding payload) 0))
  have reserved := Patch.slice_middle ([1, 0, 0, 0] ++ (Bytes.writeLE 4 payload.bytes.length ++
      Bytes.writeLE 4 (checksum payload.bytes)))
    (Bytes.writeLE 4 0) (payload.bytes ++ List.replicate (padding payload) 0)
  have whole := Patch.slice_middle ([1, 0, 0, 0] ++ (Bytes.writeLE 4 payload.bytes.length ++
      (Bytes.writeLE 4 (checksum payload.bytes) ++ Bytes.writeLE 4 0)))
    payload.bytes (List.replicate (padding payload) 0)
  have filled := Patch.slice_middle ([1, 0, 0, 0] ++ (Bytes.writeLE 4 payload.bytes.length ++
      (Bytes.writeLE 4 (checksum payload.bytes) ++ (Bytes.writeLE 4 0 ++ payload.bytes))))
    (List.replicate (padding payload) 0) []
  simp only [List.length_append, List.length_cons, List.length_nil, Bytes.length_writeLE,
    List.length_replicate, List.append_assoc, List.append_nil] at length hash reserved whole filled
  have behind : 16 + payload.bytes.length = 0 + 1 + 1 + 1 + 1 + (4 + (4 + (4 + payload.bytes.length))) := by
    omega
  exact ⟨rfl, length, hash, reserved, whole, by rw [behind]; exact filled⟩

theorem readFrame_committed (aligned : 8 ∣ cursor) (fits : payload.bytes.length ≤ transportMaxRecordSize)
    (held : Patch.slice contents cursor (committedFrame payload).length = committedFrame payload)
    (inside : cursor + (committedFrame payload).length ≤ contents.length)
    (small : contents.length < 2 ^ 63) :
    readFrame contents cursor =
      .ok (some { payload := payload.bytes, next := cursor + (committedFrame payload).length }) := by
  obtain ⟨reserved, length, hash, reserved', whole, filled⟩ := slices_committedFrame payload
  have size := length_committedFrame payload
  have room := le_align (transportRecordHeaderSize + payload.bytes.length)
  have padded : padding payload = (committedFrame payload).length - (16 + payload.bytes.length) := by
    rw [size]
    rfl
  have some_ : payload.bytes.length ≠ 0 := fun none => payload.nonempty (List.length_eq_zero_iff.mp none)
  have next := align_add aligned (transportRecordHeaderSize + payload.bytes.length)
  rw [← size] at room next
  simp only [transportRecordHeaderSize] at room next
  simp only [transportMaxRecordSize] at fits
  generalize (committedFrame payload).length = stop at *
  have piece {start count : Nat} (within : start + count ≤ stop) :
      Patch.slice contents (cursor + start) count = Patch.slice (committedFrame payload) start count := by
    rw [← held]
    exact (Patch.slice_slice within).symm
  have word {start value : Nat} (within : start + 4 ≤ stop) (small : value < 2 ^ 32)
      (stored : Patch.slice (committedFrame payload) start 4 = Bytes.writeLE 4 value) :
      transportU32 contents (cursor + start) = some value := by
    rw [transportU32, if_pos (by omega), piece within, stored,
      Bytes.readLE_writeLE (by simpa using small)]
  have commit : contents[cursor + 0]? = some 1 := Patch.getElem?_of_slice held (by omega)
  rw [Nat.add_zero] at commit
  have taken {start stop' : Nat} (ordered : start ≤ stop') (within : stop' ≤ stop) :
      (Checked.slice contents (cursor + start) (cursor + stop') : Outcome String _) =
        .ok (Patch.slice (committedFrame payload) start (stop' - start)) := by
    have own : Patch.slice contents (cursor + start) (stop' - start) = _ := piece (by omega)
    rw [Checked.slice_eq_ok (by omega) (by omega), Patch.drop_take_eq_slice, ← own]
    congr 2
    omega
  unfold readFrame
  rw [if_neg (by simp only [transportRecordHeaderSize]; omega), commit]
  refine bind_of_eq_ok rfl ?_
  rw [if_neg (by decide)]
  refine bind_of_eq_ok (taken (by omega) (by omega)) ?_
  refine bind_of_eq_ok (taken (by omega) (by omega)) ?_
  refine bind_of_eq_ok (refuseIf_neg ?_) ?_
  · rw [reserved, reserved']
    decide
  rw [word (by omega) (by omega) length]
  refine bind_of_eq_ok rfl ?_
  refine bind_of_eq_ok (refuseIf_neg (by simp only [transportMaxRecordSize]; omega)) ?_
  have ends : (checkedAdd (cursor + transportRecordHeaderSize) payload.bytes.length).filter
      (fun stop => stop ≤ contents.length) = some (cursor + (16 + payload.bytes.length)) := by
    rw [checkedAdd, if_pos (by simp only [transportRecordHeaderSize]; omega)]
    simp only [transportRecordHeaderSize, Nat.add_assoc, Option.filter_some]
    rw [if_pos (by simp only [decide_eq_true_eq]; omega)]
  refine bind_of_eq_ok (congrArg (okOr _) ends) ?_
  have aligns : (alignTransport (cursor + (16 + payload.bytes.length))).filter
      (fun stop => stop ≤ contents.length) = some (cursor + stop) := by
    rw [alignTransport, checkedAdd, if_pos (by omega), Option.map_some]
    change (some (align (cursor + (16 + payload.bytes.length)))).filter _ = _
    rw [next, Option.filter_some, if_pos (by simp only [decide_eq_true_eq]; omega)]
  refine bind_of_eq_ok (congrArg (okOr _) aligns) ?_
  refine bind_of_eq_ok (taken room (Nat.le_refl _)) ?_
  refine bind_of_eq_ok (refuseIf_neg ?_) ?_
  · rw [← padded, filled]
    simp
  have held_ := taken (Nat.le_add_right 16 _) room
  rw [Nat.add_sub_cancel_left, whole] at held_
  refine bind_of_eq_ok held_ ?_
  rw [word (by omega) (checksum_lt _) hash]
  refine bind_of_eq_ok rfl ?_
  exact bind_of_eq_ok (refuseIf_neg (not_not.mpr (transportChecksum_eq _))) rfl

variable (parse : List UInt8 → Outcome String Record) (name runId : String) (transportPid : Nat)

def absorbAll : List Payload → Nat → Reading → Outcome RubyEvidenceError Reading
  | [], _, reading => .ok reading
  | payload :: payloads, line, reading => do
    let reading ← absorbPayload parse name runId transportPid (line + 1) payload.bytes reading
    absorbAll payloads (line + 1) reading

/-- What a committed account makes of the evidence: nothing where a record was dropped. -/
def Account.evidence (account : Account) (evidence : Evidence) :
    Outcome RubyEvidenceError Evidence :=
  if account.recorded ≠ 0 then .refused (.droppedRecords name account.recorded)
  else do
    let reading ← absorbAll parse name runId transportPid account.committed 0 { evidence }
    return reading.finish transportPid

/-- Where no frame stands, or one that is not committed, the records end. -/
def Ends (contents : List UInt8) (stop : Nat) : Prop :=
  stop + transportRecordHeaderSize ≤ contents.length → contents[stop]? = some 0

theorem readFrame_of_ends {stop : Nat} (ends : Ends contents stop) :
    readFrame contents stop = .ok none := by
  unfold readFrame
  split
  · rfl
  · next room =>
    rw [ends (not_lt.mp room)]
    rfl

theorem readRecords_of_none {line : Nat} {reading : Reading}
    (stops : readFrame contents cursor = .ok none) :
    readRecords parse name runId transportPid contents cursor line reading = .ok reading := by
  rw [readRecords]
  split
  · next taken => cases taken.symm.trans stops
  · next taken => cases taken.symm.trans stops
  · rfl
  · next taken => cases taken.symm.trans stops

theorem readRecords_of_some {line : Nat} {reading : Reading} {frame : Frame}
    (next : readFrame contents cursor = .ok (some frame)) :
    readRecords parse name runId transportPid contents cursor line reading = (do
      let reading ← absorbPayload parse name runId transportPid (line + 1) frame.payload reading
      readRecords parse name runId transportPid contents frame.next (line + 1) reading) := by
  rw [readRecords]
  split
  · next taken => cases taken.symm.trans next
  · next taken => cases taken.symm.trans next
  · next taken => cases taken.symm.trans next
  · next taken =>
    cases taken.symm.trans next
    rfl

theorem readRecords_eq {payloads : List Payload} (line : Nat) (reading : Reading) (aligned : 8 ∣ cursor)
    (fits : ∀ payload ∈ payloads, payload.bytes.length ≤ transportMaxRecordSize)
    (held : Patch.slice contents cursor (frames payloads).length = frames payloads)
    (inside : cursor + (frames payloads).length ≤ contents.length)
    (small : contents.length < 2 ^ 63) (ends : Ends contents (cursor + (frames payloads).length)) :
    readRecords parse name runId transportPid contents cursor line reading =
      absorbAll parse name runId transportPid payloads line reading := by
  induction payloads generalizing cursor line reading with
  | nil => exact readRecords_of_none parse name runId transportPid (readFrame_of_ends ends)
  | cons payload payloads ih =>
    have whole : (frames (payload :: payloads)).length =
        (committedFrame payload).length + (frames payloads).length := List.length_append
    rw [whole, ← Nat.add_assoc] at ends inside
    rw [List.forall_mem_cons] at fits
    rw [whole, Patch.slice_add] at held
    obtain ⟨first, rest⟩ := List.append_inj held (by rw [Patch.length_slice (by omega)])
    have next := readFrame_committed aligned fits.1 first (by omega) small
    have aligned' : 8 ∣ cursor + (committedFrame payload).length :=
      Nat.dvd_add aligned (by rw [length_committedFrame]; exact dvd_align _)
    rw [readRecords_of_some parse name runId transportPid next, absorbAll]
    dsimp only
    cases absorbPayload parse name runId transportPid (line + 1) payload.bytes reading with
    | ok reading => exact ih (line + 1) reading aligned' fits.2 rest inside ends
    | refused error => rfl
    | crashed => rfl

end Reads

end Supercov.Ruby
