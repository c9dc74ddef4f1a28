import Supercov.Ruby.Frames

/-!
# A Ruby process may be killed at any moment

Every write leaves a file that holds what the process committed and ends there: the frames
stand behind one another, what is behind them is blank or starts with a byte that is, and
the header counts what was dropped.  Only before its header is written does a file hold
nothing that can be read.
-/

namespace Supercov.Ruby

open Outcome
open Killed (run Throughout)

/-- A file that holds what the account says, and ends there. -/
structure Image (pid : Nat) (account : Account) (contents : List UInt8) : Prop where
  front : Patch.slice contents 0 16 = transportMagic ++
    (Bytes.writeLE 4 transportVersion ++ Bytes.writeLE 4 transportHeaderSize)
  capacity : ∃ capacity, Patch.slice contents 16 8 = Bytes.writeLE 8 capacity ∧
    transportHeaderSize ≤ capacity ∧ capacity ≤ contents.length
  recorded : Patch.slice contents 24 8 = Bytes.writeLE 8 account.recorded
  recorded_lt : account.recorded < 2 ^ 64
  pid : Patch.slice contents 32 8 = Bytes.writeLE 8 pid
  fits : ∀ payload ∈ account.committed, payload.bytes.length ≤ transportMaxRecordSize
  held : Patch.slice contents transportHeaderSize (frames account.committed).length =
    frames account.committed
  inside : transportHeaderSize + (frames account.committed).length ≤ contents.length
  small : contents.length ≤ transportMaxCapacity
  ends : Ends contents (transportHeaderSize + (frames account.committed).length)

namespace Image

variable {pid : Nat} {account : Account} {contents : List UInt8}

theorem u32_eq {offset value : Nat} (stored : Patch.slice contents offset 4 = Bytes.writeLE 4 value)
    (fits : value < 2 ^ 32) (inside : offset + 4 ≤ contents.length) :
    transportU32 contents offset = some value := by
  rw [transportU32, if_pos inside, stored, Bytes.readLE_writeLE (by simpa using fits)]

theorem u64_eq {offset value : Nat} (stored : Patch.slice contents offset 8 = Bytes.writeLE 8 value)
    (fits : value < 2 ^ 64) (inside : offset + 8 ≤ contents.length) :
    transportU64 contents offset = some value := by
  rw [transportU64, if_pos inside, stored, Bytes.readLE_writeLE (by simpa using fits)]

theorem front_eq (image : Image pid account contents) :
    Patch.slice contents 0 8 = transportMagic ∧
      Patch.slice contents 8 4 = Bytes.writeLE 4 transportVersion ∧
      Patch.slice contents 12 4 = Bytes.writeLE 4 transportHeaderSize := by
  have part {start count : Nat} (within : start + count ≤ 16) :
      Patch.slice contents start count = Patch.slice (transportMagic ++
        (Bytes.writeLE 4 transportVersion ++ Bytes.writeLE 4 transportHeaderSize)) start count := by
    rw [← image.front, Patch.slice_slice within, Nat.zero_add]
  rw [part (by decide), part (by decide), part (by decide)]
  decide +kernel

theorem readEvidenceFile_eq {owner : Owner} (image : Image owner.pid account contents)
    (parse : List UInt8 → Outcome String Record) (name runId : String) (evidence : Evidence) :
    readEvidenceFile parse name runId contents evidence =
      account.evidence parse name runId owner.pid evidence := by
  have inside := image.inside
  have small := image.small
  obtain ⟨capacity, stored, large, within⟩ := image.capacity
  simp only [transportHeaderSize] at inside large
  simp only [transportMaxCapacity] at small
  obtain ⟨magic, version, size⟩ := image.front_eq
  have version := u32_eq version (by decide) (by omega)
  have size := u32_eq size (by decide) (by omega)
  have declared := u64_eq stored (by omega) (by omega)
  have dropped := u64_eq image.recorded image.recorded_lt (by omega)
  have pid := u64_eq image.pid owner.pid_lt (by omega)
  unfold readEvidenceFile Account.evidence
  refine bind_of_eq_ok (refuseIf_neg ?_) ?_
  · rw [magic, version, size]
    simp only [transportHeaderSize, ne_eq, not_true_eq_false, or_false]
    omega
  rw [declared]
  refine bind_of_eq_ok rfl ?_
  refine bind_of_eq_ok (refuseIf_neg (by simp only [transportHeaderSize]; omega)) ?_
  rw [dropped]
  refine bind_of_eq_ok rfl ?_
  by_cases none_ : account.recorded ≠ 0
  · rw [refuseIf_pos none_, refused_bind, if_pos none_]
  · rw [refuseIf_neg none_, ok_bind, pid, if_neg none_]
    refine bind_of_eq_ok rfl ?_
    have aligned : 8 ∣ transportHeaderSize := ⟨8, rfl⟩
    rw [refuseIf_neg owner.positive.ne', ok_bind,
      readRecords_eq parse name runId owner.pid 0 { evidence } aligned image.fits image.held
        image.inside (by omega) image.ends]

theorem write (image : Image pid account contents) {offset : Nat} {bytes : List UInt8}
    (inside : offset + bytes.length ≤ contents.length)
    (behind : transportHeaderSize + (frames account.committed).length ≤ offset)
    (ends : Ends (Patch.write 0 contents offset bytes)
      (transportHeaderSize + (frames account.committed).length)) :
    Image pid account (Patch.write 0 contents offset bytes) := by
  have length := Patch.length_write 0 inside
  have kept {start count : Nat}
      (before : start + count ≤ transportHeaderSize + (frames account.committed).length) :
      Patch.slice (Patch.write 0 contents offset bytes) start count =
        Patch.slice contents start count :=
    Patch.slice_write_of_apart 0 inside (.inl (before.trans behind))
  have header {start count : Nat} (before : start + count ≤ transportHeaderSize) :
      Patch.slice (Patch.write 0 contents offset bytes) start count =
        Patch.slice contents start count :=
    kept (before.trans (Nat.le_add_right ..))
  obtain ⟨capacity, stored, large, within⟩ := image.capacity
  exact {
    front := (header (by decide)).trans image.front
    capacity := ⟨capacity, (header (by decide)).trans stored, large, by rw [length]; exact within⟩
    recorded := (header (by decide)).trans image.recorded
    recorded_lt := image.recorded_lt
    pid := (header (by decide)).trans image.pid
    fits := image.fits
    held := (kept (Nat.le_refl _)).trans image.held
    inside := by rw [length]; exact image.inside
    small := by rw [length]; exact image.small
    ends := ends }

theorem header_write (image : Image pid account contents) {offset : Nat} {bytes : List UInt8}
    (inside : offset + bytes.length ≤ transportHeaderSize) :
    (Patch.write 0 contents offset bytes).length = contents.length ∧
      Patch.slice (Patch.write 0 contents offset bytes) transportHeaderSize
        (frames account.committed).length = frames account.committed ∧
      Ends (Patch.write 0 contents offset bytes)
        (transportHeaderSize + (frames account.committed).length) := by
  have room : offset + bytes.length ≤ contents.length :=
    inside.trans ((Nat.le_add_right ..).trans image.inside)
  have length := Patch.length_write 0 room
  refine ⟨length, (Patch.slice_write_of_apart 0 room (.inr inside)).trans image.held, ?_⟩
  unfold Ends
  rw [length, Patch.getElem?_write 0 room, if_neg (by omega)]
  exact image.ends

theorem count (image : Image pid account contents) {dropped : Nat} (fits : dropped < 2 ^ 64) :
    Image pid { account with recorded := dropped }
      (Patch.write 0 contents 24 (Bytes.writeLE 8 dropped)) := by
  have width : (Bytes.writeLE 8 dropped).length = 8 := Bytes.length_writeLE ..
  have room : 24 + (Bytes.writeLE 8 dropped).length ≤ transportHeaderSize := by
    rw [width]
    decide
  obtain ⟨length, held, ends⟩ := image.header_write room
  have large := image.inside
  simp only [transportHeaderSize] at large
  have room : 24 + (Bytes.writeLE 8 dropped).length ≤ contents.length := by omega
  have kept {start count : Nat} (apart : start + count ≤ 24 ∨ 32 ≤ start) :
      Patch.slice (Patch.write 0 contents 24 (Bytes.writeLE 8 dropped)) start count =
        Patch.slice contents start count :=
    Patch.slice_write_of_apart 0 room (by rw [width]; exact apart)
  obtain ⟨capacity, stored, large, within⟩ := image.capacity
  exact {
    front := (kept (by decide)).trans image.front
    capacity := ⟨capacity, (kept (by decide)).trans stored, large, by rw [length]; exact within⟩
    recorded := width ▸ Patch.slice_write 0 room
    recorded_lt := fits
    pid := (kept (by decide)).trans image.pid
    fits := image.fits
    held := held
    inside := by rw [length]; exact image.inside
    small := by rw [length]; exact image.small
    ends := ends }

theorem grow (image : Image pid account contents) {capacity : Nat}
    (longer : contents.length ≤ capacity) (fits : capacity ≤ transportMaxCapacity)
    (ends : Ends (truncated capacity contents)
      (transportHeaderSize + (frames account.committed).length)) :
    Image pid account (truncated capacity contents) ∧
      Image pid account
        (Patch.write 0 (truncated capacity contents) 16 (Bytes.writeLE 8 capacity)) := by
  have longer_eq : truncated capacity contents =
      contents ++ List.replicate (capacity - contents.length) 0 := by
    rw [truncated, List.take_of_length_le longer]
  have length : (truncated capacity contents).length = capacity := by
    rw [longer_eq, List.length_append, List.length_replicate]
    omega
  have large := image.inside
  have kept {start count : Nat} (within : start + count ≤ contents.length) :
      Patch.slice (truncated capacity contents) start count = Patch.slice contents start count := by
    rw [longer_eq]
    exact Patch.slice_append_left within
  have header {start count : Nat} (within : start + count ≤ transportHeaderSize) :
      Patch.slice (truncated capacity contents) start count = Patch.slice contents start count :=
    kept (within.trans ((Nat.le_add_right ..).trans large))
  obtain ⟨declared, stored, large', within⟩ := image.capacity
  have longer_image : Image pid account (truncated capacity contents) := {
    front := (header (by decide)).trans image.front
    capacity := ⟨declared, (header (by decide)).trans stored, large', by rw [length]; omega⟩
    recorded := (header (by decide)).trans image.recorded
    recorded_lt := image.recorded_lt
    pid := (header (by decide)).trans image.pid
    fits := image.fits
    held := (kept large).trans image.held
    inside := by rw [length]; omega
    small := by rw [length]; exact fits
    ends := ends }
  refine ⟨longer_image, ?_⟩
  have width : (Bytes.writeLE 8 capacity).length = 8 := Bytes.length_writeLE ..
  have room : 16 + (Bytes.writeLE 8 capacity).length ≤ transportHeaderSize := by
    rw [width]
    decide
  obtain ⟨length', held, ends'⟩ := longer_image.header_write room
  have room : 16 + (Bytes.writeLE 8 capacity).length ≤ (truncated capacity contents).length := by
    simp only [transportHeaderSize] at large
    omega
  have kept {start count : Nat} (apart : start + count ≤ 16 ∨ 24 ≤ start) :
      Patch.slice (Patch.write 0 (truncated capacity contents) 16 (Bytes.writeLE 8 capacity)) start
        count = Patch.slice (truncated capacity contents) start count :=
    Patch.slice_write_of_apart 0 room (by rw [width]; exact apart)
  exact {
    front := (kept (by decide)).trans longer_image.front
    capacity := ⟨capacity, width ▸ Patch.slice_write 0 room, by omega, by omega⟩
    recorded := (kept (by decide)).trans longer_image.recorded
    recorded_lt := image.recorded_lt
    pid := (kept (by decide)).trans longer_image.pid
    fits := image.fits
    held := held
    inside := by rw [length']; exact longer_image.inside
    small := by rw [length']; exact longer_image.small
    ends := ends' }

end Image

section Writes

variable {owner : Owner} {process : Process} {contents : List UInt8}

def Blank (contents : List UInt8) (start : Nat) : Prop :=
  ∀ index, start ≤ index → index < contents.length → contents[index]? = some 0

theorem Blank.ends {start : Nat} (blank : Blank contents start) : Ends contents start := by
  intro room
  exact blank start (Nat.le_refl _) (by simp only [transportRecordHeaderSize] at room; omega)

theorem frames_append (payloads : List Payload) (payload : Payload) :
    frames (payloads ++ [payload]) = frames payloads ++ committedFrame payload := by
  simp [frames]

theorem Image.commit {pid : Nat} {account : Account} (image : Image pid account contents)
    {payload : Payload} (fits : payload.bytes.length ≤ transportMaxRecordSize) {cursor : Nat}
    (behind : cursor = transportHeaderSize + (frames account.committed).length)
    (held : Patch.slice contents cursor (committedFrame payload).length = 0 :: frameTail payload)
    (inside : cursor + (committedFrame payload).length ≤ contents.length)
    (blank : Blank contents (cursor + (committedFrame payload).length)) :
    Image pid { account with committed := account.committed ++ [payload] }
        (Patch.write 0 contents cursor [1]) ∧
      Blank (Patch.write 0 contents cursor [1]) (cursor + (committedFrame payload).length) := by
  have whole : (committedFrame payload).length = 1 + (frameTail payload).length := Nat.add_comm ..
  have room : cursor + [(1 : UInt8)].length ≤ contents.length := by
    rw [List.length_singleton]
    omega
  have length := Patch.length_write 0 room
  have blank' : Blank (Patch.write 0 contents cursor [1])
      (cursor + (committedFrame payload).length) := by
    intro index after within
    rw [length] at within
    rw [Patch.getElem?_write 0 room, if_neg (by rw [List.length_singleton]; omega)]
    exact blank index after within
  have kept {start count : Nat} (before : start + count ≤ cursor) :
      Patch.slice (Patch.write 0 contents cursor [1]) start count =
        Patch.slice contents start count :=
    Patch.slice_write_of_apart 0 room (.inl before)
  have header {start count : Nat} (before : start + count ≤ transportHeaderSize) :
      Patch.slice (Patch.write 0 contents cursor [1]) start count =
        Patch.slice contents start count :=
    kept (by omega)
  have first : Patch.slice (Patch.write 0 contents cursor [1]) cursor 1 = [1] :=
    Patch.slice_write 0 room
  have rest : Patch.slice (Patch.write 0 contents cursor [1]) (cursor + 1)
      (frameTail payload).length = frameTail payload := by
    have apart : Patch.Apart (cursor + 1) (frameTail payload).length cursor [(1 : UInt8)].length :=
      .inr (Nat.le_refl _)
    rw [Patch.slice_write_of_apart 0 room apart, ← Patch.slice_slice (le_of_eq whole.symm), held]
    exact Patch.slice_full (frameTail payload)
  have frames_eq := frames_append account.committed payload
  have frames_length : (frames (account.committed ++ [payload])).length =
      (frames account.committed).length + (committedFrame payload).length := by
    rw [frames_eq, List.length_append]
  obtain ⟨capacity, stored, large, within⟩ := image.capacity
  refine ⟨{
    front := (header (by decide)).trans image.front
    capacity := ⟨capacity, (header (by decide)).trans stored, large, by rw [length]; exact within⟩
    recorded := (header (by decide)).trans image.recorded
    recorded_lt := image.recorded_lt
    pid := (header (by decide)).trans image.pid
    fits := ?_
    held := ?_
    inside := by rw [length, frames_length]; omega
    small := by rw [length]; exact image.small
    ends := by
      rw [frames_length, ← Nat.add_assoc, ← behind]
      exact blank'.ends }, blank'⟩
  · intro other member
    rcases List.mem_append.mp member with old | new
    · exact image.fits other old
    · rw [List.mem_singleton.mp new]
      exact fits
  · rw [frames_length, frames_eq, Patch.slice_add, kept (le_of_eq behind.symm), image.held, ← behind,
      whole, Patch.slice_add, first, rest]
    rfl

/-- A process between two records. -/
structure Rests (owner : Owner) (process : Process) (contents : List UInt8) : Prop where
  file : process.file = some contents
  image : Image owner.pid process.account contents
  blank : Blank contents process.cursor
  capacity : contents.length = process.capacity
  cursor : process.cursor = transportHeaderSize + (frames process.account.committed).length
  recorded : process.account.recorded = min process.dropped (2 ^ 64 - 1)

/-- What the process leaves, if it is killed now, is read as its account says. -/
def Legible (owner : Owner) (process : Process) : Prop :=
  ∃ contents, process.file = some contents ∧ Image owner.pid process.account contents

/-- The writes leave a legible file wherever they end, and a process at rest at last. -/
def Keeps (owner : Owner) (ops : List Op) (process : Process) : Prop :=
  Throughout Op.apply (Legible owner) ops process ∧
    ∃ contents, Rests owner (run Op.apply ops process) contents

theorem Rests.legible (rests : Rests owner process contents) : Legible owner process :=
  ⟨contents, rests.file, rests.image⟩

theorem Keeps.append {ops later : List Op} (keeps : Keeps owner ops process)
    (keeps' : Keeps owner later (run Op.apply ops process)) : Keeps owner (ops ++ later) process := by
  refine ⟨keeps.1.append keeps'.1, ?_⟩
  rw [Killed.run_append]
  exact keeps'.2

theorem Rests.drop (rests : Rests owner process contents) : Keeps owner (drop process) process := by
  have legible : Legible owner (Op.apply (.setDropped (process.dropped + 1)) process) :=
    ⟨contents, rests.file, rests.image⟩
  have recorded := rests.recorded
  have small := rests.image.small
  have inside := rests.image.inside
  unfold Ruby.drop
  split
  · next packed =>
    have image := rests.image.count packed
    have width : (Bytes.writeLE 8 (process.dropped + 1)).length = 8 := Bytes.length_writeLE ..
    have room : 24 + (Bytes.writeLE 8 (process.dropped + 1)).length ≤ contents.length := by
      simp only [transportHeaderSize] at inside
      omega
    have file : (run Op.apply [.setDropped (process.dropped + 1), .count (process.dropped + 1)]
        process).file = some (Patch.write 0 contents 24 (Bytes.writeLE 8 (process.dropped + 1))) := by
      change process.file.map _ = _
      rw [rests.file]
      rfl
    refine ⟨⟨rests.legible, legible, _, file, image⟩, _, file, image, ?_, ?_, rests.cursor, ?_⟩
    · intro index after within
      have cursor := rests.cursor
      simp only [transportHeaderSize] at cursor
      change process.cursor ≤ index at after
      rw [Patch.length_write 0 room] at within
      rw [Patch.getElem?_write 0 room, if_neg (by omega)]
      exact rests.blank index after within
    · exact (Patch.length_write 0 room).trans rests.capacity
    · change process.dropped + 1 = min (process.dropped + 1) (2 ^ 64 - 1)
      omega
  · next full =>
    refine ⟨⟨rests.legible, legible⟩, contents, rests.file, rests.image, rests.blank,
      rests.capacity, rests.cursor, ?_⟩
    change process.account.recorded = min (process.dropped + 1) (2 ^ 64 - 1)
    omega

theorem uncommitted_eq {cursor : Nat} (aligned : 8 ∣ cursor) (payload : Payload) :
    frameHeader payload.bytes ++ payload.bytes ++ List.replicate
        (align (cursor + transportRecordHeaderSize + payload.bytes.length) -
          (cursor + transportRecordHeaderSize + payload.bytes.length)) 0 =
      0 :: frameTail payload := by
  have padded : align (cursor + transportRecordHeaderSize + payload.bytes.length) -
      (cursor + transportRecordHeaderSize + payload.bytes.length) = padding payload := by
    rw [Nat.add_assoc, align_add aligned, Nat.add_sub_add_left]
    rfl
  rw [padded]
  simp [frameHeader, frameTail]

theorem Rests.aligned (rests : Rests owner process contents) : 8 ∣ process.cursor := by
  rw [rests.cursor]
  exact Nat.dvd_add ⟨8, rfl⟩ (dvd_length_frames _)

theorem Rests.writeFrame (rests : Rests owner process contents) {payload : Payload}
    (fits : payload.bytes.length ≤ transportMaxRecordSize)
    (room : align (process.cursor + transportRecordHeaderSize + payload.bytes.length) ≤
      process.capacity) : Keeps owner (writeFrame payload process) process := by
  have next := align_add rests.aligned (transportRecordHeaderSize + payload.bytes.length)
  rw [← Nat.add_assoc, ← length_committedFrame] at next
  have whole : (0 :: frameTail payload).length = (committedFrame payload).length := rfl
  unfold Ruby.writeFrame
  dsimp only
  rw [uncommitted_eq rests.aligned, next]
  rw [next, ← rests.capacity] at room
  have within : process.cursor + (0 :: frameTail payload).length ≤ contents.length := room
  set written := Patch.write 0 contents process.cursor (0 :: frameTail payload) with written_eq
  have length : written.length = contents.length := Patch.length_write 0 within
  have held : Patch.slice written process.cursor (committedFrame payload).length =
      0 :: frameTail payload := Patch.slice_write 0 within
  have open_ : Ends written (transportHeaderSize + (frames process.account.committed).length) := by
    intro _
    rw [← rests.cursor]
    exact Patch.getElem?_of_slice held (Nat.succ_pos _)
  have image := rests.image.write within (le_of_eq rests.cursor.symm) open_
  have blank : Blank written (process.cursor + (committedFrame payload).length) := by
    intro index after within'
    rw [length] at within'
    rw [written_eq, Patch.getElem?_write 0 within, if_neg (by rw [whole]; omega)]
    exact rests.blank index (by omega) within'
  obtain ⟨committed, blank'⟩ := image.commit fits rests.cursor held (by rw [length]; exact room) blank
  have file : (Op.apply (.pwrite (0 :: frameTail payload) process.cursor) process).file =
      some written := by
    change process.file.map _ = _
    rw [rests.file]
    rfl
  have file' : (Op.apply (.commit payload process.cursor)
      (Op.apply (.pwrite (0 :: frameTail payload) process.cursor) process)).file =
        some (Patch.write 0 written process.cursor [1]) := by
    change (Op.apply (.pwrite (0 :: frameTail payload) process.cursor) process).file.map _ = _
    rw [file]
    rfl
  refine ⟨⟨rests.legible, ⟨written, file, image⟩, ⟨_, file', committed⟩, ⟨_, file', committed⟩⟩,
    _, file', committed, blank', ?_, ?_, rests.recorded⟩
  · have first : 1 ≤ (committedFrame payload).length := Nat.succ_pos _
    rw [Patch.length_write 0 (by rw [List.length_singleton, length]; omega), length]
    exact rests.capacity
  · change process.cursor + (committedFrame payload).length =
      transportHeaderSize + (frames (process.account.committed ++ [payload])).length
    rw [frames_append, List.length_append, rests.cursor, Nat.add_assoc]

theorem le_grownCapacity (capacity required : Nat) (fits : capacity ≤ transportMaxCapacity) :
    capacity ≤ grownCapacity capacity required ∧
      grownCapacity capacity required ≤ transportMaxCapacity := by
  fun_induction grownCapacity capacity required with
  | case1 capacity more ih =>
    have grown := ih (Nat.min_le_right _ _)
    omega
  | case2 capacity enough => exact ⟨Nat.le_refl _, fits⟩

theorem Rests.grow (rests : Rests owner process contents) {required : Nat} {ops : List Op}
    (growing : grow required process = some ops) :
    Keeps owner ops process ∧ (run Op.apply ops process).cursor = process.cursor ∧
      required ≤ (run Op.apply ops process).capacity := by
  have small := rests.image.small
  rw [rests.capacity] at small
  obtain ⟨longer, fits⟩ := le_grownCapacity process.capacity required small
  unfold Ruby.grow at growing
  dsimp only at growing
  generalize grownCapacity process.capacity required = capacity at *
  split at growing
  · cases growing
  · next enough =>
    cases growing
    rw [← rests.capacity] at longer
    have longer_eq : truncated capacity contents =
        contents ++ List.replicate (capacity - contents.length) 0 := by
      rw [truncated, List.take_of_length_le longer]
    have length : (truncated capacity contents).length = capacity := by
      rw [longer_eq, List.length_append, List.length_replicate]
      omega
    have blank : Blank (truncated capacity contents) process.cursor := by
      intro index after within
      rw [length] at within
      rw [longer_eq]
      by_cases old : index < contents.length
      · rw [List.getElem?_append_left old]
        exact rests.blank index after old
      · rw [List.getElem?_append_right (not_lt.mp old), List.getElem?_replicate, if_pos (by omega)]
    obtain ⟨longerImage, told⟩ := rests.image.grow longer fits (rests.cursor ▸ blank.ends)
    have width : (Bytes.writeLE 8 capacity).length = 8 := Bytes.length_writeLE ..
    have inside := rests.image.inside
    have cursor := rests.cursor
    simp only [transportHeaderSize] at inside cursor
    have room : 16 + (Bytes.writeLE 8 capacity).length ≤ (truncated capacity contents).length := by
      omega
    have file : (Op.apply (.truncate capacity) process).file = some (truncated capacity contents) := by
      change process.file.map _ = _
      rw [rests.file]
      rfl
    have file' : (run Op.apply [.truncate capacity, .setCapacity capacity,
        .pwrite (Bytes.writeLE 8 capacity) 16] process).file =
          some (Patch.write 0 (truncated capacity contents) 16 (Bytes.writeLE 8 capacity)) := by
      change (Op.apply (.truncate capacity) process).file.map _ = _
      rw [file]
      rfl
    refine ⟨⟨⟨rests.legible, ⟨_, file, longerImage⟩, ⟨_, file, longerImage⟩, ⟨_, file', told⟩⟩,
      _, file', told, ?_, (Patch.length_write 0 room).trans length, rests.cursor, rests.recorded⟩,
      rfl, not_lt.mp enough⟩
    intro index after within
    change process.cursor ≤ index at after
    rw [Patch.length_write 0 room] at within
    rw [Patch.getElem?_write 0 room, if_neg (by omega)]
    exact blank index after within

theorem Rests.write (rests : Rests owner process contents) (payload : Payload) :
    Keeps owner (write payload process) process := by
  unfold Ruby.write
  split
  · exact rests.drop
  · next fits =>
    dsimp only
    split
    · next more =>
      cases growing : Ruby.grow (align (process.cursor + transportRecordHeaderSize +
          payload.bytes.length)) process with
      | none => exact rests.drop
      | some ops =>
        obtain ⟨keeps, cursor, room⟩ := rests.grow growing
        obtain ⟨longer, rests'⟩ := keeps.2
        have same : Ruby.writeFrame payload process =
            Ruby.writeFrame payload (run Op.apply ops process) := by
          unfold Ruby.writeFrame
          rw [cursor]
        refine keeps.append ?_
        rw [same]
        exact rests'.writeFrame (not_lt.mp fits) (by rw [cursor]; exact room)
    · next room => exact rests.writeFrame (not_lt.mp fits) (not_lt.mp room)

theorem Rests.writeAll (rests : Rests owner process contents) (payloads : List Payload) :
    Keeps owner (writeAll payloads process) process := by
  induction payloads generalizing process contents with
  | nil => exact ⟨rests.legible, contents, rests⟩
  | cons payload payloads ih =>
    have keeps := rests.write payload
    obtain ⟨written, rests'⟩ := keeps.2
    exact keeps.append (ih rests')

end Writes

section Start

theorem length_header (capacity pid : Nat) : (header capacity pid).length = transportHeaderSize := by
  simp only [header, List.length_append, Bytes.length_writeLE, List.length_replicate]
  decide +kernel

theorem length_blank : (truncated transportInitialCapacity []).length = transportInitialCapacity := by
  rw [truncated, List.length_append, List.length_replicate]
  simp

theorem opened_rests (owner : Owner) : Rests owner (opened owner)
    (Patch.write 0 (truncated transportInitialCapacity []) 0
      (header transportInitialCapacity owner.pid)) := by
  have room : 0 + (header transportInitialCapacity owner.pid).length ≤
      (truncated transportInitialCapacity []).length := by
    rw [length_header, length_blank]
    decide
  have length := (Patch.length_write 0 room).trans length_blank
  have front := Patch.slice_write 0 room
  rw [length_header] at front
  have blank : Blank (Patch.write 0 (truncated transportInitialCapacity []) 0
      (header transportInitialCapacity owner.pid)) transportHeaderSize := by
    intro index after within
    rw [length] at within
    rw [Patch.getElem?_write 0 room, length_header, if_neg (by omega)]
    simp [truncated, within]
  have part {start count : Nat} (within : start + count ≤ transportHeaderSize) :
      Patch.slice (Patch.write 0 (truncated transportInitialCapacity []) 0
        (header transportInitialCapacity owner.pid)) start count =
          Patch.slice (header transportInitialCapacity owner.pid) start count := by
    rw [← front, Patch.slice_slice within, Nat.zero_add, front]
  have capacity := Patch.slice_middle (transportMagic ++ (Bytes.writeLE 4 transportVersion ++
      Bytes.writeLE 4 transportHeaderSize)) (Bytes.writeLE 8 transportInitialCapacity)
    (Bytes.writeLE 8 0 ++ (Bytes.writeLE 8 owner.pid ++ List.replicate 24 0))
  have recorded := Patch.slice_middle (transportMagic ++ (Bytes.writeLE 4 transportVersion ++
      (Bytes.writeLE 4 transportHeaderSize ++ Bytes.writeLE 8 transportInitialCapacity)))
    (Bytes.writeLE 8 0) (Bytes.writeLE 8 owner.pid ++ List.replicate 24 0)
  have pid := Patch.slice_middle (transportMagic ++ (Bytes.writeLE 4 transportVersion ++
      (Bytes.writeLE 4 transportHeaderSize ++ (Bytes.writeLE 8 transportInitialCapacity ++
        Bytes.writeLE 8 0)))) (Bytes.writeLE 8 owner.pid) (List.replicate 24 0)
  have first := Patch.slice_left (transportMagic ++ (Bytes.writeLE 4 transportVersion ++
      Bytes.writeLE 4 transportHeaderSize)) (Bytes.writeLE 8 transportInitialCapacity ++
    (Bytes.writeLE 8 0 ++ (Bytes.writeLE 8 owner.pid ++ List.replicate 24 0)))
  have magic : transportMagic.length = 8 := by decide +kernel
  simp only [List.length_append, Bytes.length_writeLE, magic, List.append_assoc]
    at first capacity recorded pid
  have image : Image owner.pid { committed := [], recorded := 0 }
      (Patch.write 0 (truncated transportInitialCapacity []) 0
        (header transportInitialCapacity owner.pid)) := {
    front := (part (by decide)).trans (by simpa only [header, List.append_assoc] using first)
    capacity := ⟨transportInitialCapacity,
      (part (by decide)).trans (by simpa only [header, List.append_assoc] using capacity),
      by decide, le_of_eq length.symm⟩
    recorded := (part (by decide)).trans (by simpa only [header, List.append_assoc] using recorded)
    recorded_lt := by decide
    pid := (part (by decide)).trans (by simpa only [header, List.append_assoc] using pid)
    fits := fun _ member => nomatch member
    held := rfl
    inside := by
      rw [length]
      decide
    small := by
      rw [length]
      decide
    ends := blank.ends }
  exact ⟨rfl, image, blank, length, rfl, rfl⟩

theorem session_legible (owner : Owner) (payloads : List Payload) :
    Throughout Op.apply (Legible owner) (writeAll payloads (opened owner)) (opened owner) :=
  ((opened_rests owner).writeAll payloads).1

theorem readEvidenceFile_of_magic (parse : List UInt8 → Outcome String Record) (name runId : String)
    (evidence : Evidence) {contents : List UInt8} (other : Patch.slice contents 0 8 ≠ transportMagic) :
    readEvidenceFile parse name runId contents evidence =
      .refused (.invalidTransport name "header or version does not match") := by
  unfold readEvidenceFile
  dsimp only
  rw [refuseIf_pos (.inr (.inl other)), refused_bind]

variable (parse : List UInt8 → Outcome String Record) (name runId : String) (evidence : Evidence)

/-- What a process leaves is read as exactly what it committed; where it left no file, it
committed nothing. -/
def ReadsCommitted (owner : Owner) (process : Process) : Prop :=
  match process.file with
  | none => process.account = { committed := [], recorded := 0 }
  | some contents => readEvidenceFile parse name runId contents evidence =
    process.account.evidence parse name runId owner.pid evidence

theorem Legible.readsCommitted {owner : Owner} {process : Process} (legible : Legible owner process) :
    ReadsCommitted parse name runId evidence owner process := by
  obtain ⟨contents, file, image⟩ := legible
  unfold ReadsCommitted
  rw [file]
  exact image.readEvidenceFile_eq parse name runId evidence

theorem not_readsCommitted_of_headerless (owner : Owner) {process : Process} {contents : List UInt8}
    (file : process.file = some contents) (headerless : ∀ byte ∈ contents, byte = 0)
    (fresh : process.account = { committed := [], recorded := 0 }) :
    ¬ ReadsCommitted parse name runId evidence owner process := by
  have other : Patch.slice contents 0 8 ≠ transportMagic := by
    intro same
    have first : (83 : UInt8) ∈ Patch.slice contents 0 8 := by
      rw [same]
      decide +kernel
    cases headerless 83 (List.mem_of_mem_drop (List.mem_of_mem_take first))
  unfold ReadsCommitted
  rw [file, fresh]
  intro read
  cases (readEvidenceFile_of_magic parse name runId evidence other).symm.trans read

/-- Whatever a Ruby process writes and wherever it ends, exactly the records it committed are
read, and what it dropped is reported: unless it ends after it created its file and before
it wrote the file's header. -/
theorem readsCommitted_iff (owner : Owner) (payloads : List Payload) (point : Nat) :
    ReadsCommitted parse name runId evidence owner (remains owner payloads point) ↔
      point = 0 ∨ (newTransport owner).length ≤ point := by
  constructor
  · intro read
    by_contra between
    have early : point = 1 ∨ point = 2 ∨ point = 3 ∨ point = 4 ∨ point = 5 := by
      simp only [newTransport, List.length_cons, List.length_nil] at between
      omega
    have blank : ∀ byte ∈ truncated transportInitialCapacity [], byte = 0 := by
      simp [truncated]
    rcases early with rfl | rfl | rfl | rfl | rfl
    · exact not_readsCommitted_of_headerless parse name runId evidence owner rfl
        (List.forall_mem_nil _) rfl read
    · exact not_readsCommitted_of_headerless parse name runId evidence owner rfl
        (List.forall_mem_nil _) rfl read
    · exact not_readsCommitted_of_headerless parse name runId evidence owner rfl blank rfl read
    · exact not_readsCommitted_of_headerless parse name runId evidence owner rfl blank rfl read
    · exact not_readsCommitted_of_headerless parse name runId evidence owner rfl blank rfl read
  · rintro (rfl | late)
    · exact rfl
    · obtain ⟨more, rfl⟩ := Nat.exists_eq_add_of_le late
      unfold remains session
      rw [List.take_length_add_append, Killed.run_append]
      exact ((session_legible owner payloads).take more).readsCommitted parse name runId evidence

/-- A process that ends as soon as its file is there leaves one that is refused. -/
theorem not_readsCommitted_created :
    ¬ ReadsCommitted (fun _ => .refused "expected value at line 1 column 1") "main.7.1-8.mmap" "run"
      {} { pid := 7, positive := by decide, pid_lt := by decide }
      (remains { pid := 7, positive := by decide, pid_lt := by decide } [] 1) := by
  exact not_readsCommitted_of_headerless _ _ _ _ _ rfl (List.forall_mem_nil _) rfl

end Start

end Supercov.Ruby
