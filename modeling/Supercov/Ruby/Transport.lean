import Supercov.Library.Bytes
import Supercov.Library.Killed
import Supercov.Library.Patch
import Supercov.Ruby.Records

/-!
# The file of a Ruby process's records

The runtime writes its records as frames into a file of its own: a frame is whole before
its first byte says so.  The reader goes from frame to frame up to one that is not.
-/

namespace Supercov.Ruby

open Outcome

def transportMagic : List UInt8 := "SCVRUBY1".toUTF8.toList
def transportVersion : Nat := 1
def transportHeaderSize : Nat := 64
def transportRecordHeaderSize : Nat := 16
def transportMaxRecordSize : Nat := 4 * 1024 * 1024
def transportInitialCapacity : Nat := 1024 * 1024
def transportMaxCapacity : Nat := 512 * 1024 * 1024

section Writer

/-- The JSON of a record: it is never empty. -/
structure Payload where
  bytes : List UInt8
  nonempty : bytes ≠ []

structure Owner where
  pid : Nat
  positive : 0 < pid
  pid_lt : pid < 2 ^ 64

/-- What the process committed, and the dropped records its file counts. -/
structure Account where
  committed : List Payload
  recorded : Nat

/-- A process that writes its records: its file, where there is one, and its memory. -/
structure Process where
  file : Option (List UInt8)
  capacity : Nat
  cursor : Nat
  dropped : Nat
  account : Account

inductive Op where
  | create
  | truncate (length : Nat)
  | pwrite (bytes : List UInt8) (offset : Nat)
  | commit (payload : Payload) (offset : Nat)
  | count (dropped : Nat)
  | setCapacity (capacity : Nat)
  | setCursor (cursor : Nat)
  | setDropped (dropped : Nat)

def truncated (length : Nat) (file : List UInt8) : List UInt8 :=
  file.take length ++ List.replicate (length - file.length) 0

def Process.change (process : Process) (change : List UInt8 → List UInt8) : Process :=
  { process with file := process.file.map change }

/-- One write, to the file or to the memory.  The account is that of the reader. -/
def Op.apply (op : Op) (process : Process) : Process :=
  match op with
  | .create => { process with file := some [] }
  | .truncate length => process.change (truncated length)
  | .pwrite bytes offset => process.change fun file => Patch.write 0 file offset bytes
  | .commit payload offset =>
    { process.change fun file => Patch.write 0 file offset [1] with
      account := { process.account with committed := process.account.committed ++ [payload] } }
  | .count dropped =>
    { process.change fun file => Patch.write 0 file 24 (Bytes.writeLE 8 dropped) with
      account := { process.account with recorded := dropped } }
  | .setCapacity capacity => { process with capacity }
  | .setCursor cursor => { process with cursor }
  | .setDropped dropped => { process with dropped }

/-- The low 32 bits of the hash after each byte. -/
def checksum (payload : List UInt8) : Nat :=
  payload.foldl (fun value byte => (value ^^^ byte.toNat) * 0x01000193 % 2 ^ 32) 0x811C9DC5

def header (capacity pid : Nat) : List UInt8 :=
  transportMagic ++ Bytes.writeLE 4 transportVersion ++ Bytes.writeLE 4 transportHeaderSize ++
    Bytes.writeLE 8 capacity ++ Bytes.writeLE 8 0 ++ Bytes.writeLE 8 pid ++ List.replicate 24 0

/-- `Transport.new`. -/
def newTransport (owner : Owner) : List Op :=
  [.create, .setCapacity transportInitialCapacity, .truncate transportInitialCapacity,
    .setCursor transportHeaderSize, .setDropped 0,
    .pwrite (header transportInitialCapacity owner.pid) 0]

/-- A frame up to its payload, not yet committed. -/
def frameHeader (payload : List UInt8) : List UInt8 :=
  [0, 0, 0, 0] ++ Bytes.writeLE 4 payload.length ++ Bytes.writeLE 4 (checksum payload) ++
    Bytes.writeLE 4 0

def align (position : Nat) : Nat := (position + 7) / 8 * 8

/-- A number of more than eight bytes is not packed. -/
def drop (process : Process) : List Op :=
  .setDropped (process.dropped + 1) ::
    if process.dropped + 1 < 2 ^ 64 then [.count (process.dropped + 1)] else []

def grownCapacity (capacity required : Nat) : Nat :=
  if _more : 0 < capacity ∧ capacity < required ∧ capacity < transportMaxCapacity then
    grownCapacity (min (capacity * 2) transportMaxCapacity) required
  else capacity
termination_by transportMaxCapacity - capacity
decreasing_by omega

def grow (required : Nat) (process : Process) : Option (List Op) :=
  let capacity := grownCapacity process.capacity required
  if capacity < required then none
  else some [.truncate capacity, .setCapacity capacity, .pwrite (Bytes.writeLE 8 capacity) 16]

def writeFrame (payload : Payload) (process : Process) : List Op :=
  let payloadEnd := process.cursor + transportRecordHeaderSize + payload.bytes.length
  let nextCursor := align payloadEnd
  [.pwrite (frameHeader payload.bytes ++ payload.bytes ++ List.replicate (nextCursor - payloadEnd) 0)
      process.cursor,
    .commit payload process.cursor,
    .setCursor nextCursor]

def write (payload : Payload) (process : Process) : List Op :=
  if payload.bytes.length > transportMaxRecordSize then drop process
  else
    let payloadEnd := process.cursor + transportRecordHeaderSize + payload.bytes.length
    let nextCursor := align payloadEnd
    if nextCursor > process.capacity then
      match grow nextCursor process with
      | none => drop process
      | some growing => growing ++ writeFrame payload process
    else writeFrame payload process

/-- Every record, one after another. -/
def writeAll : List Payload → Process → List Op
  | [], _ => []
  | payload :: payloads, process =>
    let ops := write payload process
    ops ++ writeAll payloads (Killed.run Op.apply ops process)

/-- Before its first write a process has no file. -/
def unwritten : Process where
  file := none
  capacity := 0
  cursor := 0
  dropped := 0
  account := { committed := [], recorded := 0 }

def opened (owner : Owner) : Process := Killed.run Op.apply (newTransport owner) unwritten

def session (owner : Owner) (payloads : List Payload) : List Op :=
  newTransport owner ++ writeAll payloads (opened owner)

/-- What a process leaves that ends after so many of its writes. -/
def remains (owner : Owner) (payloads : List Payload) (point : Nat) : Process :=
  Killed.run Op.apply ((session owner payloads).take point) unwritten

end Writer

section Reader

def transportU32 (bytes : List UInt8) (offset : Nat) : Option Nat :=
  if offset + 4 ≤ bytes.length then some (Bytes.readLE (Patch.slice bytes offset 4)) else none

def transportU64 (bytes : List UInt8) (offset : Nat) : Option Nat :=
  if offset + 8 ≤ bytes.length then some (Bytes.readLE (Patch.slice bytes offset 8)) else none

def transportChecksum (payload : List UInt8) : UInt32 :=
  payload.foldl (fun value byte => (value ^^^ byte.toUInt32) * 0x01000193) 0x811c9dc5

def expect {ε Value : Type} : Option Value → Outcome ε Value
  | some value => .ok value
  | none => .crashed

def okOr {ε Value : Type} (error : ε) : Option Value → Outcome ε Value
  | some value => .ok value
  | none => .refused error

def checkedAdd (offset length : Nat) : Option Nat :=
  if offset + length < 2 ^ 64 then some (offset + length) else none

def alignTransport (value : Nat) : Option Nat := (checkedAdd value 7).map fun value => value / 8 * 8

structure Frame where
  payload : List UInt8
  next : Nat

/-- The frame at the cursor, up to its payload; none where the records end. -/
def readFrame (contents : List UInt8) (cursor : Nat) : Outcome String (Option Frame) :=
  if contents.length < cursor + transportRecordHeaderSize then .ok none
  else do
    let commit ← expect contents[cursor]?
    if commit = 0 then return none
    else
      let reserved ← Checked.slice contents (cursor + 1) (cursor + 4)
      let reserved' ← Checked.slice contents (cursor + 12) (cursor + 16)
      refuseIf (commit ≠ 1 ∨ reserved ≠ [0, 0, 0] ∨ reserved' ≠ [0, 0, 0, 0])
        "commit marker or reserved bytes are invalid"
      let length ← expect (transportU32 contents (cursor + 4))
      refuseIf (length = 0 ∨ length > transportMaxRecordSize)
        "payload length is outside the transport bound"
      let payloadStart := cursor + transportRecordHeaderSize
      let payloadEnd ← okOr "payload extends past the mapped file"
        ((checkedAdd payloadStart length).filter fun stop => stop ≤ contents.length)
      let nextCursor ← okOr "aligned frame extends past the mapped file"
        ((alignTransport payloadEnd).filter fun stop => stop ≤ contents.length)
      let padding ← Checked.slice contents payloadEnd nextCursor
      refuseIf (padding.any (· ≠ 0) = true) "frame padding is not zero"
      let payload ← Checked.slice contents payloadStart payloadEnd
      let expectedChecksum ← expect (transportU32 contents (cursor + 8))
      refuseIf ((transportChecksum payload).toNat ≠ expectedChecksum) "payload checksum does not match"
      return some { payload := payload, next := nextCursor }

variable (parse : List UInt8 → Outcome String Record) (name runId : String) (transportPid : Nat)

def absorbPayload (line : Nat) (payload : List UInt8) (reading : Reading) :
    Outcome RubyEvidenceError Reading := do
  let record ← orRefuse (.invalidRecord name line) (parse payload)
  absorb name line runId transportPid record reading

theorem okOr_eq_ok {ε Value : Type} {error : ε} {option : Option Value} {value : Value} :
    okOr error option = .ok value ↔ option = some value := by
  cases option <;> simp [okOr]

theorem checkedAdd_eq_some {offset length stop : Nat} (added : checkedAdd offset length = some stop) :
    stop = offset + length := by
  unfold checkedAdd at added
  split at added
  · exact (Option.some.inj added).symm
  · cases added

theorem le_alignTransport {value stop : Nat} (aligned : alignTransport value = some stop) :
    value ≤ stop := by
  obtain ⟨raised, added, rfl⟩ := Option.map_eq_some_iff.mp aligned
  have raised_eq := checkedAdd_eq_some added
  omega

theorem readFrame_next {contents : List UInt8} {cursor : Nat} {frame : Frame}
    (taken : readFrame contents cursor = .ok (some frame)) :
    cursor < contents.length ∧ cursor < frame.next := by
  unfold readFrame at taken
  split at taken
  · cases taken
  · next room =>
    obtain ⟨commit, -, taken⟩ := bind_eq_ok.mp taken
    split at taken
    · cases taken
    · obtain ⟨_, -, taken⟩ := bind_eq_ok.mp taken
      obtain ⟨_, -, taken⟩ := bind_eq_ok.mp taken
      obtain ⟨_, -, taken⟩ := bind_eq_ok.mp taken
      obtain ⟨length, -, taken⟩ := bind_eq_ok.mp taken
      obtain ⟨_, -, taken⟩ := bind_eq_ok.mp taken
      obtain ⟨payloadEnd, ends, taken⟩ := bind_eq_ok.mp taken
      obtain ⟨nextCursor, aligned, taken⟩ := bind_eq_ok.mp taken
      obtain ⟨_, -, taken⟩ := bind_eq_ok.mp taken
      obtain ⟨_, -, taken⟩ := bind_eq_ok.mp taken
      obtain ⟨_, -, taken⟩ := bind_eq_ok.mp taken
      obtain ⟨_, -, taken⟩ := bind_eq_ok.mp taken
      obtain ⟨_, -, taken⟩ := bind_eq_ok.mp taken
      cases taken
      have after := checkedAdd_eq_some (Option.filter_eq_some_iff.mp (okOr_eq_ok.mp ends)).1
      have later := le_alignTransport (Option.filter_eq_some_iff.mp (okOr_eq_ok.mp aligned)).1
      simp only [transportRecordHeaderSize] at room after
      dsimp only
      omega

/-- Takes one record after another, up to the first frame that is not committed. -/
def readRecords (contents : List UInt8) (cursor line : Nat) (reading : Reading) :
    Outcome RubyEvidenceError Reading :=
  match taken : readFrame contents cursor with
  | .refused reason => .refused (.invalidRecord name (line + 1) reason)
  | .crashed => .crashed
  | .ok none => .ok reading
  | .ok (some frame) => do
    let reading ← absorbPayload parse name runId transportPid (line + 1) frame.payload reading
    readRecords contents frame.next (line + 1) reading
termination_by contents.length - cursor
decreasing_by
  have := readFrame_next taken
  omega

def readEvidenceFile (contents : List UInt8) (evidence : Evidence) :
    Outcome RubyEvidenceError Evidence := do
  let invalidTransport := RubyEvidenceError.invalidTransport name
  refuseIf (contents.length < transportHeaderSize ∨ Patch.slice contents 0 8 ≠ transportMagic ∨
      transportU32 contents 8 ≠ some transportVersion ∨
      transportU32 contents 12 ≠ some transportHeaderSize)
    (invalidTransport "header or version does not match")
  let declaredCapacity ← expect (transportU64 contents 16)
  refuseIf (declaredCapacity < transportHeaderSize ∨ declaredCapacity > contents.length)
    (invalidTransport "declared capacity is outside the mapped file")
  let dropped ← expect (transportU64 contents 24)
  refuseIf (dropped ≠ 0) (.droppedRecords name dropped)
  let transportPid ← expect (transportU64 contents 32)
  refuseIf (transportPid = 0) (invalidTransport "process id is missing")
  let reading ← readRecords parse name runId transportPid contents transportHeaderSize 0 { evidence }
  return reading.finish transportPid

end Reader

end Supercov.Ruby
