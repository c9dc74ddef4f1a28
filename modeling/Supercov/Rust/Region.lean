import Supercov.Library.Bytes
import Supercov.Library.JsonText
import Supercov.Library.Outcome
import Supercov.Library.Text

/-!
# Reading a region back

A region is the file a process keeps its probes in: a header, a bitmap of the pages a probe
touched, a slot for each probe, the entries of each decision and what the build said of each gate.
Combinations that found no entry are lines of the overflow file beside it.
-/

namespace Supercov.Rust

structure Slice where
  bytes : List UInt8
  holds : bytes.length < 2 ^ 63

/-- The token of an instrumentation, its own hex, which fits the sixteen bytes for it. -/
structure Token where
  bytes : List UInt8
  fits : bytes.length ≤ 16

structure RustCfgGate where
  predicate : String
  deriving DecidableEq, Repr

structure RustProbeLayout where
  hits : List String
  assertions : List String
  decisions : List String
  cfgs : List RustCfgGate
  deriving DecidableEq, Repr

inductive RustProbeObservation where
  | hit (id : String)
  | decision (id : String) (values : List (Option Bool)) (outcome : Bool)
  | assertion (id : String)
  deriving DecidableEq, Repr

structure RustProbeEntry where
  thread : Nat
  observation : RustProbeObservation
  deriving DecidableEq, Repr

inductive RustProbeReadError where
  | invalidHeader
  | invalidRecord (line : Nat)
  deriving DecidableEq, Repr

abbrev Reading := Outcome RustProbeReadError

abbrev Sequenced := Nat × RustProbeEntry

def orRefuse {Value : Type} (error : RustProbeReadError) : Option Value → Reading Value
  | some value => .ok value
  | none => .refused error

section Header

def headerSize : Nat := 128
def pageSize : Nat := 4096
def entrySize : Nat := 32

def regionMagic : List UInt8 := JsonText.utf8 "SCVRGN01".toList
def regionVersion : Nat := 1

structure RegionHeader where
  entriesPerDecision : Nat
  bodyAt : Nat
  deriving DecidableEq, Repr

def u32At (bytes : List UInt8) (offset : Nat) : Nat := Bytes.readLE ((bytes.drop offset).take 4)

/-- The header is this instrumentation's: its token and the size of every table. -/
def Heads (bytes : List UInt8) (token : Token) (layout : RustProbeLayout) : Prop :=
  headerSize ≤ bytes.length ∧
    bytes.take 8 = regionMagic ∧
    u32At bytes 8 = regionVersion ∧
    u32At bytes 12 = headerSize ∧
    u32At bytes 16 = layout.hits.length ∧
    u32At bytes 20 = layout.assertions.length ∧
    u32At bytes 24 = layout.decisions.length ∧
    u32At bytes 72 = layout.cfgs.length ∧
    (bytes.drop 56).take token.bytes.length = token.bytes

instance (bytes : List UInt8) (token : Token) (layout : RustProbeLayout) :
    Decidable (Heads bytes token layout) := by
  unfold Heads
  infer_instance

def headerOf (bytes : List UInt8) : RegionHeader where
  entriesPerDecision := u32At bytes 28
  bodyAt := u32At bytes 32

def regionHeader (bytes : List UInt8) (token : Token) (layout : RustProbeLayout) :
    Reading RegionHeader :=
  if Heads bytes token layout then .ok (headerOf bytes) else .refused .invalidHeader

theorem u32At_lt (bytes : List UInt8) (offset : Nat) : u32At bytes offset < 2 ^ 32 := by
  have short : ((bytes.drop offset).take 4).length ≤ 4 := List.length_take_le _ _
  calc u32At bytes offset < 256 ^ ((bytes.drop offset).take 4).length := Bytes.readLE_lt _
    _ ≤ 256 ^ 4 := Nat.pow_le_pow_right (by decide) short
    _ = 2 ^ 32 := rfl

/-- A header that is read bounds everything an offset is computed from. -/
structure Bounded (layout : RustProbeLayout) (header : RegionHeader) : Prop where
  hits : layout.hits.length < 2 ^ 32
  assertions : layout.assertions.length < 2 ^ 32
  decisions : layout.decisions.length < 2 ^ 32
  cfgs : layout.cfgs.length < 2 ^ 32
  entries : header.entriesPerDecision < 2 ^ 32
  body : header.bodyAt < 2 ^ 32

theorem Heads.bounded {bytes : List UInt8} {token : Token} {layout : RustProbeLayout}
    (heads : Heads bytes token layout) : Bounded layout (headerOf bytes) := by
  obtain ⟨_, _, _, _, hits, assertions, decisions, cfgs, _⟩ := heads
  exact {
    hits := hits ▸ u32At_lt _ _
    assertions := assertions ▸ u32At_lt _ _
    decisions := decisions ▸ u32At_lt _ _
    cfgs := cfgs ▸ u32At_lt _ _
    entries := u32At_lt _ _
    body := u32At_lt _ _ }

end Header

section Slots

variable (bytes : List UInt8)

/-- `bytes.get(start..stop)` -/
def get (start stop : Nat) : Option (List UInt8) :=
  if start ≤ stop ∧ stop ≤ bytes.length then some ((bytes.take stop).drop start) else none

def u64At (offset : Nat) : Reading (Option Nat) := do
  let stop ← Checked.add 64 offset 8
  return (get bytes offset stop).map Bytes.readLE

variable (bodyAt : Nat)

def touched (offset : Nat) : Reading Bool := do
  let inside ← Checked.sub offset bodyAt
  let page := inside / pageSize
  let byteAt ← Checked.add 64 headerSize (page / 8)
  return bytes[byteAt]?.any fun byte => byte.toNat &&& 1 <<< (page % 8) ≠ 0

def sequenceAndThread (value : Nat) : Nat × Nat := (value >>> 32, value &&& 0xffffffff)

def slot (offset : Nat) : Reading (Option (Nat × Nat)) := do
  if ← touched bytes bodyAt offset then
    let value ← u64At bytes offset
    return (value.filter (· ≠ 0)).map sequenceAndThread
  else
    return none

variable (tableAt : Nat) (observation : String → RustProbeObservation)

def slotRecord (probe : String × Nat) : Reading (Option Sequenced) := do
  let offset ← Checked.mul 64 probe.2 8
  let offset ← Checked.add 64 tableAt offset
  let seen ← slot bytes bodyAt offset
  return seen.map fun (sequence, thread) =>
    (sequence, { thread, observation := observation probe.1 })

def slotRecords (ids : List String) : Reading (List Sequenced) := do
  let records ← Outcome.collect (slotRecord bytes bodyAt tableAt observation) ids.zipIdx
  return records.reduceOption

end Slots

section Entries

/-- A condition's value from the two bits, or the digit, it is kept as. -/
def conditionValue : Nat → Option Bool
  | 1 => some false
  | 2 => some true
  | _ => none

def shiftRight (bits value amount : Nat) : Reading Nat :=
  if amount < bits then .ok (value >>> amount) else .crashed

def conditionAt (values index : Nat) : Reading (Option Bool) := do
  let amount ← Checked.mul 64 2 index
  let shifted ← shiftRight 128 values amount
  return conditionValue (shifted &&& 3)

def vector (values width : Nat) : Reading (List (Option Bool)) :=
  Outcome.collect (conditionAt values) (List.range width)

variable (bytes : List UInt8) (bodyAt : Nat)

def byteAt (offset : Nat) : Nat := (bytes[offset]?.getD 0).toNat

/-- The fields of an entry past its state are only read where the state says that it is whole. -/
def decisionEntry (id : String) (entryAt : Nat) : Reading (Option Sequenced) := do
  let seen ← touched bytes bodyAt entryAt
  if !seen || bytes[entryAt]? ≠ some 2 then
    return none
  let outcome := byteAt bytes (entryAt + 1) = 2
  let width := byteAt bytes (entryAt + 2)
  let values := ((get bytes (entryAt + 16) (entryAt + 32)).map Bytes.readLE).getD 0
  let first ← u64At bytes (entryAt + 8)
  match first.filter (· ≠ 0) with
  | none => return none
  | some first =>
    let (sequence, thread) := sequenceAndThread first
    let values ← vector values width
    return some (sequence, { thread, observation := .decision id values outcome })

variable (decisionsAt entriesPerDecision : Nat)

def entryRecord (id : String) (firstSlot entry : Nat) : Reading (Option Sequenced) := do
  let index ← Checked.add 64 firstSlot entry
  let offset ← Checked.mul 64 index entrySize
  let entryAt ← Checked.add 64 decisionsAt offset
  decisionEntry bytes bodyAt id entryAt

/-- A product that stays at the largest value where it would overflow. -/
def saturatingMul (bits a b : Nat) : Nat := min (a * b) (2 ^ bits - 1)

/-- The entries of each decision, of those slots the file has. -/
def decisionRecords (slots : Nat) : List (String × Nat) → Reading (List Sequenced)
  | [] => return []
  | (id, ordinal) :: rest => do
    let firstSlot := saturatingMul 64 ordinal entriesPerDecision
    if slots ≤ firstSlot then
      return []
    let here ← Outcome.collect (entryRecord bytes bodyAt decisionsAt id firstSlot)
      (List.range (min entriesPerDecision (slots - firstSlot)))
    let later ← decisionRecords slots rest
    return here.reduceOption ++ later

end Entries

section Overflow

def digitValue (error : RustProbeReadError) : Char → Reading (Option Bool)
  | '1' => .ok (some false)
  | '2' => .ok (some true)
  | '0' => .ok none
  | _ => .refused error

/-- A line of other than six fields is a record that was cut off. -/
def overflowRecord (layout : RustProbeLayout) (line : List UInt8 × Nat) : Reading (Option Sequenced) := do
  let invalid := RustProbeReadError.invalidRecord (line.2 + 1)
  let text ← orRefuse invalid (JsonText.readUtf8 line.1)
  match text.splitOn '\t' with
  | [kind, sequence, thread, ordinal, values, outcome] => do
    if kind ≠ ['D'] then
      .refused invalid
    let ordinal ← orRefuse invalid (Text.unsigned 64 ordinal)
    let id ← orRefuse invalid layout.decisions[ordinal]?
    let values ← Outcome.collect (digitValue invalid) values
    let sequence ← orRefuse invalid (Text.unsigned 64 sequence)
    let thread ← orRefuse invalid (Text.unsigned 64 thread)
    return some (sequence, { thread, observation := .decision id values (outcome = ['1']) })
  | _ => return none

def overflowRecords (layout : RustProbeLayout) (overflow : List UInt8) : Reading (List Sequenced) := do
  let lines := (overflow.splitOn 10).filter (· ≠ [])
  let records ← Outcome.collect (overflowRecord layout) lines.zipIdx
  return records.reduceOption

end Overflow

/-- The records of the region itself. -/
def regionRecords (bytes : List UInt8) (token : Token) (layout : RustProbeLayout) :
    Reading (List Sequenced) := do
  let { entriesPerDecision, bodyAt } ← regionHeader bytes token layout
  let hits ← slotRecords bytes bodyAt bodyAt .hit layout.hits
  let hitsSize ← Checked.mul 64 layout.hits.length 8
  let assertionsAt ← Checked.add 64 bodyAt hitsSize
  let assertions ← slotRecords bytes bodyAt assertionsAt .assertion layout.assertions
  let assertionsSize ← Checked.mul 64 layout.assertions.length 8
  let decisionsAt ← Checked.add 64 assertionsAt assertionsSize
  let slots := (bytes.length - decisionsAt) / entrySize
  let decisions ← decisionRecords bytes bodyAt decisionsAt entriesPerDecision slots layout.decisions.zipIdx
  return hits ++ assertions ++ decisions

def inOrder (records : List Sequenced) : List RustProbeEntry :=
  (records.mergeSort fun a b => a.1 ≤ b.1).map (·.2)

def parseRustRegion (region : Slice) (overflow : Option Slice) (token : Token)
    (layout : RustProbeLayout) : Reading (List RustProbeEntry) := do
  let records ← regionRecords region.bytes token layout
  let others ← overflowRecords layout ((overflow.map (·.bytes)).getD [])
  return inOrder (records ++ others)

/-- What a gate's byte says: bit 0 of a crate without the code, bit 1 of one with it. -/
def cfgAt (bytes : List UInt8) (cfgsAt ordinal : Nat) : Reading Nat := do
  let offset ← Checked.add 64 cfgsAt ordinal
  return byteAt bytes offset &&& 3

def parseRustRegionCfgs (region : Slice) (token : Token) (layout : RustProbeLayout) :
    Reading (List Nat) := do
  let { entriesPerDecision, bodyAt } ← regionHeader region.bytes token layout
  let hitsSize ← Checked.mul 64 layout.hits.length 8
  let assertionsAt ← Checked.add 64 bodyAt hitsSize
  let assertionsSize ← Checked.mul 64 layout.assertions.length 8
  let decisionsAt ← Checked.add 64 assertionsAt assertionsSize
  let entries ← Checked.mul 64 layout.decisions.length entriesPerDecision
  let decisionsSize ← Checked.mul 64 entries entrySize
  let cfgsAt ← Checked.add 64 decisionsAt decisionsSize
  Outcome.collect (cfgAt region.bytes cfgsAt) (List.range layout.cfgs.length)

/-!
The tables' sizes are checked against the layout, which bounds every offset but two: the shift of
a vector, by the width an entry says, and the offset of the gates, by the entries the header says.
-/

section Safe

variable {bytes : List UInt8} {bodyAt offset : Nat}

def isTouched (bytes : List UInt8) (bodyAt offset : Nat) : Bool :=
  let page := (offset - bodyAt) / pageSize
  bytes[headerSize + page / 8]?.any fun byte => byte.toNat &&& 1 <<< (page % 8) ≠ 0

theorem touched_eq (low : bodyAt ≤ offset) (high : offset < 2 ^ 63) :
    touched bytes bodyAt offset = .ok (isTouched bytes bodyAt offset) := by
  have page : headerSize + (offset - bodyAt) / pageSize / 8 < 2 ^ 64 := by
    simp only [headerSize, pageSize]
    omega
  exact Outcome.bind_of_eq_ok (Checked.sub_eq_ok low)
    (Outcome.bind_of_eq_ok (Checked.add_eq_ok page) rfl)

theorem u64At_eq (high : offset < 2 ^ 63) :
    u64At bytes offset = .ok ((get bytes offset (offset + 8)).map Bytes.readLE) := by
  have stop : offset + 8 < 2 ^ 64 := by omega
  unfold u64At
  rw [Checked.add_eq_ok stop]
  rfl

theorem slot_isOk (low : bodyAt ≤ offset) (high : offset < 2 ^ 63) :
    ∃ seen, slot bytes bodyAt offset = .ok seen := by
  unfold slot
  rw [touched_eq low high, Outcome.ok_bind]
  cases isTouched bytes bodyAt offset with
  | false => exact ⟨none, rfl⟩
  | true => exact ⟨_, Outcome.bind_of_eq_ok (u64At_eq high) rfl⟩

theorem slotRecords_isOk {tableAt : Nat} (observation : String → RustProbeObservation)
    {ids : List String} (few : ids.length < 2 ^ 32) (low : bodyAt ≤ tableAt)
    (high : tableAt < 2 ^ 40) :
    ∃ records, slotRecords bytes bodyAt tableAt observation ids = .ok records := by
  have each : ∀ probe ∈ ids.zipIdx, ∃ record,
      slotRecord bytes bodyAt tableAt observation probe = .ok record := by
    intro (id, ordinal) member
    have below : ordinal < ids.length := (List.mem_zipIdx' member).1
    obtain ⟨seen, read⟩ : ∃ seen, slot bytes bodyAt (tableAt + ordinal * 8) = .ok seen :=
      slot_isOk (by omega) (by omega)
    exact ⟨_, Outcome.bind_of_eq_ok (Checked.mul_eq_ok (by omega))
      (Outcome.bind_of_eq_ok (Checked.add_eq_ok (by omega)) (Outcome.bind_of_eq_ok read rfl))⟩
  obtain ⟨records, collected⟩ := Outcome.collect_isOk each
  exact ⟨records.reduceOption, Outcome.bind_of_eq_ok collected rfl⟩

theorem conditionAt_accepts (values index : Nat) : (conditionAt values index).Accepts := by
  refine (Checked.mul_accepts _ _ _).bind fun amount => ?_
  unfold shiftRight
  split
  · exact Outcome.Accepts.ok _
  · exact Outcome.Accepts.crashed

theorem conditionAt_eq_crashed_iff {values index : Nat} (small : index < 2 ^ 8) :
    conditionAt values index = .crashed ↔ 64 ≤ index := by
  unfold conditionAt shiftRight
  rw [Checked.mul_eq_ok (by omega), Outcome.ok_bind]
  split
  · simp only [Outcome.ok_bind, Outcome.pure_eq, reduceCtorEq, false_iff]
    omega
  · simp only [Outcome.crashed_bind, true_iff]
    omega

theorem vector_accepts (values width : Nat) : (vector values width).Accepts :=
  Outcome.Accepts.collect (conditionAt_accepts values) _

theorem vector_eq_crashed_iff {values width : Nat} (small : width < 2 ^ 8) :
    vector values width = .crashed ↔ 64 < width := by
  unfold vector
  rw [Outcome.collect_eq_crashed_iff (conditionAt_accepts values)]
  constructor
  · intro ⟨index, member, crashed⟩
    have below := List.mem_range.mp member
    have := (conditionAt_eq_crashed_iff (by omega)).mp crashed
    omega
  · intro wide
    exact ⟨64, List.mem_range.mpr wide, (conditionAt_eq_crashed_iff (by decide)).mpr le_rfl⟩

variable {entryAt : Nat}

/-- An entry a probe touched, whole and with a sequence, that says more conditions than a vector
has room for. -/
structure WideEntry (bytes : List UInt8) (bodyAt entryAt : Nat) : Prop where
  seen : isTouched bytes bodyAt entryAt = true
  whole : bytes[entryAt]? = some 2
  sequenced : ∃ first ≠ 0, (get bytes (entryAt + 8) (entryAt + 8 + 8)).map Bytes.readLE = some first
  wide : 64 < byteAt bytes (entryAt + 2)

theorem byteAt_lt (bytes : List UInt8) (offset : Nat) : byteAt bytes offset < 2 ^ 8 :=
  UInt8.toNat_lt _

theorem touched_accepts (bytes : List UInt8) (bodyAt offset : Nat) :
    (touched bytes bodyAt offset).Accepts :=
  (Checked.sub_accepts _ _).bind fun _ =>
    (Checked.add_accepts _ _ _).bind fun _ => Outcome.Accepts.ok _

theorem decisionEntry_accepts (id : String) (bytes : List UInt8) (bodyAt entryAt : Nat) :
    (decisionEntry bytes bodyAt id entryAt).Accepts := by
  refine (touched_accepts _ _ _).bind fun seen => ?_
  split
  · exact Outcome.Accepts.ok _
  · refine Outcome.Accepts.bind ((Checked.add_accepts _ _ _).bind fun _ => Outcome.Accepts.ok _)
      fun first => ?_
    split
    · exact Outcome.Accepts.ok _
    · exact (vector_accepts _ _).bind fun _ => Outcome.Accepts.ok _

theorem decisionEntry_eq_crashed_iff {id : String} (low : bodyAt ≤ entryAt)
    (high : entryAt + 8 < 2 ^ 63) :
    decisionEntry bytes bodyAt id entryAt = .crashed ↔ WideEntry bytes bodyAt entryAt := by
  unfold decisionEntry
  rw [touched_eq low (by omega), Outcome.ok_bind]
  split
  · next left =>
    simp only [Outcome.pure_eq, reduceCtorEq, false_iff]
    intro wide
    simp [wide.seen, wide.whole] at left
  · next whole =>
    obtain ⟨seen, state⟩ : isTouched bytes bodyAt entryAt = true ∧ bytes[entryAt]? = some 2 := by
      simpa using whole
    rw [u64At_eq (by omega), Outcome.ok_bind]
    split
    · next absent =>
      simp only [Outcome.pure_eq, reduceCtorEq, false_iff]
      intro ⟨_, _, ⟨first, nonzero, known⟩, _⟩
      simp [known, nonzero] at absent
    · next first known =>
      obtain ⟨known, nonzero⟩ := Option.filter_eq_some_iff.mp known
      have rest (values : List (Option Bool)) :
          (pure (Option.some ((sequenceAndThread first).1,
            { thread := (sequenceAndThread first).2
              observation := .decision id values (byteAt bytes (entryAt + 1) = 2) :
                RustProbeEntry })) : Reading (Option Sequenced)) = .crashed ↔ False := by
        simp
      rw [(vector_accepts _ _).bind_eq_crashed_iff rest, or_false,
        vector_eq_crashed_iff (byteAt_lt _ _)]
      constructor
      · intro wide
        exact ⟨seen, state, ⟨first, by simpa using nonzero, known⟩, wide⟩
      · exact WideEntry.wide

variable {decisionsAt entries slots : Nat}

theorem entryRecord_accepts (id : String) (firstSlot entry : Nat) :
    (entryRecord bytes bodyAt decisionsAt id firstSlot entry).Accepts :=
  (Checked.add_accepts _ _ _).bind fun _ => (Checked.mul_accepts _ _ _).bind fun _ =>
    (Checked.add_accepts _ _ _).bind fun _ => decisionEntry_accepts _ _ _ _

theorem entryRecord_eq (id : String) {firstSlot entry : Nat}
    (inside : decisionsAt + (firstSlot + entry) * entrySize < 2 ^ 63) :
    entryRecord bytes bodyAt decisionsAt id firstSlot entry =
      decisionEntry bytes bodyAt id (decisionsAt + (firstSlot + entry) * entrySize) := by
  have slot : firstSlot + entry ≤ (firstSlot + entry) * entrySize :=
    Nat.le_mul_of_pos_right _ (by decide)
  exact Outcome.bind_of_eq_ok (Checked.add_eq_ok (by omega))
    (Outcome.bind_of_eq_ok (Checked.mul_eq_ok (by omega))
      (Outcome.bind_of_eq_ok (Checked.add_eq_ok (by omega)) rfl))

/-- An entry of some decision, among the slots of the file, says too many conditions. -/
def AnyWide (bytes : List UInt8) (bodyAt decisionsAt entries slots : Nat) (Among : Nat → Prop) :
    Prop :=
  ∃ ordinal, Among ordinal ∧ ∃ entry < entries, ordinal * entries + entry < slots ∧
    WideEntry bytes bodyAt (decisionsAt + (ordinal * entries + entry) * entrySize)

private theorem bind_ok_eq_crashed_iff {α β : Type} {outcome : Reading α} {next : α → β} :
    (outcome >>= fun value => pure (next value)) = .crashed ↔ outcome = .crashed := by
  cases outcome <;> simp

theorem decisionRecords_accepts (ids : List (String × Nat)) :
    (decisionRecords bytes bodyAt decisionsAt entries slots ids).Accepts := by
  induction ids with
  | nil => exact Outcome.Accepts.ok _
  | cons decision ids ih =>
    unfold decisionRecords
    dsimp only
    split
    · exact Outcome.Accepts.ok _
    · exact (Outcome.Accepts.collect (entryRecord_accepts _ _) _).bind fun _ =>
        ih.bind fun _ => Outcome.Accepts.ok _

theorem decisionRecords_eq_crashed_iff {ids : List String} {start : Nat}
    (few : start + ids.length < 2 ^ 32) (narrow : entries < 2 ^ 32) (low : bodyAt ≤ decisionsAt)
    (inside : decisionsAt + slots * entrySize < 2 ^ 63) :
    decisionRecords bytes bodyAt decisionsAt entries slots (ids.zipIdx start) = .crashed ↔
      AnyWide bytes bodyAt decisionsAt entries slots
        fun ordinal => start ≤ ordinal ∧ ordinal < start + ids.length := by
  induction ids generalizing start with
  | nil =>
    simp only [List.zipIdx_nil, decisionRecords, Outcome.pure_eq, reduceCtorEq, false_iff, AnyWide]
    intro ⟨ordinal, ⟨_, _⟩, _⟩
    simp only [List.length_nil] at *
    omega
  | cons id ids ih =>
    rw [List.length_cons] at few
    have first : saturatingMul 64 start entries = start * entries := by
      have product : start * entries < 2 ^ 32 * 2 ^ 32 :=
        Nat.mul_lt_mul'' (by omega) narrow
      unfold saturatingMul
      omega
    rw [List.zipIdx_cons, decisionRecords, first]
    split
    · next spent =>
      simp only [Outcome.pure_eq, reduceCtorEq, false_iff]
      intro ⟨ordinal, ⟨later, _⟩, entry, _, among, _⟩
      have := Nat.mul_le_mul_right entries later
      omega
    · next left =>
      have later (here : List (Option Sequenced)) : (do
          let later ← decisionRecords bytes bodyAt decisionsAt entries slots (ids.zipIdx (start + 1))
          pure (here.reduceOption ++ later)) = Outcome.crashed ↔
          decisionRecords bytes bodyAt decisionsAt entries slots (ids.zipIdx (start + 1)) =
            .crashed := by
        exact bind_ok_eq_crashed_iff
      rw [(Outcome.Accepts.collect (entryRecord_accepts _ _) _).bind_eq_crashed_iff later,
        Outcome.collect_eq_crashed_iff (entryRecord_accepts _ _), ih (by omega)]
      have here {entry : Nat} (below : start * entries + entry < slots) :
          entryRecord bytes bodyAt decisionsAt id (start * entries) entry = .crashed ↔
            WideEntry bytes bodyAt (decisionsAt + (start * entries + entry) * entrySize) := by
        have whole : (start * entries + entry + 1) * entrySize ≤ slots * entrySize :=
          Nat.mul_le_mul_right _ below
        rw [Nat.succ_mul] at whole
        have size : entrySize = 32 := rfl
        rw [entryRecord_eq id (by omega), decisionEntry_eq_crashed_iff (by omega) (by omega)]
      constructor
      · rintro (⟨entry, member, crashed⟩ | ⟨ordinal, ⟨behind, below⟩, found⟩)
        · have few := List.mem_range.mp member
          have among : start * entries + entry < slots := by omega
          exact ⟨start, ⟨le_rfl, by simp⟩, entry, by omega, among, (here among).mp crashed⟩
        · exact ⟨ordinal, ⟨by omega, by simp only [List.length_cons]; omega⟩, found⟩
      · rintro ⟨ordinal, ⟨behind, below⟩, entry, narrow, among, wide⟩
        rw [List.length_cons] at below
        rcases Nat.eq_or_lt_of_le behind with rfl | behind
        · exact .inl ⟨entry, List.mem_range.mpr (by omega), (here among).mpr wide⟩
        · exact .inr ⟨ordinal, ⟨behind, by omega⟩, entry, narrow, among, wide⟩

def decisionsStart (bytes : List UInt8) (layout : RustProbeLayout) : Nat :=
  u32At bytes 32 + layout.hits.length * 8 + layout.assertions.length * 8

/-- An entry among those the file has says more conditions than a vector has room for. -/
def ShiftsPast (bytes : List UInt8) (layout : RustProbeLayout) : Prop :=
  AnyWide bytes (u32At bytes 32) (decisionsStart bytes layout) (u32At bytes 28)
    ((bytes.length - decisionsStart bytes layout) / entrySize) (· < layout.decisions.length)

theorem regionHeader_eq {bytes : List UInt8} {token : Token} {layout : RustProbeLayout}
    (heads : Heads bytes token layout) : regionHeader bytes token layout = .ok (headerOf bytes) :=
  if_pos heads

theorem regionHeader_refused {bytes : List UInt8} {token : Token} {layout : RustProbeLayout}
    (other : ¬ Heads bytes token layout) :
    regionHeader bytes token layout = .refused .invalidHeader :=
  if_neg other

variable {token : Token} {layout : RustProbeLayout}

theorem regionRecords_eq (heads : Heads bytes token layout) :
    ∃ slotted, regionRecords bytes token layout = (do
      let decisions ← decisionRecords bytes (u32At bytes 32) (decisionsStart bytes layout)
        (u32At bytes 28) ((bytes.length - decisionsStart bytes layout) / entrySize)
        layout.decisions.zipIdx
      return slotted ++ decisions) := by
  have bounded := heads.bounded
  have body : u32At bytes 32 < 2 ^ 32 := bounded.body
  have ⟨hits, assertions⟩ := And.intro bounded.hits bounded.assertions
  obtain ⟨hitRecords, hitsRead⟩ : ∃ records, slotRecords bytes (u32At bytes 32) (u32At bytes 32) .hit
      layout.hits = .ok records := slotRecords_isOk _ hits le_rfl (by omega)
  obtain ⟨assertionRecords, assertionsRead⟩ : ∃ records, slotRecords bytes (u32At bytes 32)
      (u32At bytes 32 + layout.hits.length * 8) .assertion layout.assertions = .ok records :=
    slotRecords_isOk _ assertions (Nat.le_add_right _ _) (by omega)
  refine ⟨hitRecords ++ assertionRecords, ?_⟩
  exact Outcome.bind_of_eq_ok (regionHeader_eq heads) (Outcome.bind_of_eq_ok hitsRead
    (Outcome.bind_of_eq_ok (Checked.mul_eq_ok (by omega))
    (Outcome.bind_of_eq_ok (Checked.add_eq_ok (by omega))
    (Outcome.bind_of_eq_ok assertionsRead (Outcome.bind_of_eq_ok (Checked.mul_eq_ok (by omega))
    (Outcome.bind_of_eq_ok (Checked.add_eq_ok (by omega)) rfl))))))

theorem regionRecords_refused (other : ¬ Heads bytes token layout) :
    regionRecords bytes token layout = .refused .invalidHeader := by
  unfold regionRecords
  rw [regionHeader_refused other, Outcome.refused_bind]

theorem regionRecords_eq_crashed_iff (region : Slice) :
    regionRecords region.bytes token layout = .crashed ↔
      Heads region.bytes token layout ∧ ShiftsPast region.bytes layout := by
  by_cases heads : Heads region.bytes token layout
  · obtain ⟨slotted, same⟩ := regionRecords_eq heads
    have bounded := heads.bounded
    have body : u32At region.bytes 32 < 2 ^ 32 := bounded.body
    have entries : u32At region.bytes 28 < 2 ^ 32 := bounded.entries
    have ⟨hits, assertions⟩ := And.intro bounded.hits bounded.assertions
    have decisions := bounded.decisions
    have holds := region.holds
    have inside : decisionsStart region.bytes layout +
        (region.bytes.length - decisionsStart region.bytes layout) / entrySize * entrySize < 2 ^ 63 := by
      simp only [decisionsStart, entrySize]
      omega
    rw [same, bind_ok_eq_crashed_iff, decisionRecords_eq_crashed_iff (by omega) entries
      (by simp only [decisionsStart]; omega) inside]
    simp [heads, ShiftsPast]
  · simp [regionRecords_refused heads, heads]

theorem regionRecords_isOk_iff (region : Slice) :
    (∃ records, regionRecords region.bytes token layout = .ok records) ↔
      Heads region.bytes token layout ∧ ¬ ShiftsPast region.bytes layout := by
  by_cases heads : Heads region.bytes token layout
  · have accepts : (regionRecords region.bytes token layout).Accepts := by
      obtain ⟨slotted, same⟩ := regionRecords_eq heads
      rw [same]
      exact (decisionRecords_accepts _).bind fun _ => Outcome.Accepts.ok _
    have crashes := @regionRecords_eq_crashed_iff token layout region
    rw [and_iff_right heads] at crashes ⊢
    rw [← crashes]
    cases read : regionRecords region.bytes token layout with
    | ok records => simp
    | refused error => exact absurd read (accepts error)
    | crashed => simp
  · simp [regionRecords_refused heads, heads]

def cfgsStart (bytes : List UInt8) (layout : RustProbeLayout) : Nat :=
  decisionsStart bytes layout + layout.decisions.length * u32At bytes 28 * entrySize

/-- The gates' offsets leave the sixty-four bits of one. -/
def OutgrowsOffsets (bytes : List UInt8) (layout : RustProbeLayout) : Prop :=
  2 ^ 64 ≤ cfgsStart bytes layout + (layout.cfgs.length - 1)

theorem cfgAt_eq_crashed_iff (cfgsAt : Nat) (offset : Nat) :
    cfgAt bytes cfgsAt offset = .crashed ↔ 2 ^ 64 ≤ cfgsAt + offset := by
  unfold cfgAt
  rw [bind_ok_eq_crashed_iff]
  unfold Checked.add
  split
  · simp only [reduceCtorEq, false_iff]
    omega
  · simp only [true_iff]
    omega

theorem parseRustRegionCfgs_eq (region : Slice) (heads : Heads region.bytes token layout) :
    parseRustRegionCfgs region token layout = (do
      let decisionsSize ← Checked.mul 64 (layout.decisions.length * u32At region.bytes 28) entrySize
      let cfgsAt ← Checked.add 64 (decisionsStart region.bytes layout) decisionsSize
      Outcome.collect (cfgAt region.bytes cfgsAt) (List.range layout.cfgs.length)) := by
  have bounded := heads.bounded
  have body : u32At region.bytes 32 < 2 ^ 32 := bounded.body
  have ⟨hits, assertions⟩ := And.intro bounded.hits bounded.assertions
  have product : layout.decisions.length * u32At region.bytes 28 < 2 ^ 32 * 2 ^ 32 :=
    Nat.mul_lt_mul'' bounded.decisions bounded.entries
  exact Outcome.bind_of_eq_ok (regionHeader_eq heads)
    (Outcome.bind_of_eq_ok (Checked.mul_eq_ok (by omega))
    (Outcome.bind_of_eq_ok (Checked.add_eq_ok (by omega))
    (Outcome.bind_of_eq_ok (Checked.mul_eq_ok (by omega))
    (Outcome.bind_of_eq_ok (Checked.add_eq_ok (by omega))
    (Outcome.bind_of_eq_ok (Checked.mul_eq_ok product) rfl)))))

theorem parseRustRegionCfgs_eq_crashed_iff (region : Slice) :
    parseRustRegionCfgs region token layout = .crashed ↔
      Heads region.bytes token layout ∧ OutgrowsOffsets region.bytes layout := by
  by_cases heads : Heads region.bytes token layout
  · rw [parseRustRegionCfgs_eq region heads, and_iff_right heads]
    unfold OutgrowsOffsets cfgsStart
    generalize decisionsStart region.bytes layout = start
    generalize layout.decisions.length * u32At region.bytes 28 = entries
    unfold Checked.mul
    split
    · rw [Outcome.ok_bind]
      unfold Checked.add
      split
      · next inside =>
        rw [Outcome.ok_bind, Outcome.collect_eq_crashed_iff]
        · simp only [cfgAt_eq_crashed_iff, List.mem_range]
          constructor
          · intro ⟨ordinal, few, past⟩
            omega
          · intro past
            exact ⟨layout.cfgs.length - 1, by omega, past⟩
        · intro offset
          exact (Checked.add_accepts _ _ _).bind fun _ => Outcome.Accepts.ok _
      · simp only [Outcome.crashed_bind, true_iff]
        omega
    · simp only [Outcome.crashed_bind, true_iff]
      omega
  · have refused : parseRustRegionCfgs region token layout = .refused .invalidHeader := by
      unfold parseRustRegionCfgs
      rw [regionHeader_refused heads, Outcome.refused_bind]
    simp [refused, heads]

/-- The computation ends with a value or an error. -/
private abbrev Lives {α : Type} (outcome : Reading α) : Prop := outcome.Yields fun _ => True

private theorem lives_orRefuse {α : Type} (error : RustProbeReadError) (known : Option α) :
    Lives (orRefuse error known) := by
  cases known <;> trivial

private theorem lives_collect {α β : Type} {make : α → Reading β} (each : ∀ item, Lives (make item))
    (items : List α) : Lives (Outcome.collect make items) := by
  induction items with
  | nil => trivial
  | cons item items ih =>
    exact (each item).bind fun _ _ => ih.bind fun _ _ => trivial

theorem lives_digitValue (error : RustProbeReadError) (digit : Char) :
    Lives (digitValue error digit) := by
  unfold digitValue
  split <;> trivial

theorem lives_overflowRecord (layout : RustProbeLayout) (line : List UInt8 × Nat) :
    Lives (overflowRecord layout line) := by
  refine (lives_orRefuse _ _).bind fun text _ => ?_
  split
  · split
    · trivial
    · exact (lives_orRefuse _ _).bind fun _ _ => (lives_orRefuse _ _).bind fun _ _ =>
        (lives_collect (lives_digitValue _) _).bind fun _ _ => (lives_orRefuse _ _).bind fun _ _ =>
          (lives_orRefuse _ _).bind fun _ _ => trivial
  · trivial

theorem lives_overflowRecords (layout : RustProbeLayout) (overflow : List UInt8) :
    Lives (overflowRecords layout overflow) :=
  (lives_collect (lives_overflowRecord layout) _).bind fun _ _ => trivial

theorem parseRustRegion_eq_crashed_iff (region : Slice) (overflow : Option Slice) :
    parseRustRegion region overflow token layout = .crashed ↔
      Heads region.bytes token layout ∧ ShiftsPast region.bytes layout := by
  rw [← regionRecords_eq_crashed_iff]
  unfold parseRustRegion
  cases regionRecords region.bytes token layout with
  | ok records =>
    rw [Outcome.ok_bind, bind_ok_eq_crashed_iff]
    refine iff_of_false (fun crashed => ?_) nofun
    have lives := lives_overflowRecords layout ((overflow.map (·.bytes)).getD [])
    rw [crashed] at lives
    exact lives
  | refused error => exact iff_of_false nofun nofun
  | crashed => exact iff_of_true rfl rfl

end Safe

end Supercov.Rust
