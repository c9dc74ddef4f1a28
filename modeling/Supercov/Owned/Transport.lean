import Supercov.Archive.Exact
import Supercov.Library.Codec
import Supercov.Owned.Evidence

/-!
# The transport of what a runtime saw

The reader goes over the bytes once, length by length.  What it takes is stated for a
format in which the runtimes' numbers are words: each runtime widens its own.
-/

namespace Supercov.Owned

open Archive (ByteString)
open Codec
open JsonText (utf8 readUtf8)
open Supercov.Runtime

inductive OwnedEvidenceError where
  | truncated (part : String)
  deriving DecidableEq, Repr

/-- Where the reader is; the offset never passes the end of the bytes. -/
structure Cursor where
  input : ByteString
  offset : Nat
  inside : offset ≤ input.bytes.length

namespace Cursor

abbrev Reads (α : Type) : Type := Reader Cursor OwnedEvidenceError α

def rest (cursor : Cursor) : List UInt8 := cursor.input.bytes.drop cursor.offset

/-- The bytes up to a position, where there are so many. -/
def get (stop : Nat) (part : String) : Reads (List UInt8) := fun cursor =>
  if inside : cursor.offset ≤ stop ∧ stop ≤ cursor.input.bytes.length then
    .ok ((cursor.input.bytes.take stop).drop cursor.offset,
      { cursor with offset := stop, inside := inside.2 })
  else .refused (.truncated part)

def u64FromLeBytes (slice : List UInt8) : Outcome OwnedEvidenceError Word :=
  if slice.length = 8 then .ok (BitVec.ofNat 64 (Bytes.readLE slice)) else .crashed

def u64 (part : String) : Reads Word := do
  let cursor ← StateT.get
  let stop ← StateT.lift (Checked.add 64 cursor.offset 8)
  let slice ← get stop part
  StateT.lift (u64FromLeBytes slice)

def checkedAdd (offset length : Nat) : Option Nat :=
  if offset + length < 2 ^ 64 then some (offset + length) else none

def okOr {Item : Type} (error : OwnedEvidenceError) : Option Item → Outcome OwnedEvidenceError Item
  | some item => .ok item
  | none => .refused error

def fromUtf8 (part : String) (slice : List UInt8) : Outcome OwnedEvidenceError String :=
  match readUtf8 slice with
  | some text => .ok (String.ofList text)
  | none => .refused (.truncated part)

def text (length : Nat) (part : String) : Reads String := do
  let cursor ← StateT.get
  let stop ← StateT.lift (okOr (.truncated part) (checkedAdd cursor.offset length))
  let slice ← get stop part
  StateT.lift (fromUtf8 part slice)

end Cursor

section Reading

open Cursor (Reads u64 text)

instance : LinearOrder Index where
  le_refl := BitVec.le_refl
  le_trans _ _ _ := BitVec.le_trans
  le_antisymm _ _ := BitVec.le_antisymm
  le_total := BitVec.le_total
  lt_iff_le_not_ge a b := by
    simp only [BitVec.lt_def, BitVec.le_def]
    omega
  toDecidableLE := inferInstance
  toDecidableEq := inferInstance
  toDecidableLT := inferInstance

def readText (part : String) : Reads String := do
  let length ← u64 part
  text length.toNat part

/-- That many items after their number, each added to what there is. -/
def readCounted {Item Made : Type} (part : String) (read : Reads Item)
    (step : Made → Item → Made) (made : Made) : Reads Made := do
  let count ← u64 part
  loop read step count.toNat made

def push {Item : Type} (items : List Item) (item : Item) : List Item := items ++ [item]

def pushNew (tags : List String) (tag : String) : List String :=
  if tag ∈ tags then tags else tags ++ [tag]

def readProbe : Reads (Index × BitVec 32) := do
  let index ← u64 "test probes"
  let value ← u64 "test probes"
  return (index.setWidth 32, value.setWidth 32)

def readVector : Reads PackedVector := do
  let decision ← u64 "test vectors"
  let key ← u64 "test vectors"
  return { decision := decision.setWidth 32, key := key }

def insertProbe (probes : List (Index × BitVec 32)) (hit : Index × BitVec 32) :
    List (Index × BitVec 32) :=
  Ordered.put hit.1 hit.2 probes

def readTest : Reads OwnedTestEvidence := do
  let name ← readText "test name"
  let status ← readText "test status"
  let unattributed ← u64 "test attribution"
  let runner ← readText "test runner"
  let tags ← readCounted "test tags" (readText "test tags") pushNew []
  let probes ← readCounted "test probes" readProbe insertProbe []
  let vectors ← readCounted "test vectors" readVector push []
  return { name, status, runner, tags, unattributed := unattributed ≠ 0, probes, vectors }

def readDecision : Reads (Nat × List Word) := do
  let width ← u64 "decision table"
  let keys ← readCounted "decision table" (u64 "decision table") push []
  return ((width.setWidth 8).toNat, keys)

def readTotal : Reads (BitVec 32) := do
  let total ← u64 "probe totals"
  return total.setWidth 32

def OwnedEvidence.ofTable (global : List (BitVec 32)) (tests : List OwnedTestEvidence)
    (decisions : List (Nat × List Word)) : OwnedEvidence where
  global := global
  tests := tests
  widths := decisions.map Prod.fst
  decisionVectors := decisions.map Prod.snd
  aligned := by simp

def readWhole : Reads OwnedEvidence := do
  let global ← readCounted "probe totals" readTotal push []
  let tests ← readCounted "test count" readTest push []
  let decisions ← readCounted "decision table" readDecision push []
  return .ofTable global tests decisions

/-- Reads the transport; a file that ends too early is refused. -/
def readEvidence (input : ByteString) : Outcome OwnedEvidenceError OwnedEvidence := do
  let (evidence, _) ← readWhole { input, offset := 0, inside := Nat.zero_le _ }
  return evidence

end Reading

section Format

def put (word : Word) : List UInt8 := Bytes.writeLE 8 word.toNat

def putCount (count : Nat) : List UInt8 := put (BitVec.ofNat 64 count)

def putText (text : String) : List UInt8 := putCount (utf8 text.toList).length ++ utf8 text.toList

def putAll {Item : Type} (write : Item → List UInt8) (items : List Item) : List UInt8 :=
  putCount items.length ++ items.flatMap write

/-- What a runtime holds of a test. -/
structure TestAccount where
  name : String
  status : String
  unattributed : Bool
  runner : String
  tags : List String
  probes : List (Nat × Nat)
  vectors : List (Nat × Word)
  deriving DecidableEq, Repr

/-- What a runtime holds of a run: totals, tests, and each decision's width and keys. -/
structure RunAccount where
  global : List Nat
  tests : List TestAccount
  decisions : List (Nat × List Word)
  deriving DecidableEq, Repr

variable (widen : Nat → Word)

def TestAccount.transport (test : TestAccount) : List UInt8 :=
  putText test.name ++ putText test.status ++ put (if test.unattributed then 1 else 0) ++
    putText test.runner ++ putAll putText test.tags ++
    putAll (fun hit => put (widen hit.1) ++ put (widen hit.2)) test.probes ++
    putAll (fun hit => put (widen hit.1) ++ put hit.2) test.vectors

def RunAccount.transport (run : RunAccount) : List UInt8 :=
  putAll (fun total => put (widen total)) run.global ++
    putAll (TestAccount.transport widen) run.tests ++
    putAll (fun decision => put (widen decision.1) ++ putAll put decision.2) run.decisions

/-- What a reader that drops the upper half of a number has of the test. -/
def TestAccount.evidence (test : TestAccount) : OwnedTestEvidence where
  name := test.name
  status := test.status
  runner := test.runner
  tags := test.tags.foldl pushNew []
  unattributed := test.unattributed
  probes := test.probes.foldl
    (fun probes hit => insertProbe probes ((widen hit.1).setWidth 32, (widen hit.2).setWidth 32)) []
  vectors := test.vectors.map fun hit => { decision := (widen hit.1).setWidth 32, key := hit.2 }

def RunAccount.evidence (run : RunAccount) : OwnedEvidence :=
  .ofTable (run.global.map fun total => (widen total).setWidth 32)
    (run.tests.map (TestAccount.evidence widen))
    (run.decisions.map fun decision => (((widen decision.1).setWidth 8).toNat, decision.2))

end Format

section Takes

open Cursor (rest u64 text)

theorem length_put (word : Word) : (put word).length = 8 := Bytes.length_writeLE 8 _

theorem length_putCount (count : Nat) : (putCount count).length = 8 := length_put _

theorem get_whole {cursor : Cursor} {front tail : List UInt8} (part : String)
    (held : cursor.rest = front ++ tail) :
    ∃ after : Cursor, after.rest = tail ∧
      Cursor.get (cursor.offset + front.length) part cursor = .ok (front, after) := by
  have counted := congrArg List.length held
  rw [rest, List.length_drop, List.length_append] at counted
  have inside := cursor.inside
  have stop : cursor.offset ≤ cursor.offset + front.length ∧
      cursor.offset + front.length ≤ cursor.input.bytes.length := by omega
  refine ⟨{ cursor with offset := cursor.offset + front.length, inside := stop.2 }, ?_, ?_⟩
  · rw [rest, ← List.drop_drop]
    exact (congrArg (List.drop front.length) held).trans List.drop_left
  · have slice : (cursor.input.bytes.take (cursor.offset + front.length)).drop cursor.offset = front := by
      rw [List.drop_take, Nat.add_sub_cancel_left]
      exact (congrArg (List.take front.length) held).trans List.take_left
    rw [Cursor.get, dif_pos stop, slice]

theorem get_cut {cursor : Cursor} {front : List UInt8} (part : String)
    (ahead : cursor.rest <+: front) (short : cursor.rest ≠ front) :
    Cursor.get (cursor.offset + front.length) part cursor = .refused (.truncated part) := by
  have fewer : cursor.rest.length < front.length := by
    apply lt_of_le_of_ne ahead.length_le
    intro same
    exact short (ahead.eq_of_length same)
  rw [rest, List.length_drop] at fewer
  have past : ¬ (cursor.offset ≤ cursor.offset + front.length ∧
      cursor.offset + front.length ≤ cursor.input.bytes.length) := by omega
  rw [Cursor.get, dif_neg past]

theorem u64_eq (cursor : Cursor) (part : String) :
    u64 part cursor =
      Cursor.get (cursor.offset + 8) part cursor >>= fun taken =>
        Cursor.u64FromLeBytes taken.1 >>= fun word => .ok (word, taken.2) := by
  have small := cursor.input.length_lt
  have inside := cursor.inside
  have fits : cursor.offset + 8 < 2 ^ 64 := by omega
  have added : (Checked.add 64 cursor.offset 8 : Outcome OwnedEvidenceError Nat) =
      .ok (cursor.offset + 8) := if_pos fits
  change (Checked.add 64 cursor.offset 8 >>= fun stop => _) >>= _ = _
  rw [added]
  rfl

theorem takes_u64 (part : String) (word : Word) : Takes rest (u64 part) (put word) word where
  whole := by
    intro cursor tail held
    obtain ⟨after, left, taken⟩ := get_whole part held
    rw [length_put] at taken
    refine ⟨after, left, ?_⟩
    have back : BitVec.ofNat 64 (Bytes.readLE (put word)) = word := by
      rw [put, Bytes.readLE_writeLE word.isLt, BitVec.ofNat_toNat, BitVec.setWidth_eq]
    rw [u64_eq, taken, Outcome.ok_bind, Cursor.u64FromLeBytes, if_pos (length_put word), back]
    rfl
  cut := by
    intro cursor ahead short
    have stops := get_cut part ahead short
    rw [length_put] at stops
    exact ⟨.truncated part, by rw [u64_eq, stops, Outcome.refused_bind]⟩

theorem text_eq {cursor : Cursor} {length : Nat} (part : String)
    (fits : cursor.offset + length < 2 ^ 64) :
    text length part cursor =
      Cursor.get (cursor.offset + length) part cursor >>= fun taken =>
        Cursor.fromUtf8 part taken.1 >>= fun text => .ok (text, taken.2) := by
  have added : Cursor.checkedAdd cursor.offset length = some (cursor.offset + length) := if_pos fits
  change (Cursor.okOr _ (Cursor.checkedAdd cursor.offset length) >>= fun stop => _) >>= _ = _
  rw [added]
  rfl

theorem fromUtf8_utf8 (part name : String) : Cursor.fromUtf8 part (utf8 name.toList) = .ok name := by
  rw [Cursor.fromUtf8, JsonText.readUtf8_utf8]
  exact congrArg Outcome.ok String.ofList_toList

theorem takes_text (part : String) {name : String} (short : (utf8 name.toList).length < 2 ^ 63) :
    Takes rest (text (utf8 name.toList).length part) (utf8 name.toList) name := by
  have fits (cursor : Cursor) : cursor.offset + (utf8 name.toList).length < 2 ^ 64 := by
    have small := cursor.input.length_lt
    have inside := cursor.inside
    omega
  constructor
  · intro cursor tail held
    obtain ⟨after, left, taken⟩ := get_whole part held
    refine ⟨after, left, ?_⟩
    rw [text_eq part (fits cursor), taken, Outcome.ok_bind, fromUtf8_utf8, Outcome.ok_bind]
  · intro cursor ahead short
    exact ⟨.truncated part, by rw [text_eq part (fits cursor), get_cut part ahead short,
      Outcome.refused_bind]⟩

theorem toNat_ofNat_of_lt {count : Nat} (small : count < 2 ^ 63) :
    (BitVec.ofNat 64 count).toNat = count := by
  rw [BitVec.toNat_ofNat]
  omega

theorem takes_readText (part : String) {name : String} (short : (putText name).length < 2 ^ 63) :
    Takes rest (readText part) (putText name) name := by
  rw [putText, List.length_append] at short
  have small : (utf8 name.toList).length < 2 ^ 63 := by omega
  apply (takes_u64 part _).bind
  rw [toNat_ofNat_of_lt small]
  exact takes_text part small

section Counted

variable {Item Other Made : Type} {write : Other → List UInt8} {items : List Other}

variable (write) in
theorem length_le_of_mem_flatMap {item : Other} (member : item ∈ items) :
    (write item).length ≤ (items.flatMap write).length := by
  obtain ⟨front, back, rfl⟩ := List.append_of_mem member
  simp only [List.flatMap_append, List.flatMap_cons, List.length_append]
  omega

theorem length_le_flatMap (some : ∀ item ∈ items, 0 < (write item).length) :
    items.length ≤ (items.flatMap write).length := by
  induction items with
  | nil => exact Nat.zero_le _
  | cons item items ih =>
    have first := some item List.mem_cons_self
    have others := ih fun other member => some other (List.mem_cons_of_mem _ member)
    rw [List.flatMap_cons, List.length_append, List.length_cons]
    omega

theorem takes_readCounted (part : String) {read : Cursor.Reads Item} {step : Made → Item → Made}
    {value : Other → Item} (short : (putAll write items).length < 2 ^ 63)
    (some : ∀ item ∈ items, 0 < (write item).length)
    (each : ∀ item ∈ items, (write item).length < 2 ^ 63 → Takes rest read (write item) (value item))
    (made : Made) :
    Takes rest (readCounted part read step made) (putAll write items)
      (items.foldl (fun made item => step made (value item)) made) := by
  rw [putAll, List.length_append] at short
  have fewer := length_le_flatMap some
  have small : items.length < 2 ^ 63 := by omega
  apply (takes_u64 part _).bind
  rw [toNat_ofNat_of_lt small]
  apply Takes.loop
  intro item member
  have within := length_le_of_mem_flatMap write member
  exact each item member (by omega)

theorem foldl_push (value : Other → Item) (made : List Item) :
    items.foldl (fun made item => push made (value item)) made = made ++ items.map value := by
  induction items generalizing made with
  | nil => simp
  | cons item items ih => rw [List.foldl_cons, ih, push, List.map_cons, List.append_assoc]; rfl

theorem takes_readPushed (part : String) {read : Cursor.Reads Item} {value : Other → Item}
    (short : (putAll write items).length < 2 ^ 63)
    (some : ∀ item ∈ items, 0 < (write item).length)
    (each : ∀ item ∈ items, (write item).length < 2 ^ 63 →
      Takes rest read (write item) (value item)) :
    Takes rest (readCounted part read push []) (putAll write items) (items.map value) := by
  have taken : Takes rest (readCounted part read push []) (putAll write items)
      (items.foldl (fun made item => push made (value item)) []) :=
    takes_readCounted part short some each []
  rwa [foldl_push, List.nil_append] at taken

end Counted

section Accounts

variable (widen : Nat → Word)

theorem takes_readTotal (total : Nat) :
    Takes rest readTotal (put (widen total)) ((widen total).setWidth 32) :=
  (takes_u64 _ _).bind_pure rfl

theorem takes_readProbe (hit : Nat × Nat) :
    Takes rest readProbe (put (widen hit.1) ++ put (widen hit.2))
      ((widen hit.1).setWidth 32, (widen hit.2).setWidth 32) := by
  apply (takes_u64 _ _).bind
  exact (takes_u64 _ _).bind_pure rfl

theorem takes_readVector (hit : Nat × Word) :
    Takes rest readVector (put (widen hit.1) ++ put hit.2)
      { decision := (widen hit.1).setWidth 32, key := hit.2 } := by
  apply (takes_u64 _ _).bind
  exact (takes_u64 _ _).bind_pure rfl

theorem takes_readTest {test : TestAccount} (short : (test.transport widen).length < 2 ^ 63) :
    Takes rest readTest (test.transport widen) (test.evidence widen) := by
  simp only [TestAccount.transport, List.length_append] at short
  have pair (hit : Nat × Nat) : 0 < (put (widen hit.1) ++ put (widen hit.2)).length := by
    simp [length_put]
  have vector (hit : Nat × Word) : 0 < (put (widen hit.1) ++ put hit.2).length := by
    simp [length_put]
  have tag (tag : String) : 0 < (putText tag).length := by
    simp [putText, length_putCount]
  have flag : decide ((if test.unattributed then 1 else 0 : Word) ≠ 0) = test.unattributed := by
    cases test.unattributed <;> rfl
  simp only [TestAccount.transport, List.append_assoc]
  apply (takes_readText _ (by omega)).bind
  apply (takes_readText _ (by omega)).bind
  apply (takes_u64 _ _).bind
  apply (takes_readText _ (by omega)).bind
  apply (takes_readCounted _ (by omega) (fun item _ => tag item)
    (fun item _ short => takes_readText _ short) []).bind
  apply (takes_readCounted _ (by omega) (fun item _ => pair item)
    (fun item _ _ => takes_readProbe widen item) []).bind
  apply (takes_readPushed _ (by omega) (fun item _ => vector item)
    (fun item _ _ => takes_readVector widen item)).bind_pure
  rw [flag]
  rfl

theorem takes_readDecision {decision : Nat × List Word}
    (short : (put (widen decision.1) ++ putAll put decision.2).length < 2 ^ 63) :
    Takes rest readDecision (put (widen decision.1) ++ putAll put decision.2)
      (((widen decision.1).setWidth 8).toNat, decision.2) := by
  rw [List.length_append] at short
  have some (key : Word) : 0 < (put key).length := by simp [length_put]
  have brief : (putAll put decision.2).length < 2 ^ 63 := by omega
  have keys := takes_readPushed "decision table" brief (fun item _ => some item)
    (fun item _ _ => takes_u64 "decision table" (id item))
  apply (takes_u64 _ _).bind
  rw [List.map_id] at keys
  exact keys.bind_pure rfl

theorem takes_readWhole {run : RunAccount} (short : (run.transport widen).length < 2 ^ 63) :
    Takes rest readWhole (run.transport widen) (run.evidence widen) := by
  simp only [RunAccount.transport, List.length_append] at short
  have total (total : Nat) : 0 < (put (widen total)).length := by simp [length_put]
  have test (test : TestAccount) : 0 < (test.transport widen).length := by
    simp [TestAccount.transport, putText, length_putCount]
  have decision (decision : Nat × List Word) :
      0 < (put (widen decision.1) ++ putAll put decision.2).length := by
    simp [length_put]
  simp only [RunAccount.transport, List.append_assoc]
  apply (takes_readPushed _ (by omega) (fun item _ => total item)
    (fun item _ _ => takes_readTotal widen item)).bind
  apply (takes_readPushed _ (by omega) (fun item _ => test item)
    (fun item _ short => takes_readTest widen short)).bind
  exact (takes_readPushed _ (by omega) (fun item _ => decision item)
    (fun item _ short => takes_readDecision widen short)).bind_pure rfl

end Accounts

end Takes

section Safety

open Cursor (u64 text)

theorem Safe.lift {Item : Type} {outcome : Outcome OwnedEvidenceError Item}
    (ends : outcome ≠ .crashed) : Safe (StateT.lift outcome : Cursor.Reads Item) := by
  intro cursor
  change (outcome >>= fun item => .ok (item, cursor)) ≠ _
  cases outcome with
  | ok item => exact fun crash => by cases crash
  | refused error => exact fun crash => by cases crash
  | crashed => exact absurd rfl ends

theorem get_safe (stop : Nat) (part : String) : Safe (Cursor.get stop part) := by
  intro cursor
  unfold Cursor.get
  split <;> exact fun crash => by cases crash

theorem length_of_get {cursor after : Cursor} {count : Nat} {part : String} {slice : List UInt8}
    (taken : Cursor.get (cursor.offset + count) part cursor = .ok (slice, after)) :
    slice.length = count := by
  unfold Cursor.get at taken
  split at taken
  · next inside =>
    cases taken
    rw [List.length_drop, List.length_take]
    omega
  · cases taken

theorem u64_safe (part : String) : Safe (u64 part) := by
  intro cursor
  rw [u64_eq]
  cases taken : Cursor.get (cursor.offset + 8) part cursor with
  | ok pair =>
    rw [Outcome.ok_bind, Cursor.u64FromLeBytes, if_pos (length_of_get taken)]
    exact fun crash => by cases crash
  | refused error => exact fun crash => by cases crash
  | crashed => exact absurd taken (get_safe _ _ cursor)

theorem text_safe (length : Nat) (part : String) : Safe (text length part) := by
  apply Safe.bind (fun _ crash => by cases crash)
  intro cursor
  apply Safe.bind (Safe.lift ?_)
  · intro stop
    apply (get_safe stop part).bind
    intro slice
    apply Safe.lift
    unfold Cursor.fromUtf8
    split <;> exact fun crash => by cases crash
  · cases Cursor.checkedAdd cursor.offset length <;> exact fun crash => by cases crash

theorem readText_safe (part : String) : Safe (readText part) :=
  (u64_safe part).bind fun _ => text_safe _ part

theorem readCounted_safe {Item Made : Type} (part : String) {read : Cursor.Reads Item}
    {step : Made → Item → Made} (each : Safe read) (made : Made) :
    Safe (readCounted part read step made) :=
  (u64_safe part).bind fun _ => each.loop _ made

theorem readProbe_safe : Safe readProbe :=
  (u64_safe _).bind fun _ => (u64_safe _).bind fun _ => Safe.pure _

theorem readVector_safe : Safe readVector :=
  (u64_safe _).bind fun _ => (u64_safe _).bind fun _ => Safe.pure _

theorem readTest_safe : Safe readTest := by
  apply (readText_safe _).bind
  intro name
  apply (readText_safe _).bind
  intro status
  apply (u64_safe _).bind
  intro unattributed
  apply (readText_safe _).bind
  intro runner
  apply (readCounted_safe _ (readText_safe _) _).bind
  intro tags
  apply (readCounted_safe _ readProbe_safe _).bind
  intro probes
  apply (readCounted_safe _ readVector_safe _).bind
  intro vectors
  exact Safe.pure _

theorem readDecision_safe : Safe readDecision :=
  (u64_safe _).bind fun _ => (readCounted_safe _ (u64_safe _) _).bind fun _ => Safe.pure _

theorem readTotal_safe : Safe readTotal := (u64_safe _).bind fun _ => Safe.pure _

theorem readWhole_safe : Safe readWhole := by
  apply (readCounted_safe _ readTotal_safe _).bind
  intro global
  apply (readCounted_safe _ readTest_safe _).bind
  intro tests
  apply (readCounted_safe _ readDecision_safe _).bind
  intro decisions
  exact Safe.pure _

theorem readEvidence_safe (input : ByteString) : readEvidence input ≠ .crashed := by
  rw [readEvidence]
  cases ends : readWhole { input, offset := 0, inside := Nat.zero_le _ } with
  | ok pair => exact fun crash => by cases crash
  | refused error => exact fun crash => by cases crash
  | crashed => exact absurd ends (readWhole_safe _)

end Safety

section Whole

variable {widen : Nat → Word} {run : RunAccount} {input : ByteString}

theorem readEvidence_transport (written : input.bytes = run.transport widen) :
    readEvidence input = .ok (run.evidence widen) := by
  have short : (run.transport widen).length < 2 ^ 63 := written ▸ input.length_lt
  have held : Cursor.rest { input, offset := 0, inside := Nat.zero_le _ } =
      run.transport widen ++ [] := by
    rw [Cursor.rest, List.drop_zero, written, List.append_nil]
  obtain ⟨after, _, taken⟩ := (takes_readWhole widen short).whole _ _ held
  rw [readEvidence, taken]
  rfl

theorem readEvidence_cut (short : (run.transport widen).length < 2 ^ 63)
    (ahead : input.bytes <+: run.transport widen) (proper : input.bytes ≠ run.transport widen) :
    ∃ error, readEvidence input = .refused error := by
  obtain ⟨error, stops⟩ := (takes_readWhole widen short).cut
    { input, offset := 0, inside := Nat.zero_le _ } ahead proper
  refine ⟨error, ?_⟩
  rw [readEvidence, stops]
  rfl

end Whole

end Supercov.Owned
