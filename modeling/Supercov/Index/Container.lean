import Supercov.Library.Outcome
import Supercov.Library.Bytes
import Mathlib.Data.Finset.Insert
import Mathlib.Data.List.Sort

/-!
# The query-index container

Opening an index checks its header and every section descriptor against the
mapping's length; reading it authenticates the pages it touches.  SHA-256 is a
parameter, `usize` has 64 bits, and a mapping is at most `isize::MAX` bytes long.
-/

namespace Supercov.Index

open Outcome

def schemaVersion : Nat := 5
def headerSize : Nat := 4096
@[irreducible]
def pageSize : Nat := 64 * 1024
def maxSections : Nat := 48
def magic : List UInt8 := "SCQIDX01".toUTF8.toList
def headerChecksumOffset : Nat := headerSize - 32
def descriptorOffset : Nat := 256
def descriptorSize : Nat := 64

theorem pageSize_pos : 0 < pageSize := by simp [pageSize]

structure QueryIndexIdentity where
  evidenceSha256 : List UInt8
  evidenceBytes : Nat
  analysisSha256 : List UInt8
  producerSha256 : List UInt8
  archiveSchemaVersion : Nat

structure SectionDescriptor where
  kind : Nat
  recordSize : Nat
  offset : Nat
  length : Nat
  count : Nat
  digestsOffset : Nat
  digestCount : Nat
  deriving DecidableEq, Repr

inductive QueryIndexError where
  | io (error : String)
  | notRegularFile (path : String)
  | invalidHeader (reason : String)
  | identityMismatch (field : String)
  | tooManySections (count : Nat)
  | invalidSection (kind : Nat) (reason : String)
  | duplicateSection (kind : Nat)
  | missingSection (kind : Nat)
  | outOfBounds (kind offset length : Nat)
  | corruptPage (kind page : Nat)
  | sizeOverflow
  deriving DecidableEq, Repr

structure Mmap where
  bytes : List UInt8
  length_lt : bytes.length < 2 ^ 63

def Mmap.len (mmap : Mmap) : Nat := mmap.bytes.length

def Mmap.slice (mmap : Mmap) (start stop : Nat) : Outcome QueryIndexError (List UInt8) :=
  Checked.slice mmap.bytes start stop

/-- What a path names. -/
inductive Entry where
  | unreadable (error : String)
  | notRegularFile
  | regular (mmap : Mmap)

/-- A header's fields: each lies at a fixed offset inside it. -/
structure Header where
  bytes : List UInt8
  length_eq : bytes.length = headerSize

def Header.slice (header : Header) (start stop : Nat) : Outcome QueryIndexError (List UInt8) :=
  Checked.slice header.bytes start stop

def getU32 (header : Header) (offset : Nat) : Outcome QueryIndexError Nat := do
  let stop ← Checked.add 64 offset 4
  let bytes ← header.slice offset stop
  return Bytes.readLE bytes

def getU64 (header : Header) (offset : Nat) : Outcome QueryIndexError Nat := do
  let stop ← Checked.add 64 offset 8
  let bytes ← header.slice offset stop
  return Bytes.readLE bytes

def checkedEnd (offset length : Nat) : Outcome QueryIndexError Nat :=
  if offset + length < 2 ^ 64 then .ok (offset + length) else .refused .sizeOverflow

def checkedMul (a b : Nat) : Outcome QueryIndexError Nat :=
  if a * b < 2 ^ 64 then .ok (a * b) else .refused .sizeOverflow

def divCeil (a b : Nat) : Nat := if a % b > 0 then a / b + 1 else a / b

def mappedHeader (mmap : Mmap) : Outcome QueryIndexError Header :=
  if long : headerSize ≤ mmap.bytes.length then
    .ok ⟨mmap.bytes.take headerSize, by simpa using long⟩
  else
    .refused (.invalidHeader "truncated")

/-- Every check of the header that no section takes part in. -/
def checkHeader (sha256 : List UInt8 → List UInt8) (mmap : Mmap) (expected : QueryIndexIdentity)
    (header : Header) : Outcome QueryIndexError PUnit := do
  refuseIf (header.bytes.take 8 ≠ magic) (.invalidHeader "magic")
  let version ← getU32 header 8
  refuseIf (version ≠ schemaVersion) (.invalidHeader "schema version")
  let size ← getU32 header 12
  refuseIf (size ≠ headerSize) (.invalidHeader "header size")
  let covered ← header.slice 0 headerChecksumOffset
  let checksum ← header.slice headerChecksumOffset headerSize
  refuseIf (checksum ≠ sha256 covered) (.invalidHeader "checksum")
  let total ← getU64 header 16
  refuseIf (total ≠ mmap.len) (.invalidHeader "total length")
  let page ← getU32 header 40
  refuseIf (page ≠ pageSize) (.invalidHeader "page size")
  let evidenceBytes ← getU64 header 24
  refuseIf (evidenceBytes ≠ expected.evidenceBytes) (.identityMismatch "evidence length")
  let archiveSchema ← getU32 header 32
  refuseIf (archiveSchema ≠ expected.archiveSchemaVersion) (.identityMismatch "archive schema")
  let evidence ← header.slice 48 80
  refuseIf (evidence ≠ expected.evidenceSha256) (.identityMismatch "evidence hash")
  let analysis ← header.slice 80 112
  refuseIf (analysis ≠ expected.analysisSha256) (.identityMismatch "analysis hash")
  let producer ← header.slice 112 144
  refuseIf (producer ≠ expected.producerSha256) (.identityMismatch "producer hash")

def readDescriptor (header : Header) (offset : Nat) :
    Outcome QueryIndexError SectionDescriptor := do
  let kind ← getU32 header offset
  let recordSize ← getU32 header (offset + 4)
  let start ← getU64 header (offset + 8)
  let length ← getU64 header (offset + 16)
  let count ← getU64 header (offset + 24)
  let digestsOffset ← getU64 header (offset + 32)
  let digestCount ← getU32 header (offset + 40)
  return {
    kind := kind
    recordSize := recordSize
    offset := start
    length := length
    count := count
    digestsOffset := digestsOffset
    digestCount := digestCount
  }

/-- What the loop over the descriptors has collected. -/
structure Accepted where
  descriptors : List SectionDescriptor
  kinds : Finset Nat
  ranges : List (Nat × Nat)

def checkRecordShape (descriptor : SectionDescriptor) : Outcome QueryIndexError PUnit :=
  if descriptor.recordSize > 0 then do
    let records ← checkedMul descriptor.recordSize descriptor.count
    refuseIf (records ≠ descriptor.length) (.invalidSection descriptor.kind "record shape")
  else
    .ok ⟨⟩

/-- One turn of the loop over the descriptors. -/
def acceptSection (mmap : Mmap) (header : Header) (accepted : Accepted) (index : Nat) :
    Outcome QueryIndexError Accepted := do
  let step ← Checked.mul 64 index descriptorSize
  let offset ← Checked.add 64 descriptorOffset step
  let descriptor ← readDescriptor header offset
  refuseIf (descriptor.kind = 0 ∨ descriptor.kind ∈ accepted.kinds)
    (.duplicateSection descriptor.kind)
  checkRecordShape descriptor
  refuseIf (descriptor.digestCount ≠ divCeil descriptor.length pageSize)
    (.invalidSection descriptor.kind "digest count")
  let dataEnd ← checkedEnd descriptor.offset descriptor.length
  let digestLength ← Checked.mul 64 descriptor.digestCount 32
  let digestEnd ← checkedEnd descriptor.digestsOffset digestLength
  refuseIf (descriptor.offset < headerSize ∨ dataEnd > mmap.len ∨
      descriptor.digestsOffset < headerSize ∨ digestEnd > mmap.len)
    (.invalidSection descriptor.kind "bounds")
  return {
    descriptors := accepted.descriptors ++ [descriptor]
    kinds := insert descriptor.kind accepted.kinds
    ranges := accepted.ranges ++
      [(descriptor.offset, dataEnd), (descriptor.digestsOffset, digestEnd)]
  }

/-- The order of pairs, first component first. -/
def rangeLe (a b : Nat × Nat) : Prop := a.1 < b.1 ∨ (a.1 = b.1 ∧ a.2 ≤ b.2)

instance : DecidableRel rangeLe := fun _ _ => inferInstanceAs (Decidable (_ ∨ _))

def overlapping : List (Nat × Nat) → Bool
  | first :: second :: rest => decide (first.2 > second.1) || overlapping (second :: rest)
  | _ => false

structure QueryIndex where
  mmap : Mmap
  descriptors : List SectionDescriptor

def openMapping (sha256 : List UInt8 → List UInt8) (mmap : Mmap) (expected : QueryIndexIdentity) :
    Outcome QueryIndexError QueryIndex := do
  let header ← mappedHeader mmap
  checkHeader sha256 mmap expected header
  let sectionCount ← getU32 header 36
  refuseIf (sectionCount > maxSections) (.tooManySections sectionCount)
  let accepted ← (List.range sectionCount).foldlM (acceptSection mmap header)
    { descriptors := [], kinds := ∅, ranges := [(0, headerSize)] }
  refuseIf (overlapping (accepted.ranges.insertionSort rangeLe) = true)
    (.invalidHeader "overlapping sections")
  return { mmap := mmap, descriptors := accepted.descriptors }

/-- `QueryIndex::open`. -/
def openIndex (sha256 : List UInt8 → List UInt8) (path : String) (entry : Entry)
    (expected : QueryIndexIdentity) : Outcome QueryIndexError QueryIndex :=
  match entry with
  | .unreadable error => .refused (.io error)
  | .notRegularFile => .refused (.notRegularFile path)
  | .regular mmap => openMapping sha256 mmap expected

/-- The pages found to be authentic so far: `(kind, page)`. -/
abbrev VerifiedPages := Finset (Nat × Nat)

abbrev Reading (α : Type) := Session VerifiedPages QueryIndexError α

namespace QueryIndex

variable (sha256 : List UInt8 → List UInt8) (index : QueryIndex)

def descriptor (kind : Nat) : Outcome QueryIndexError SectionDescriptor :=
  match index.descriptors.find? fun descriptor => descriptor.kind = kind with
  | some descriptor => .ok descriptor
  | none => .refused (.missingSection kind)

/-- The page's stored digest and its data's own. -/
def pageDigests (descriptor : SectionDescriptor) (page : Nat) :
    Outcome QueryIndexError (List UInt8 × List UInt8) := do
  let skipped ← Checked.mul 64 page pageSize
  let pageStart ← Checked.add 64 descriptor.offset skipped
  let sectionEnd ← Checked.add 64 descriptor.offset descriptor.length
  let fullEnd ← Checked.add 64 pageStart pageSize
  let pageEnd := min fullEnd sectionEnd
  let digestsSkipped ← Checked.mul 64 page 32
  let digestStart ← Checked.add 64 descriptor.digestsOffset digestsSkipped
  let digestEnd ← Checked.add 64 digestStart 32
  let expected ← index.mmap.slice digestStart digestEnd
  let data ← index.mmap.slice pageStart pageEnd
  return (expected, sha256 data)

def verifyPage (descriptor : SectionDescriptor) (page : Nat) : Reading PUnit :=
  Session.read fun verified =>
    if (descriptor.kind, page) ∈ verified then
      pure ⟨⟩
    else do
      let (expected, actual) ← Session.lift (index.pageDigests sha256 descriptor page)
      Session.lift (refuseIf (actual ≠ expected) (.corruptPage descriptor.kind page))
      Session.update (insert (descriptor.kind, page))

def verifyAll : Reading PUnit :=
  Session.forEach
    (fun descriptor =>
      Session.forEach (index.verifyPage sha256 descriptor) (List.range descriptor.digestCount))
    index.descriptors

/-- Authenticates the pages that hold the range, when it is not empty. -/
def verifyRange (descriptor : SectionDescriptor) (offset length stop : Nat) : Reading PUnit :=
  if length > 0 then do
    let final ← Session.lift (Checked.sub stop 1)
    let first := offset / pageSize
    let last := final / pageSize
    Session.forEach (index.verifyPage sha256 descriptor) (List.range' first (last + 1 - first))
  else
    pure ⟨⟩

def bytes (kind offset length : Nat) : Reading (List UInt8) := do
  let descriptor ← Session.lift (index.descriptor kind)
  let stop ← Session.lift (checkedEnd offset length)
  Session.lift (refuseIf (stop > descriptor.length) (.outOfBounds kind offset length))
  index.verifyRange sha256 descriptor offset length stop
  let start ← Session.lift (Checked.add 64 descriptor.offset offset)
  let stop ← Session.lift (Checked.add 64 descriptor.offset stop)
  Session.lift (index.mmap.slice start stop)

def record (kind position : Nat) : Reading (List UInt8) := do
  let descriptor ← Session.lift (index.descriptor kind)
  Session.lift (refuseIf (descriptor.recordSize = 0 ∨ position ≥ descriptor.count)
    (.outOfBounds kind position 1))
  let offset ← Session.lift (Checked.mul 64 position descriptor.recordSize)
  index.bytes sha256 kind offset descriptor.recordSize

end QueryIndex

/-- A reader's request. -/
inductive Call where
  | descriptor (kind : Nat)
  | bytes (kind offset length : Nat)
  | record (kind position : Nat)
  | verifyAll

inductive Answer where
  | descriptor (descriptor : SectionDescriptor)
  | bytes (content : List UInt8)
  | verified

namespace QueryIndex

variable (sha256 : List UInt8 → List UInt8) (index : QueryIndex)

def answer : Call → Reading Answer
  | .descriptor kind => do
    let descriptor ← Session.lift (index.descriptor kind)
    return .descriptor descriptor
  | .bytes kind offset length => do
    let content ← index.bytes sha256 kind offset length
    return .bytes content
  | .record kind position => do
    let content ← index.record sha256 kind position
    return .bytes content
  | .verifyAll => do
    index.verifyAll sha256
    return .verified

/-- The answers to a reader's requests, one after another. -/
def answers : List Call → VerifiedPages → List (Outcome QueryIndexError Answer)
  | [], _ => []
  | call :: calls, verified =>
    let (outcome, verified') := index.answer sha256 call verified
    outcome :: answers calls verified'

end QueryIndex

end Supercov.Index
