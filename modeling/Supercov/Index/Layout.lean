import Supercov.Index.Container
import Supercov.Library.Patch
import Supercov.Index.Safety
import Supercov.Library.Pointwise

/-!
# Writing a query index

The sections are laid out behind the header in the order of their kinds, then the digests of
their pages, each from a multiple of eight on.  The file is as long as its layout from the
start on; data and digests are written into it, and last the header.

The file is what is written where no write fails: a failed write leaves no index.

The data of the sections, one after another behind the header, and then their digests: a
layout that is accepted is one row of ranges, each from a multiple of eight on.
-/

namespace Supercov.Index

open Outcome

/-- What a digest function promises. -/
structure Sha256 where
  digest : List UInt8 → List UInt8
  length_digest : ∀ bytes, (digest bytes).length = 32

structure QueryIndexSection where
  kind : Nat
  recordSize : Nat
  count : Nat
  bytes : List UInt8
  kind_lt : kind < 2 ^ 32
  recordSize_lt : recordSize < 2 ^ 32
  count_lt : count < 2 ^ 64

/-- An identity whose digests have their length, and whose numbers fit. -/
structure WrittenIdentity extends QueryIndexIdentity where
  evidence_length : evidenceSha256.length = 32
  analysis_length : analysisSha256.length = 32
  producer_length : producerSha256.length = 32
  evidenceBytes_lt : evidenceBytes < 2 ^ 64
  archiveSchemaVersion_lt : archiveSchemaVersion < 2 ^ 32

section Layout

def checkSection (seen : Finset Nat) (section' : QueryIndexSection) :
    Outcome QueryIndexError (Finset Nat) := do
  refuseIf (section'.kind = 0) (.invalidSection 0 "kind zero is reserved")
  refuseIf (section'.kind ∈ seen) (.duplicateSection section'.kind)
  if section'.recordSize > 0 then
    let records ← checkedMul section'.recordSize section'.count
    refuseIf (records ≠ section'.bytes.length) (.invalidSection section'.kind
      "record size times count does not equal section length")
    return insert section'.kind seen
  else
    return insert section'.kind seen

def nextMultipleOf8 (cursor : Nat) : Outcome QueryIndexError Nat :=
  let next := (cursor + 7) / 8 * 8
  if next < 2 ^ 64 then .ok next else .crashed

def pageCount (length : Nat) : Outcome QueryIndexError Nat :=
  let pages := divCeil length pageSize
  if pages < 2 ^ 32 then .ok pages else .crashed

abbrev Placed := List SectionDescriptor × Nat

def placeData (placed : Placed) (section' : QueryIndexSection) : Outcome QueryIndexError Placed := do
  let offset ← nextMultipleOf8 placed.2
  let stop ← Checked.add 64 offset section'.bytes.length
  let digestCount ← pageCount section'.bytes.length
  return (placed.1 ++ [{
    kind := section'.kind
    recordSize := section'.recordSize
    offset := offset
    length := section'.bytes.length
    count := section'.count
    digestsOffset := 0
    digestCount := digestCount }], stop)

def placeDigests (placed : Placed) (descriptor : SectionDescriptor) :
    Outcome QueryIndexError Placed := do
  let offset ← nextMultipleOf8 placed.2
  let length ← Checked.mul 64 descriptor.digestCount 32
  let stop ← Checked.add 64 offset length
  return (placed.1 ++ [{ descriptor with digestsOffset := offset }], stop)

def orderedByKind (sections : List QueryIndexSection) : List QueryIndexSection :=
  sections.insertionSort fun first second => first.kind ≤ second.kind

def layoutSections (sections : List QueryIndexSection) : Outcome QueryIndexError Placed := do
  refuseIf (sections.length > maxSections) (.tooManySections sections.length)
  let ordered := orderedByKind sections
  let _ ← ordered.foldlM checkSection ∅
  let (descriptors, cursor) ← ordered.foldlM placeData ([], headerSize)
  descriptors.foldlM placeDigests ([], cursor)

end Layout

section Header

def descriptorFields (offset : Nat) (descriptor : SectionDescriptor) : List (Nat × List UInt8) :=
  [(offset, Bytes.writeLE 4 descriptor.kind),
    (offset + 4, Bytes.writeLE 4 descriptor.recordSize),
    (offset + 8, Bytes.writeLE 8 descriptor.offset),
    (offset + 16, Bytes.writeLE 8 descriptor.length),
    (offset + 24, Bytes.writeLE 8 descriptor.count),
    (offset + 32, Bytes.writeLE 8 descriptor.digestsOffset),
    (offset + 40, Bytes.writeLE 4 descriptor.digestCount)]

/-- What is put into the header, where. -/
def headerFields (identity : QueryIndexIdentity) (descriptors : List SectionDescriptor)
    (totalBytes : Nat) : List (Nat × List UInt8) :=
  [(0, magic),
    (8, Bytes.writeLE 4 schemaVersion),
    (12, Bytes.writeLE 4 headerSize),
    (16, Bytes.writeLE 8 totalBytes),
    (24, Bytes.writeLE 8 identity.evidenceBytes),
    (32, Bytes.writeLE 4 identity.archiveSchemaVersion),
    (36, Bytes.writeLE 4 descriptors.length),
    (40, Bytes.writeLE 4 pageSize),
    (48, identity.evidenceSha256),
    (80, identity.analysisSha256),
    (112, identity.producerSha256)] ++
  descriptors.zipIdx.flatMap fun descriptor =>
    descriptorFields (descriptorOffset + descriptor.2 * descriptorSize) descriptor.1

def put (buffer : List UInt8) (field : Nat × List UInt8) : Outcome QueryIndexError (List UInt8) :=
  if field.1 + field.2.length ≤ buffer.length then .ok (Patch.write 0 buffer field.1 field.2)
  else .crashed

def makeHeader (sha256 : Sha256) (identity : QueryIndexIdentity)
    (descriptors : List SectionDescriptor) (totalBytes : Nat) :
    Outcome QueryIndexError (List UInt8) := do
  let header ← (headerFields identity descriptors totalBytes).foldlM put (List.replicate headerSize 0)
  let covered ← Checked.slice header 0 headerChecksumOffset
  put header (headerChecksumOffset, sha256.digest covered)

end Header

section File

/-- The pages of a section's bytes, all whole but perhaps the last. -/
def chunks (bytes : List UInt8) : List (List UInt8) :=
  (List.range (divCeil bytes.length pageSize)).map fun page =>
    Patch.slice bytes (page * pageSize) pageSize

def digests (sha256 : Sha256) (bytes : List UInt8) : List UInt8 :=
  (chunks bytes).flatMap sha256.digest

/-- The section of a kind, the last where several have it. -/
def byKind (sections : List QueryIndexSection) (kind : Nat) : Option QueryIndexSection :=
  sections.reverse.find? (·.kind = kind)

def writeSection (sha256 : Sha256) (sections : List QueryIndexSection) (file : List UInt8)
    (descriptor : SectionDescriptor) : Outcome QueryIndexError (List UInt8) :=
  match byKind sections descriptor.kind with
  | some section' =>
    let file := Patch.write 0 file descriptor.offset section'.bytes
    .ok (Patch.write 0 file descriptor.digestsOffset (digests sha256 section'.bytes))
  | none => .crashed

def writeQueryIndex (sha256 : Sha256) (sections : List QueryIndexSection)
    (identity : QueryIndexIdentity) : Outcome QueryIndexError (List UInt8) := do
  let (descriptors, totalBytes) ← layoutSections sections
  let file ← descriptors.foldlM (writeSection sha256 sections) (List.replicate totalBytes 0)
  let header ← makeHeader sha256 identity descriptors totalBytes
  return Patch.write 0 file 0 header

end File

open Outcome

/-- What a descriptor says of a section, wherever it puts it. -/
structure Describes (descriptor : SectionDescriptor) (section' : QueryIndexSection) : Prop where
  kind : descriptor.kind = section'.kind
  recordSize : descriptor.recordSize = section'.recordSize
  length : descriptor.length = section'.bytes.length
  count : descriptor.count = section'.count
  digests : descriptor.digestCount = divCeil section'.bytes.length pageSize
  few : descriptor.digestCount < 2 ^ 32

def SectionDescriptor.dataRange (descriptor : SectionDescriptor) : Nat × Nat :=
  (descriptor.offset, descriptor.offset + descriptor.length)

def SectionDescriptor.digestRange (descriptor : SectionDescriptor) : Nat × Nat :=
  (descriptor.digestsOffset, descriptor.digestsOffset + descriptor.digestCount * 32)

structure QueryIndexSection.Checked (section' : QueryIndexSection) : Prop where
  nonzero : section'.kind ≠ 0
  records : 0 < section'.recordSize → section'.recordSize * section'.count = section'.bytes.length

structure LaidOut (sections : List QueryIndexSection) (descriptors : List SectionDescriptor)
    (totalBytes : Nat) : Prop where
  few : sections.length ≤ maxSections
  checked : ∀ section' ∈ sections, section'.Checked
  distinct : (sections.map QueryIndexSection.kind).Nodup
  described : List.Forall₂ Describes descriptors (orderedByKind sections)
  laid : Patch.Laid 8 headerSize
    (descriptors.map SectionDescriptor.dataRange ++ descriptors.map SectionDescriptor.digestRange)
    totalBytes
  small : totalBytes < 2 ^ 63

section Checks

theorem checkedMul_eq_ok {a b product : Nat} (made : checkedMul a b = .ok product) : product = a * b := by
  unfold checkedMul at made
  split at made
  · exact (ok.inj made).symm
  · cases made

theorem checkSection_eq_ok {seen next : Finset Nat} {section' : QueryIndexSection}
    (passed : checkSection seen section' = .ok next) : section'.Checked ∧ section'.kind ∉ seen ∧
      next = insert section'.kind seen := by
  obtain ⟨_, nonzero, passed⟩ := bind_eq_ok.mp passed
  obtain ⟨_, fresh, passed⟩ := bind_eq_ok.mp passed
  have nonzero := refuseIf_eq_ok.mp nonzero
  have fresh := refuseIf_eq_ok.mp fresh
  split at passed
  · obtain ⟨records, made, passed⟩ := bind_eq_ok.mp passed
    obtain ⟨_, filled, passed⟩ := bind_eq_ok.mp passed
    have filled := refuseIf_eq_ok.mp filled
    rw [checkedMul_eq_ok made] at filled
    exact ⟨⟨nonzero, fun _ => not_not.mp filled⟩, fresh, (ok.inj passed).symm⟩
  · next opaque' => exact ⟨⟨nonzero, fun sized => absurd sized opaque'⟩, fresh, (ok.inj passed).symm⟩

theorem checkSections_eq_ok {sections : List QueryIndexSection} {seen result : Finset Nat}
    (passed : sections.foldlM checkSection seen = .ok result) :
    (∀ section' ∈ sections, section'.Checked ∧ section'.kind ∉ seen) ∧
      (sections.map QueryIndexSection.kind).Nodup := by
  induction sections generalizing seen with
  | nil => simp
  | cons first sections ih =>
    rw [List.foldlM_cons] at passed
    obtain ⟨next, taken, passed⟩ := bind_eq_ok.mp passed
    obtain ⟨checked, fresh, rfl⟩ := checkSection_eq_ok taken
    obtain ⟨each, distinct⟩ := ih passed
    refine ⟨List.forall_mem_cons.mpr ⟨⟨checked, fresh⟩, fun other member => ?_⟩, ?_⟩
    · obtain ⟨checked, fresh⟩ := each other member
      exact ⟨checked, fun seen => fresh (Finset.mem_insert_of_mem seen)⟩
    · refine List.nodup_cons.mpr ⟨fun among => ?_, distinct⟩
      obtain ⟨other, member, same⟩ := List.mem_map.mp among
      exact (each other member).2 (same ▸ Finset.mem_insert_self _ _)

end Checks

section Places

theorem nextMultipleOf8_eq_ok {cursor next : Nat} (moved : nextMultipleOf8 cursor = .ok next) :
    cursor ≤ next ∧ next ≤ cursor + 7 ∧ 8 ∣ next := by
  unfold nextMultipleOf8 at moved
  dsimp only at moved
  split at moved
  · cases moved
    exact ⟨by omega, by omega, Nat.dvd_mul_left ..⟩
  · cases moved

theorem pageCount_eq_ok {length pages : Nat} (counted : pageCount length = .ok pages) :
    pages = divCeil length pageSize ∧ pages < 2 ^ 32 ∧ length ≤ 2 ^ 48 := by
  unfold pageCount at counted
  dsimp only at counted
  split at counted
  · next few =>
    cases counted
    refine ⟨rfl, few, ?_⟩
    by_contra long
    have many : 2 ^ 32 < divCeil length pageSize := by
      refine (lt_divCeil_iff pageSize_pos).mpr ?_
      simp only [pageSize]
      omega
    omega
  · cases counted

theorem checked_eq_ok {bits a b result : Nat}
    (made : (Checked.add bits a b : Outcome QueryIndexError Nat) = .ok result) : result = a + b := by
  unfold Checked.add at made
  split at made
  · exact (ok.inj made).symm
  · cases made

theorem placeData_eq_ok {placed next : Placed} {section' : QueryIndexSection}
    (put : placeData placed section' = .ok next) :
    ∃ descriptor, next.1 = placed.1 ++ [descriptor] ∧ Describes descriptor section' ∧
      Patch.Laid 8 placed.2 [descriptor.dataRange] next.2 ∧ next.2 ≤ placed.2 + (2 ^ 48 + 7) := by
  obtain ⟨offset, moved, put⟩ := bind_eq_ok.mp put
  obtain ⟨stop, added, put⟩ := bind_eq_ok.mp put
  obtain ⟨pages, counted, put⟩ := bind_eq_ok.mp put
  cases put
  obtain ⟨after, close, aligned⟩ := nextMultipleOf8_eq_ok moved
  obtain ⟨rfl, few, short⟩ := pageCount_eq_ok counted
  obtain rfl := checked_eq_ok added
  refine ⟨_, rfl, ⟨rfl, rfl, rfl, rfl, rfl, few⟩, ⟨after, aligned, Nat.le_add_right .., rfl⟩, ?_⟩
  dsimp only
  omega

theorem placeData_laid {sections : List QueryIndexSection} {placed result : Placed}
    (put : sections.foldlM placeData placed = .ok result) :
    ∃ added, result.1 = placed.1 ++ added ∧ List.Forall₂ Describes added sections ∧
      Patch.Laid 8 placed.2 (added.map SectionDescriptor.dataRange) result.2 ∧
      result.2 ≤ placed.2 + sections.length * (2 ^ 48 + 7) := by
  induction sections generalizing placed with
  | nil =>
    cases put
    exact ⟨[], by simp, .nil, rfl, by simp⟩
  | cons first sections ih =>
    rw [List.foldlM_cons] at put
    obtain ⟨next, taken, put⟩ := bind_eq_ok.mp put
    obtain ⟨descriptor, kept, describes, laid, close⟩ := placeData_eq_ok taken
    obtain ⟨added, whole, described, rest, far⟩ := ih put
    refine ⟨descriptor :: added, by rw [whole, kept]; simp, .cons describes described,
      laid.append rest, ?_⟩
    rw [List.length_cons]
    omega

def Redigested (descriptor original : SectionDescriptor) : Prop :=
  ∃ offset, descriptor = { original with digestsOffset := offset }

theorem Redigested.describes {descriptor original : SectionDescriptor} {section' : QueryIndexSection}
    (same : Redigested descriptor original) (describes : Describes original section') :
    Describes descriptor section' := by
  obtain ⟨offset, rfl⟩ := same
  exact ⟨describes.kind, describes.recordSize, describes.length, describes.count, describes.digests,
    describes.few⟩

theorem Redigested.all {descriptors originals : List SectionDescriptor}
    {sections : List QueryIndexSection} (same : List.Forall₂ Redigested descriptors originals)
    (described : List.Forall₂ Describes originals sections) :
    List.Forall₂ Describes descriptors sections := by
  induction same generalizing sections with
  | nil =>
    cases described
    exact .nil
  | cons first _ ih =>
    cases described with
    | cons describes described => exact .cons (first.describes describes) (ih described)

theorem placeDigests_eq_ok {placed next : Placed} {original : SectionDescriptor}
    (few : original.digestCount < 2 ^ 32) (put : placeDigests placed original = .ok next) :
    ∃ descriptor, next.1 = placed.1 ++ [descriptor] ∧ Redigested descriptor original ∧
      Patch.Laid 8 placed.2 [descriptor.digestRange] next.2 ∧ next.2 ≤ placed.2 + (2 ^ 37 + 7) := by
  obtain ⟨offset, moved, put⟩ := bind_eq_ok.mp put
  obtain ⟨length, multiplied, put⟩ := bind_eq_ok.mp put
  obtain ⟨stop, added, put⟩ := bind_eq_ok.mp put
  cases put
  obtain ⟨after, close, aligned⟩ := nextMultipleOf8_eq_ok moved
  obtain rfl := checked_eq_ok added
  have exact' : length = original.digestCount * 32 :=
    (Checked.mul_yields (by omega)).of_ok multiplied
  subst exact'
  refine ⟨_, rfl, ⟨offset, rfl⟩, ⟨after, aligned, Nat.le_add_right .., rfl⟩, ?_⟩
  dsimp only
  omega

theorem placeDigests_laid {originals : List SectionDescriptor} {placed result : Placed}
    (few : ∀ original ∈ originals, original.digestCount < 2 ^ 32)
    (put : originals.foldlM placeDigests placed = .ok result) :
    ∃ added, result.1 = placed.1 ++ added ∧ List.Forall₂ Redigested added originals ∧
      Patch.Laid 8 placed.2 (added.map SectionDescriptor.digestRange) result.2 ∧
      result.2 ≤ placed.2 + originals.length * (2 ^ 37 + 7) := by
  induction originals generalizing placed with
  | nil =>
    cases put
    exact ⟨[], by simp, .nil, rfl, by simp⟩
  | cons first originals ih =>
    rw [List.foldlM_cons] at put
    rw [List.forall_mem_cons] at few
    obtain ⟨next, taken, put⟩ := bind_eq_ok.mp put
    obtain ⟨descriptor, kept, same, laid, close⟩ := placeDigests_eq_ok few.1 taken
    obtain ⟨added, whole, others, rest, far⟩ := ih few.2 put
    refine ⟨descriptor :: added, by rw [whole, kept]; simp, .cons same others, laid.append rest, ?_⟩
    rw [List.length_cons]
    omega

end Places

theorem orderedByKind_perm (sections : List QueryIndexSection) :
    (orderedByKind sections).Perm sections :=
  List.perm_insertionSort _ sections

theorem layoutSections_laidOut {sections : List QueryIndexSection}
    {descriptors : List SectionDescriptor} {totalBytes : Nat}
    (accepted : layoutSections sections = .ok (descriptors, totalBytes)) :
    LaidOut sections descriptors totalBytes := by
  obtain ⟨_, few, accepted⟩ := bind_eq_ok.mp accepted
  obtain ⟨seen, checks, accepted⟩ := bind_eq_ok.mp accepted
  obtain ⟨⟨originals, cursor⟩, data, accepted⟩ := bind_eq_ok.mp accepted
  have few := not_lt.mp (refuseIf_eq_ok.mp few)
  have ordered := orderedByKind_perm sections
  obtain ⟨checked, distinct⟩ := checkSections_eq_ok checks
  obtain ⟨added, whole, described, dataLaid, near⟩ := placeData_laid data
  rw [List.nil_append] at whole
  subst whole
  have fewDigests : ∀ original ∈ originals, original.digestCount < 2 ^ 32 := by
    intro original member
    obtain ⟨section', -, describes⟩ := Pointwise.exists_right described member
    exact describes.few
  obtain ⟨added, whole, same, digestsLaid, far⟩ := placeDigests_laid fewDigests accepted
  rw [List.nil_append] at whole
  subst whole
  have dataRanges : descriptors.map SectionDescriptor.dataRange =
      originals.map SectionDescriptor.dataRange := by
    refine Pointwise.map_eq same ?_
    rintro _ _ ⟨offset, rfl⟩
    rfl
  refine ⟨few, fun section' member => (checked section' (ordered.mem_iff.mpr member)).1,
    (ordered.map _).nodup_iff.mp distinct, ?_, ?_, ?_⟩
  · exact Redigested.all same described
  · rw [dataRanges]
    exact dataLaid.append digestsLaid
  · have counted := described.length_eq
    have sized := ordered.length_eq
    simp only [maxSections] at few
    simp only [headerSize] at near
    dsimp only at counted far near
    omega

end Supercov.Index
