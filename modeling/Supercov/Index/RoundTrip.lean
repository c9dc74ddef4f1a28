import Supercov.Index.Reopened

/-!
# What is written to an index is read from it

Every page of a written section has its digest, so no read of it is refused: it gives the
bytes that were written, whatever was read before.
-/

namespace Supercov.Index

open Outcome

section Reads

variable {sha256 : Sha256} {mmap : Mmap} {descriptor : SectionDescriptor}
  {section' : QueryIndexSection}

theorem Holds.pageData_eq (holds : Holds sha256 mmap.bytes descriptor section') (page : Nat) :
    descriptor.pageData mmap page = Patch.slice section'.bytes (page * pageSize) pageSize := by
  unfold SectionDescriptor.pageData
  rw [Patch.drop_take_eq_slice, ← holds.data]
  refine List.ext_getElem? fun position => ?_
  simp only [Patch.getElem?_slice, Nat.add_assoc]
  by_cases within : page * pageSize + position < descriptor.length ∧ position < pageSize
  · rw [if_pos (by omega), if_pos within.2, if_pos within.1]
  · rw [if_neg (by omega)]
    split
    · rw [if_neg (by omega)]
    · rfl

theorem Holds.storedDigest_eq (holds : Holds sha256 mmap.bytes descriptor section') {page : Nat}
    (counted : page < descriptor.digestCount) :
    descriptor.storedDigest mmap page =
      sha256.digest (Patch.slice section'.bytes (page * pageSize) pageSize) := by
  have found : (chunks section'.bytes)[page]? =
      some (Patch.slice section'.bytes (page * pageSize) pageSize) := by
    rw [holds.describes.digests] at counted
    simp [chunks, counted]
  have piece : Patch.slice mmap.bytes (descriptor.digestsOffset + page * 32) 32 =
      Patch.slice (Index.digests sha256 section'.bytes) (page * 32) 32 := by
    rw [← holds.digests]
    exact (Patch.slice_slice (by omega)).symm
  unfold SectionDescriptor.storedDigest
  rw [Patch.drop_take_eq_slice, Nat.add_sub_cancel_left, piece]
  exact Patch.slice_flatMap sha256.length_digest found

theorem Holds.authentic (holds : Holds sha256 mmap.bytes descriptor section') {page : Nat}
    (counted : page < descriptor.digestCount) :
    descriptor.Authentic sha256.digest mmap page := by
  unfold SectionDescriptor.Authentic
  rw [holds.pageData_eq, holds.storedDigest_eq counted]

end Reads

namespace QueryIndex

variable {sha256 : List UInt8 → List UInt8} {index : QueryIndex} {descriptor : SectionDescriptor}

theorem verifyPage_succeeds (fits : descriptor.Fits index.mmap) {page : Nat}
    (counted : page < descriptor.digestCount)
    (authentic : descriptor.Authentic sha256 index.mmap page) :
    (index.verifyPage sha256 descriptor page).Succeeds fun _ => True := by
  apply Session.Succeeds.read
  intro verified
  by_cases known : (descriptor.kind, page) ∈ verified
  · simp only [if_pos known]
    exact Session.Succeeds.pure trivial verified
  · simp only [if_neg known]
    refine Session.Succeeds.bind_lift (pageDigests_eq fits counted) ?_ verified
    refine Session.Succeeds.bind_lift (refuseIf_neg (not_not.mpr authentic)) ?_
    exact fun verified => ⟨_, _, rfl, trivial⟩

theorem verifyRange_succeeds (fits : descriptor.Fits index.mmap)
    (authentic : ∀ page < descriptor.digestCount, descriptor.Authentic sha256 index.mmap page)
    {offset length : Nat} (inside : offset + length ≤ descriptor.length) :
    (index.verifyRange sha256 descriptor offset length (offset + length)).Succeeds
      fun _ => True := by
  unfold verifyRange
  split
  · refine Session.Succeeds.bind_lift (Checked.sub_eq_ok (by omega)) ?_
    refine Session.Succeeds.forEach fun page listed => ?_
    have counted : page < descriptor.digestCount := by
      have last : page ≤ (offset + length - 1) / pageSize := by
        have := List.mem_range'_1.mp listed
        omega
      have started := (Nat.le_div_iff_mul_le pageSize_pos).mp last
      rw [fits.digests]
      exact (lt_divCeil_iff pageSize_pos).mpr (by omega)
    exact verifyPage_succeeds fits counted (authentic page counted)
  · exact Session.Succeeds.pure trivial

theorem bytes_succeeds (fits : descriptor.Fits index.mmap) {kind : Nat}
    (known : index.descriptor kind = .ok descriptor)
    (authentic : ∀ page < descriptor.digestCount, descriptor.Authentic sha256 index.mmap page)
    {offset length : Nat} (inside : offset + length ≤ descriptor.length) :
    (index.bytes sha256 kind offset length).Succeeds
      (· = Patch.slice index.mmap.bytes (descriptor.offset + offset) length) := by
  have mapped := index.mmap.length_lt
  have dataInside := fits.dataInside
  simp only [Mmap.len] at dataInside
  have ends : checkedEnd offset length = .ok (offset + length) := if_pos (by omega)
  unfold bytes
  refine Session.Succeeds.bind_lift known ?_
  refine Session.Succeeds.bind_lift ends ?_
  refine Session.Succeeds.bind_lift (refuseIf_neg (not_lt.mpr inside)) ?_
  refine Session.Succeeds.bind (verifyRange_succeeds fits authentic inside) fun _ _ => ?_
  refine Session.Succeeds.bind_lift (Checked.add_eq_ok (by omega)) ?_
  refine Session.Succeeds.bind_lift (Checked.add_eq_ok (by omega)) fun verified => ?_
  refine ⟨_, verified, congrArg (·, verified) (Checked.slice_eq_ok (by omega) (by omega)), ?_⟩
  rw [Patch.drop_take_eq_slice]
  congr 1
  omega

theorem record_of_opaque {kind : Nat} (known : index.descriptor kind = .ok descriptor)
    (opaque' : descriptor.recordSize = 0) (position : Nat) (verified : VerifiedPages) :
    index.record sha256 kind position verified =
      (.refused (.outOfBounds kind position 1), verified) := by
  have refuses : (refuseIf (descriptor.recordSize = 0 ∨ position ≥ descriptor.count)
      (QueryIndexError.outOfBounds kind position 1)) = .refused (.outOfBounds kind position 1) :=
    refuseIf_pos (.inl opaque')
  change Session.bind (Session.lift (index.descriptor kind)) _ verified = _
  rw [known]
  change Session.bind (Session.lift (refuseIf _ _)) _ verified = _
  rw [refuses]
  rfl

/-- A section reads back as it was written, whatever was read before. -/
structure ReadsBack (sha256 : Sha256) (index : QueryIndex) (section' : QueryIndexSection) :
    Prop where
  descriptor : ∃ descriptor, index.descriptor section'.kind = .ok descriptor ∧
    descriptor.kind = section'.kind ∧ descriptor.recordSize = section'.recordSize ∧
    descriptor.count = section'.count ∧ descriptor.length = section'.bytes.length
  bytes : ∀ offset length, offset + length ≤ section'.bytes.length →
    (index.bytes sha256.digest section'.kind offset length).Succeeds
      (· = Patch.slice section'.bytes offset length)
  record : 0 < section'.recordSize → ∀ position < section'.count,
    (index.record sha256.digest section'.kind position).Succeeds
      (· = Patch.slice section'.bytes (position * section'.recordSize) section'.recordSize)

end QueryIndex

section RoundTrip

variable {sha256 : Sha256} {sections : List QueryIndexSection} {identity : WrittenIdentity}
  {descriptors : List SectionDescriptor} {mmap : Mmap}

theorem Written.descriptor_eq (written : Written sha256 sections identity descriptors mmap.bytes)
    {section' : QueryIndexSection} (member : section' ∈ sections) :
    ∃ descriptor ∈ descriptors, Holds sha256 mmap.bytes descriptor section' ∧
      (QueryIndex.mk mmap descriptors).descriptor section'.kind = .ok descriptor := by
  have among := (orderedByKind_perm sections).mem_iff.mpr member
  obtain ⟨descriptor, listed, holds⟩ := Pointwise.exists_left written.holds among
  refine ⟨descriptor, listed, holds, ?_⟩
  unfold QueryIndex.descriptor
  cases found : descriptors.find? fun other => other.kind = section'.kind with
  | none => simpa [holds.describes.kind] using List.find?_eq_none.mp found descriptor listed
  | some other =>
    have same : other.kind = section'.kind := by simpa using List.find?_some found
    have same := same.trans holds.describes.kind.symm
    rw [List.inj_on_of_nodup_map written.kinds_nodup (List.mem_of_find?_eq_some found) listed same]

theorem Written.readsBack (written : Written sha256 sections identity descriptors mmap.bytes)
    {section' : QueryIndexSection} (member : section' ∈ sections) :
    QueryIndex.ReadsBack sha256 { mmap := mmap, descriptors := descriptors } section' := by
  obtain ⟨descriptor, listed, holds, known⟩ := written.descriptor_eq member
  have describes := holds.describes
  have fits := (written.fits listed).1
  have bytes {offset length : Nat} (inside : offset + length ≤ section'.bytes.length) :
      ((QueryIndex.mk mmap descriptors).bytes sha256.digest section'.kind offset length).Succeeds
        (· = Patch.slice section'.bytes offset length) := by
    rw [← holds.data, Patch.slice_slice (by rw [describes.length]; exact inside)]
    exact QueryIndex.bytes_succeeds fits known (fun page counted => holds.authentic counted)
      (by rw [describes.length]; exact inside)
  refine ⟨⟨descriptor, known, describes.kind, describes.recordSize, describes.count,
    describes.length⟩, fun offset length inside => bytes inside, fun sized position counted => ?_⟩
  have filled := (written.laidOut.checked section' member).records sized
  have inside : position * section'.recordSize + section'.recordSize ≤ section'.bytes.length := by
    rw [← filled, ← Nat.succ_mul, Nat.mul_comm]
    exact Nat.mul_le_mul_left _ counted
  have small := mmap.length_lt
  have dataInside := fits.dataInside
  rw [describes.length] at dataInside
  simp only [Mmap.len] at dataInside
  unfold QueryIndex.record
  refine Session.Succeeds.bind_lift known ?_
  refine Session.Succeeds.bind_lift (refuseIf_neg ?_) ?_
  · rw [describes.recordSize, describes.count]
    omega
  · rw [describes.recordSize]
    refine Session.Succeeds.bind_lift (Checked.mul_eq_ok (by omega)) ?_
    exact bytes inside

structure Layout where
  sections : List QueryIndexSection
  descriptors : List SectionDescriptor
  totalBytes : Nat
  accepted : layoutSections sections = .ok (descriptors, totalBytes)

/-- The header's range, and those of the sections' data and digests. -/
def Layout.ranges (layout : Layout) : List (Nat × Nat) :=
  (0, headerSize) :: (layout.descriptors.map SectionDescriptor.dataRange ++
    layout.descriptors.map SectionDescriptor.digestRange)

/-- A file from which all that was written is read, and nothing under another identity. -/
structure RoundTrips (sha256 : Sha256) (layout : Layout) (identity : WrittenIdentity)
    (mmap : Mmap) : Prop where
  opens : ∀ path, openIndex sha256.digest path (.regular mmap) identity.toQueryIndexIdentity =
    .ok { mmap := mmap, descriptors := layout.descriptors }
  refuses : ∀ path expected, expected ≠ identity.toQueryIndexIdentity →
    ∃ field, openIndex sha256.digest path (.regular mmap) expected =
      .refused (.identityMismatch field)
  reads : ∀ section' ∈ layout.sections,
    QueryIndex.ReadsBack sha256 { mmap := mmap, descriptors := layout.descriptors } section'
  kinds : (layout.descriptors.map SectionDescriptor.kind).Perm
    (layout.sections.map QueryIndexSection.kind)
  apart : layout.ranges.Pairwise Patch.Disjoint
  inside : ∀ range ∈ layout.ranges, 8 ∣ range.1 ∧ range.1 ≤ range.2 ∧ range.2 ≤ mmap.len

/-- Sections that have a layout are written, and read back as they were. -/
theorem writeQueryIndex_roundTrips (sha256 : Sha256) (layout : Layout) (identity : WrittenIdentity) :
    ∃ mmap : Mmap,
      writeQueryIndex sha256 layout.sections identity.toQueryIndexIdentity = .ok mmap.bytes ∧
        RoundTrips sha256 layout identity mmap := by
  obtain ⟨file, wrote, -, written⟩ := writeQueryIndex_written sha256 identity layout.accepted
  have whole := written.laidOut.whole
  obtain ⟨mmap, rfl⟩ : ∃ mmap : Mmap, mmap.bytes = file := ⟨⟨file, written.laidOut.small⟩, rfl⟩
  refine ⟨mmap, wrote, ?_⟩
  exact {
    opens := written.openIndex_eq
    refuses := fun path _ other => written.openIndex_of_ne path other
    reads := fun _ member => written.readsBack member
    kinds := written.kinds_perm
    apart := whole.disjoint
    inside := fun range member => (whole.within range member).2 }

/-- One section of no records and no bytes, that counts one. -/
def countedOpaque : Layout where
  sections := [{
    kind := 1
    recordSize := 0
    count := 1
    bytes := []
    kind_lt := by decide
    recordSize_lt := by decide
    count_lt := by decide }]
  descriptors := [{
    kind := 1
    recordSize := 0
    offset := 4096
    length := 0
    count := 1
    digestsOffset := 4096
    digestCount := 0 }]
  totalBytes := 4096
  accepted := by decide +kernel

/-- A section without a record size is refused as a record at every index, below its count too. -/
theorem not_records_of_opaque :
    ¬ ∃ (sha256 : Sha256) (identity : WrittenIdentity), ∀ (layout : Layout) (mmap : Mmap),
      writeQueryIndex sha256 layout.sections identity.toQueryIndexIdentity = .ok mmap.bytes →
        ∀ path index,
          openIndex sha256.digest path (.regular mmap) identity.toQueryIndexIdentity = .ok index →
            ∀ section' ∈ layout.sections, ∀ position < section'.count,
              (index.record sha256.digest section'.kind position).Succeeds
                fun content => content =
                  Patch.slice section'.bytes (position * section'.recordSize) section'.recordSize := by
  rintro ⟨sha256, identity, reads⟩
  obtain ⟨file, wrote, -, written⟩ :=
    writeQueryIndex_written sha256 identity countedOpaque.accepted
  obtain ⟨mmap, rfl⟩ : ∃ mmap : Mmap, mmap.bytes = file := ⟨⟨file, written.laidOut.small⟩, rfl⟩
  have read := reads countedOpaque mmap wrote "" _ (written.openIndex_eq "") _
    List.mem_cons_self 0 (by decide) ∅
  obtain ⟨value, verified, ends, -⟩ := read
  have refused : (QueryIndex.mk mmap countedOpaque.descriptors).record sha256.digest 1 0 ∅ = _ :=
    QueryIndex.record_of_opaque rfl rfl 0 ∅
  cases refused.symm.trans ends

end RoundTrip

end Supercov.Index
