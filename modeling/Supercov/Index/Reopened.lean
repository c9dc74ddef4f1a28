import Supercov.Index.Written

/-!
# A written index opens again

Every check of the reader holds of a file as the writer makes it: the header's fields are
the ones that were put, each descriptor describes its section, and the ranges keep apart.
An identity that differs is refused by the first field that does.
-/

namespace Supercov.Index

open Outcome

section Fields

variable {header : Header} {offset value : Nat}

theorem header_slice_eq {start stop : Nat} (ordered : start ≤ stop) (inside : stop ≤ headerSize) :
    header.slice start stop = .ok (Patch.slice header.bytes start (stop - start)) := by
  unfold Header.slice
  rw [Checked.slice_eq_ok ordered (by rw [header.length_eq]; exact inside), Patch.drop_take_eq_slice]

theorem getU32_eq (stored : Patch.slice header.bytes offset 4 = Bytes.writeLE 4 value)
    (fits : value < 2 ^ 32) (inside : offset + 4 ≤ headerSize) : getU32 header offset = .ok value := by
  have room := inside
  simp only [headerSize] at room
  unfold getU32
  rw [Checked.add_eq_ok (by omega), ok_bind, header_slice_eq (Nat.le_add_right ..) inside,
    Nat.add_sub_cancel_left, stored, ok_bind, Bytes.readLE_writeLE (by simpa using fits)]
  rfl

theorem getU64_eq (stored : Patch.slice header.bytes offset 8 = Bytes.writeLE 8 value)
    (fits : value < 2 ^ 64) (inside : offset + 8 ≤ headerSize) : getU64 header offset = .ok value := by
  have room := inside
  simp only [headerSize] at room
  unfold getU64
  rw [Checked.add_eq_ok (by omega), ok_bind, header_slice_eq (Nat.le_add_right ..) inside,
    Nat.add_sub_cancel_left, stored, ok_bind, Bytes.readLE_writeLE (by simpa using fits)]
  rfl

end Fields

section Header

def compareIdentity (identity expected : QueryIndexIdentity) : Outcome QueryIndexError PUnit := do
  refuseIf (identity.evidenceBytes ≠ expected.evidenceBytes) (.identityMismatch "evidence length")
  refuseIf (identity.archiveSchemaVersion ≠ expected.archiveSchemaVersion)
    (.identityMismatch "archive schema")
  refuseIf (identity.evidenceSha256 ≠ expected.evidenceSha256) (.identityMismatch "evidence hash")
  refuseIf (identity.analysisSha256 ≠ expected.analysisSha256) (.identityMismatch "analysis hash")
  refuseIf (identity.producerSha256 ≠ expected.producerSha256) (.identityMismatch "producer hash")

theorem compareIdentity_self (identity : QueryIndexIdentity) :
    compareIdentity identity identity = .ok ⟨⟩ := by
  simp [compareIdentity, refuseIf]

theorem compareIdentity_of_ne {identity expected : QueryIndexIdentity} (other : expected ≠ identity) :
    ∃ field, compareIdentity identity expected = .refused (.identityMismatch field) := by
  unfold compareIdentity
  by_cases bytes : identity.evidenceBytes = expected.evidenceBytes
  · rw [refuseIf_neg (not_not.mpr bytes), ok_bind]
    by_cases schema : identity.archiveSchemaVersion = expected.archiveSchemaVersion
    · rw [refuseIf_neg (not_not.mpr schema), ok_bind]
      by_cases evidence : identity.evidenceSha256 = expected.evidenceSha256
      · rw [refuseIf_neg (not_not.mpr evidence), ok_bind]
        by_cases analysis : identity.analysisSha256 = expected.analysisSha256
        · rw [refuseIf_neg (not_not.mpr analysis), ok_bind]
          by_cases producer : identity.producerSha256 = expected.producerSha256
          · refine absurd ?_ other
            cases identity
            cases expected
            simp only at bytes schema evidence analysis producer
            subst bytes schema evidence analysis producer
            rfl
          · exact ⟨_, refuseIf_pos producer⟩
        · exact ⟨_, by rw [refuseIf_pos analysis, refused_bind]⟩
      · exact ⟨_, by rw [refuseIf_pos evidence, refused_bind]⟩
    · exact ⟨_, by rw [refuseIf_pos schema, refused_bind]⟩
  · exact ⟨_, by rw [refuseIf_pos bytes, refused_bind]⟩

variable {sha256 : Sha256} {sections : List QueryIndexSection} {identity : WrittenIdentity}
  {descriptors : List SectionDescriptor} {mmap : Mmap}

theorem Written.header_field (written : Written sha256 sections identity descriptors mmap.bytes)
    {header : Header} (front : header.bytes = mmap.bytes.take headerSize) (field : Nat × List UInt8)
    (member : field ∈ headerFields identity.toQueryIndexIdentity descriptors mmap.bytes.length) :
    Patch.slice header.bytes field.1 field.2.length = field.2 := by
  have few : descriptors.length ≤ maxSections := by
    rw [written.laidOut.described.length_eq, (orderedByKind_perm sections).length_eq]
    exact written.laidOut.few
  have ends := (headerFields_within identity mmap.bytes.length few).2 field member
  have first : header.bytes = Patch.slice mmap.bytes 0 headerSize := front
  rw [first, Patch.slice_slice (by simp only [headerChecksumOffset] at ends; omega), Nat.zero_add]
  exact written.header field member

theorem Written.getU32_eq (written : Written sha256 sections identity descriptors mmap.bytes)
    {header : Header} (front : header.bytes = mmap.bytes.take headerSize) {offset value : Nat}
    (member : (offset, Bytes.writeLE 4 value) ∈
      headerFields identity.toQueryIndexIdentity descriptors mmap.bytes.length)
    (fits : value < 2 ^ 32) (inside : offset + 4 ≤ headerSize) : getU32 header offset = .ok value := by
  have stored := written.header_field front _ member
  simp only [Bytes.length_writeLE] at stored
  exact Index.getU32_eq stored fits inside

theorem Written.getU64_eq (written : Written sha256 sections identity descriptors mmap.bytes)
    {header : Header} (front : header.bytes = mmap.bytes.take headerSize) {offset value : Nat}
    (member : (offset, Bytes.writeLE 8 value) ∈
      headerFields identity.toQueryIndexIdentity descriptors mmap.bytes.length)
    (fits : value < 2 ^ 64) (inside : offset + 8 ≤ headerSize) : getU64 header offset = .ok value := by
  have stored := written.header_field front _ member
  simp only [Bytes.length_writeLE] at stored
  exact Index.getU64_eq stored fits inside

theorem Written.slice_eq (written : Written sha256 sections identity descriptors mmap.bytes)
    {header : Header} (front : header.bytes = mmap.bytes.take headerSize) {offset : Nat}
    {bytes : List UInt8}
    (member : (offset, bytes) ∈
      headerFields identity.toQueryIndexIdentity descriptors mmap.bytes.length)
    (inside : offset + bytes.length ≤ headerSize) :
    header.slice offset (offset + bytes.length) = .ok bytes := by
  rw [header_slice_eq (Nat.le_add_right ..) inside, Nat.add_sub_cancel_left,
    written.header_field front _ member]

theorem Written.digest_eq (written : Written sha256 sections identity descriptors mmap.bytes)
    {header : Header} (front : header.bytes = mmap.bytes.take headerSize) {offset : Nat}
    {bytes : List UInt8}
    (member : (offset, bytes) ∈
      headerFields identity.toQueryIndexIdentity descriptors mmap.bytes.length)
    (length : bytes.length = 32) (inside : offset + 32 ≤ headerSize) :
    header.slice offset (offset + 32) = .ok bytes := by
  rw [← length]
  exact written.slice_eq front member (by rw [length]; exact inside)

theorem Written.checkHeader_eq (written : Written sha256 sections identity descriptors mmap.bytes)
    (expected : QueryIndexIdentity) {header : Header}
    (front : header.bytes = mmap.bytes.take headerSize) :
    checkHeader sha256.digest mmap expected header =
      compareIdentity identity.toQueryIndexIdentity expected := by
  have small := mmap.length_lt
  have magic' : header.bytes.take 8 = magic := by
    have stored := written.header_field front (0, magic) (by simp [headerFields])
    rwa [length_magic] at stored
  have version : getU32 header 8 = .ok schemaVersion :=
    written.getU32_eq front (by simp [headerFields]) (by decide) (by decide)
  have size : getU32 header 12 = .ok headerSize :=
    written.getU32_eq front (by simp [headerFields]) (by decide) (by decide)
  have total : getU64 header 16 = .ok mmap.len :=
    written.getU64_eq front (by simp [headerFields, Mmap.len]) (by simp only [Mmap.len]; omega)
      (by decide)
  have page : getU32 header 40 = .ok pageSize :=
    written.getU32_eq front (by simp [headerFields]) (by simp [pageSize]) (by decide)
  have evidenceBytes : getU64 header 24 = .ok identity.evidenceBytes :=
    written.getU64_eq front (by simp [headerFields]) identity.evidenceBytes_lt (by decide)
  have schema : getU32 header 32 = .ok identity.archiveSchemaVersion :=
    written.getU32_eq front (by simp [headerFields]) identity.archiveSchemaVersion_lt (by decide)
  have evidence : header.slice 48 80 = .ok identity.evidenceSha256 :=
    written.digest_eq front (by simp [headerFields]) identity.evidence_length (by decide)
  have analysis : header.slice 80 112 = .ok identity.analysisSha256 :=
    written.digest_eq front (by simp [headerFields]) identity.analysis_length (by decide)
  have producer : header.slice 112 144 = .ok identity.producerSha256 :=
    written.digest_eq front (by simp [headerFields]) identity.producer_length (by decide)
  have first : header.bytes = Patch.slice mmap.bytes 0 headerSize := front
  have covered : header.slice 0 headerChecksumOffset =
      .ok (Patch.slice mmap.bytes 0 headerChecksumOffset) := by
    rw [header_slice_eq (Nat.zero_le _) (by decide), first, Patch.slice_slice (by decide)]
    rfl
  have checksum : header.slice headerChecksumOffset headerSize =
      .ok (sha256.digest (Patch.slice mmap.bytes 0 headerChecksumOffset)) := by
    rw [header_slice_eq (by decide) (by decide), first, Patch.slice_slice (by decide), Nat.zero_add,
      ← written.checksum]
    rfl
  simp only [checkHeader, version, size, total, page, evidenceBytes, schema, evidence, analysis,
    producer, covered, checksum, magic', ok_bind, compareIdentity,
    refuseIf_neg (not_not.mpr rfl)]

end Header

section Sections

variable {sha256 : Sha256} {sections : List QueryIndexSection} {identity : WrittenIdentity}
  {descriptors : List SectionDescriptor} {mmap : Mmap}

theorem Written.fits (written : Written sha256 sections identity descriptors mmap.bytes)
    {descriptor : SectionDescriptor} (member : descriptor ∈ descriptors) :
    descriptor.Fits mmap ∧ headerSize ≤ descriptor.digestsOffset := by
  obtain ⟨section', among, describes⟩ := Pointwise.exists_right written.laidOut.described member
  have checked := written.laidOut.checked section' ((orderedByKind_perm sections).mem_iff.mp among)
  have data := written.laidOut.laid.within _
    (List.mem_append_left _ (List.mem_map_of_mem (f := SectionDescriptor.dataRange) member))
  have digested := written.laidOut.laid.within _
    (List.mem_append_right _ (List.mem_map_of_mem (f := SectionDescriptor.digestRange) member))
  refine ⟨⟨fun sized => ?_, ?_, data.1, data.2.2.2, digested.2.2.2⟩, digested.1⟩
  · rw [describes.recordSize, describes.count, describes.length]
    exact checked.records (describes.recordSize ▸ sized)
  · rw [describes.digests, describes.length]

theorem Written.readDescriptor_eq (written : Written sha256 sections identity descriptors mmap.bytes)
    {header : Header} (front : header.bytes = mmap.bytes.take headerSize) {index : Nat}
    {descriptor : SectionDescriptor} (found : descriptors[index]? = some descriptor) :
    readDescriptor header (descriptorOffset + index * descriptorSize) = .ok descriptor := by
  have member := List.mem_of_getElem? found
  obtain ⟨section', among, describes⟩ := Pointwise.exists_right written.laidOut.described member
  have fits := (written.fits member).1
  have small := mmap.length_lt
  have dataInside := fits.dataInside
  have digestsInside := fits.digestsInside
  simp only [Mmap.len] at dataInside digestsInside
  have few : index < maxSections := by
    have within := (List.getElem?_eq_some_iff.mp found).1
    rw [written.laidOut.described.length_eq, (orderedByKind_perm sections).length_eq] at within
    exact lt_of_lt_of_le within written.laidOut.few
  have put {field : Nat × List UInt8}
      (member : field ∈ descriptorFields (descriptorOffset + index * descriptorSize) descriptor) :
      field ∈ headerFields identity.toQueryIndexIdentity descriptors mmap.bytes.length := by
    refine List.mem_append_right _ (List.mem_flatMap.mpr ⟨(descriptor, index), ?_, member⟩)
    simpa [List.mem_zipIdx_iff_getElem?] using found
  have kindFits := describes.kind ▸ section'.kind_lt
  have recordFits := describes.recordSize ▸ section'.recordSize_lt
  have countFits := describes.count ▸ section'.count_lt
  simp only [maxSections] at few
  generalize placed : descriptorOffset + index * descriptorSize = offset at *
  have room : offset + 44 ≤ headerSize := by
    simp only [descriptorOffset, descriptorSize] at placed
    simp only [headerSize]
    omega
  have kind : getU32 header offset = .ok descriptor.kind :=
    written.getU32_eq front (put (by simp [descriptorFields])) kindFits (by omega)
  have recordSize : getU32 header (offset + 4) = .ok descriptor.recordSize :=
    written.getU32_eq front (put (by simp [descriptorFields])) recordFits (by omega)
  have start : getU64 header (offset + 8) = .ok descriptor.offset :=
    written.getU64_eq front (put (by simp [descriptorFields])) (by omega) (by omega)
  have length : getU64 header (offset + 16) = .ok descriptor.length :=
    written.getU64_eq front (put (by simp [descriptorFields])) (by omega) (by omega)
  have count : getU64 header (offset + 24) = .ok descriptor.count :=
    written.getU64_eq front (put (by simp [descriptorFields])) countFits (by omega)
  have digestsOffset : getU64 header (offset + 32) = .ok descriptor.digestsOffset :=
    written.getU64_eq front (put (by simp [descriptorFields])) (by omega) (by omega)
  have digestCount : getU32 header (offset + 40) = .ok descriptor.digestCount :=
    written.getU32_eq front (put (by simp [descriptorFields])) describes.few (by omega)
  simp only [readDescriptor, kind, recordSize, start, length, count, digestsOffset, digestCount,
    ok_bind]
  rfl

theorem checkRecordShape_eq {descriptor : SectionDescriptor} (fits : descriptor.Fits mmap) :
    checkRecordShape descriptor = .ok ⟨⟩ := by
  have small := mmap.length_lt
  have dataInside := fits.dataInside
  simp only [Mmap.len] at dataInside
  unfold checkRecordShape
  split
  · next sized =>
    have filled := fits.records sized
    rw [checkedMul, if_pos (by omega), ok_bind, refuseIf_neg (not_not.mpr filled)]
  · rfl

theorem Written.acceptSection_eq (written : Written sha256 sections identity descriptors mmap.bytes)
    {header : Header} (front : header.bytes = mmap.bytes.take headerSize) {index : Nat}
    {descriptor : SectionDescriptor} (found : descriptors[index]? = some descriptor)
    {accepted : Accepted} (fresh : descriptor.kind ∉ accepted.kinds) :
    acceptSection mmap header accepted index = .ok {
      descriptors := accepted.descriptors ++ [descriptor]
      kinds := insert descriptor.kind accepted.kinds
      ranges := accepted.ranges ++ [descriptor.dataRange, descriptor.digestRange] } := by
  have member := List.mem_of_getElem? found
  obtain ⟨fits, behind⟩ := written.fits member
  obtain ⟨section', among, describes⟩ := Pointwise.exists_right written.laidOut.described member
  have checked := written.laidOut.checked section' ((orderedByKind_perm sections).mem_iff.mp among)
  have nonzero : descriptor.kind ≠ 0 := describes.kind ▸ checked.nonzero
  have small := mmap.length_lt
  have dataInside := fits.dataInside
  have digestsInside := fits.digestsInside
  simp only [Mmap.len] at dataInside digestsInside
  have few : index < maxSections := by
    have within := (List.getElem?_eq_some_iff.mp found).1
    rw [written.laidOut.described.length_eq, (orderedByKind_perm sections).length_eq] at within
    exact lt_of_lt_of_le within written.laidOut.few
  simp only [maxSections] at few
  unfold acceptSection
  rw [Checked.mul_eq_ok (by simp only [descriptorSize]; omega), ok_bind,
    Checked.add_eq_ok (by simp only [descriptorOffset, descriptorSize]; omega), ok_bind,
    written.readDescriptor_eq front found, ok_bind,
    refuseIf_neg (not_or.mpr ⟨nonzero, fresh⟩), ok_bind, checkRecordShape_eq fits, ok_bind,
    refuseIf_neg (not_not.mpr fits.digests), ok_bind, checkedEnd, if_pos (by omega), ok_bind,
    Checked.mul_eq_ok (by omega), ok_bind, checkedEnd, if_pos (by omega), ok_bind, refuseIf_neg, ok_bind]
  · rfl
  · have start := fits.behindHeader
    simp only [Mmap.len]
    omega

theorem Written.kinds_perm (written : Written sha256 sections identity descriptors mmap.bytes) :
    (descriptors.map SectionDescriptor.kind).Perm (sections.map QueryIndexSection.kind) := by
  have same := Pointwise.map_eq written.laidOut.described fun _ _ describes => describes.kind
  rw [same]
  exact (orderedByKind_perm sections).map _

theorem Written.kinds_nodup (written : Written sha256 sections identity descriptors mmap.bytes) :
    (descriptors.map SectionDescriptor.kind).Nodup :=
  written.kinds_perm.nodup_iff.mpr written.laidOut.distinct

theorem Written.foldlM_acceptSection
    (written : Written sha256 sections identity descriptors mmap.bytes)
    {header : Header} (front : header.bytes = mmap.bytes.take headerSize) {count : Nat}
    (within : count ≤ descriptors.length) :
    ∃ kinds, (List.range count).foldlM (acceptSection mmap header)
        { descriptors := [], kinds := ∅, ranges := [(0, headerSize)] } = .ok {
          descriptors := descriptors.take count
          kinds := kinds
          ranges := (0, headerSize) :: (descriptors.take count).flatMap fun descriptor =>
            [descriptor.dataRange, descriptor.digestRange] } ∧
      ∀ kind ∈ kinds, kind ∈ (descriptors.take count).map SectionDescriptor.kind := by
  induction count with
  | zero => exact ⟨∅, by simp, by simp⟩
  | succ count ih =>
    obtain ⟨kinds, collected, seen⟩ := ih (Nat.le_of_succ_le within)
    have found := List.getElem?_eq_getElem within
    have fresh : descriptors[count].kind ∉ kinds := by
      intro old
      have kinds := written.kinds_nodup
      rw [← List.take_append_drop count descriptors, List.map_append] at kinds
      refine (List.nodup_append.mp kinds).2.2 _ (seen _ old) _ ?_ rfl
      exact List.mem_map_of_mem (List.mem_of_getElem? (i := 0) (by simp))
    refine ⟨insert descriptors[count].kind kinds, ?_, ?_⟩
    · have next := List.take_succ_eq_append_getElem within
      rw [List.range_succ, foldlM_append collected, List.foldlM_cons,
        written.acceptSection_eq front found fresh, ok_bind, List.foldlM_nil, next, List.flatMap_append]
      rfl
    · intro kind member
      rw [List.take_succ_eq_append_getElem within, List.map_append, List.mem_append]
      rcases Finset.mem_insert.mp member with rfl | member
      · exact .inr (by simp)
      · exact .inl (seen kind member)

end Sections

section Ranges

instance : Std.Total rangeLe where
  total first second := by
    unfold rangeLe
    omega

instance : IsTrans (Nat × Nat) rangeLe where
  trans first second third := by
    unfold rangeLe
    omega

theorem overlapping_eq_false {ranges : List (Nat × Nat)}
    (apart : ranges.Pairwise fun range later => range.2 ≤ later.1) : overlapping ranges = false := by
  induction ranges with
  | nil => rfl
  | cons first ranges ih =>
    cases ranges with
    | nil => rfl
    | cons second ranges =>
      obtain ⟨before, rest⟩ := List.pairwise_cons.mp apart
      have next := before second List.mem_cons_self
      unfold overlapping
      rw [ih rest, decide_eq_false (by omega)]
      rfl

theorem not_overlapping {unit cursor total : Nat} {ranges laid : List (Nat × Nat)}
    (perm : ranges.Perm laid) (chain : Patch.Laid unit cursor laid total) :
    overlapping (ranges.insertionSort rangeLe) = false := by
  have apart := chain.pairwise
  have sorted : laid.Pairwise rangeLe := by
    refine apart.imp_of_mem fun {range later} member later_member before => ?_
    have own := chain.within range member
    have its := chain.within later later_member
    unfold rangeLe
    omega
  have same : ranges.insertionSort rangeLe = laid := by
    refine List.Perm.eq_of_pairwise ?_ (List.pairwise_insertionSort rangeLe ranges) sorted
      ((List.perm_insertionSort rangeLe ranges).trans perm)
    intro first second _ _ forward backward
    unfold rangeLe at forward backward
    exact Prod.ext (by omega) (by omega)
  rw [same]
  exact overlapping_eq_false apart

variable {sha256 : Sha256} {sections : List QueryIndexSection} {identity : WrittenIdentity}
  {descriptors : List SectionDescriptor} {mmap : Mmap}

theorem LaidOut.whole {totalBytes : Nat} (laidOut : LaidOut sections descriptors totalBytes) :
    Patch.Laid 8 0 ((0, headerSize) :: (descriptors.map SectionDescriptor.dataRange ++
      descriptors.map SectionDescriptor.digestRange)) totalBytes :=
  ⟨Nat.le_refl 0, ⟨0, rfl⟩, Nat.zero_le _, laidOut.laid⟩

theorem Written.openMapping_eq (written : Written sha256 sections identity descriptors mmap.bytes)
    (expected : QueryIndexIdentity) :
    openMapping sha256.digest mmap expected = (do
      compareIdentity identity.toQueryIndexIdentity expected
      return { mmap := mmap, descriptors := descriptors }) := by
  have long : headerSize ≤ mmap.bytes.length := written.laidOut.laid.cursor_le
  have few : descriptors.length ≤ maxSections := by
    rw [written.laidOut.described.length_eq, (orderedByKind_perm sections).length_eq]
    exact written.laidOut.few
  have mapped : mappedHeader mmap = .ok ⟨mmap.bytes.take headerSize, by simpa using long⟩ :=
    dif_pos long
  generalize header_eq : (⟨mmap.bytes.take headerSize, by simpa using long⟩ : Header) = header at mapped
  have front : header.bytes = mmap.bytes.take headerSize := header_eq ▸ rfl
  have counted : getU32 header 36 = .ok descriptors.length := by
    refine written.getU32_eq front (by simp [headerFields]) ?_ (by decide)
    simp only [maxSections] at few
    omega
  obtain ⟨kinds, collected, -⟩ := written.foldlM_acceptSection front (Nat.le_refl _)
  rw [List.take_length] at collected
  have passes := not_overlapping (List.Perm.cons (0, headerSize) (ranges_perm descriptors))
    written.laidOut.whole
  unfold openMapping
  rw [mapped, ok_bind, written.checkHeader_eq expected front, counted, ok_bind,
    refuseIf_neg (not_lt.mpr few), ok_bind, collected, ok_bind, passes]
  rfl

theorem Written.openIndex_eq (written : Written sha256 sections identity descriptors mmap.bytes)
    (path : String) : openIndex sha256.digest path (.regular mmap) identity.toQueryIndexIdentity =
      .ok { mmap := mmap, descriptors := descriptors } := by
  rw [openIndex, written.openMapping_eq, compareIdentity_self]
  rfl

theorem Written.openIndex_of_ne (written : Written sha256 sections identity descriptors mmap.bytes)
    (path : String) {expected : QueryIndexIdentity}
    (other : expected ≠ identity.toQueryIndexIdentity) :
    ∃ field, openIndex sha256.digest path (.regular mmap) expected =
      .refused (.identityMismatch field) := by
  obtain ⟨field, refused⟩ := compareIdentity_of_ne other
  refine ⟨field, ?_⟩
  rw [openIndex, written.openMapping_eq, refused]
  rfl

end Ranges

end Supercov.Index
