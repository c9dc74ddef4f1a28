import Supercov.Index.Layout

/-!
# What a written index holds

The fields of a header keep apart, and so do the data, the digests and the header of the
file: each is found in the file where it was put.
-/

namespace Supercov.Index

open Outcome

section Fields

def Before (field later : Nat × List UInt8) : Prop :=
  field.1 + field.2.length ≤ later.1

theorem Before.apart {field later : Nat × List UInt8} (before : Before field later) :
    Patch.Apart field.1 field.2.length later.1 later.2.length :=
  .inl before

theorem descriptorFields_within (offset : Nat) (descriptor : SectionDescriptor) :
    (descriptorFields offset descriptor).Pairwise Before ∧
      ∀ field ∈ descriptorFields offset descriptor,
        offset ≤ field.1 ∧ field.1 + field.2.length ≤ offset + descriptorSize := by
  simp [descriptorFields, Before, descriptorSize]

theorem length_magic : magic.length = 8 := by
  decide +kernel

theorem headerFields_within (identity : WrittenIdentity) {descriptors : List SectionDescriptor}
    (totalBytes : Nat) (few : descriptors.length ≤ maxSections) :
    (headerFields identity.toQueryIndexIdentity descriptors totalBytes).Pairwise Before ∧
      ∀ field ∈ headerFields identity.toQueryIndexIdentity descriptors totalBytes,
        field.1 + field.2.length ≤ headerChecksumOffset := by
  simp only [maxSections] at few
  have index {descriptor : SectionDescriptor × Nat} (member : descriptor ∈ descriptors.zipIdx) :
      descriptor.2 < descriptors.length := by
    have := (List.mem_zipIdx_iff_getElem?.mp member)
    exact (List.getElem?_eq_some_iff.mp this).1
  have described : ∀ field ∈ descriptors.zipIdx.flatMap (fun descriptor =>
        descriptorFields (descriptorOffset + descriptor.2 * descriptorSize) descriptor.1),
      descriptorOffset ≤ field.1 ∧ field.1 + field.2.length ≤ headerChecksumOffset := by
    intro field member
    obtain ⟨descriptor, among, member⟩ := List.mem_flatMap.mp member
    have within := (descriptorFields_within _ _).2 field member
    have small := index among
    simp only [descriptorOffset, descriptorSize, headerChecksumOffset, headerSize] at within ⊢
    omega
  have apart : (descriptors.zipIdx.flatMap fun descriptor =>
      descriptorFields (descriptorOffset + descriptor.2 * descriptorSize) descriptor.1).Pairwise
        Before := by
    refine List.pairwise_flatMap.mpr ⟨fun descriptor _ => (descriptorFields_within _ _).1, ?_⟩
    have ascending : (descriptors.zipIdx.map Prod.snd).Pairwise (· < ·) := by
      rw [List.zipIdx_map_snd]
      exact List.pairwise_lt_range'
    refine (List.pairwise_map.mp ascending).imp fun later field member field' member' => ?_
    have within := (descriptorFields_within _ _).2 field member
    have within' := (descriptorFields_within _ _).2 field' member'
    simp only [Before, descriptorOffset, descriptorSize] at within within' ⊢
    omega
  have evidence := identity.evidence_length
  have analysis := identity.analysis_length
  have producer := identity.producer_length
  constructor
  · unfold headerFields
    refine List.pairwise_append.mpr ⟨?_, apart, fun field member later among => ?_⟩
    · simp [Before, length_magic, evidence, analysis]
    · have := (described later among).1
      simp only [descriptorOffset] at this
      simp only [List.mem_cons, List.not_mem_nil, or_false] at member
      unfold Before
      rcases member with rfl | rfl | rfl | rfl | rfl | rfl | rfl | rfl | rfl | rfl | rfl <;>
        simp [length_magic, evidence, analysis, producer] <;> omega
  · intro field member
    rcases List.mem_append.mp member with member | member
    · simp only [List.mem_cons, List.not_mem_nil, or_false] at member
      simp only [headerChecksumOffset, headerSize]
      rcases member with rfl | rfl | rfl | rfl | rfl | rfl | rfl | rfl | rfl | rfl | rfl <;>
        simp [length_magic, evidence, analysis, producer]
    · exact (described field member).2

theorem foldlM_put {fields : List (Nat × List UInt8)} {buffer : List UInt8}
    (inside : ∀ field ∈ fields, field.1 + field.2.length ≤ buffer.length) :
    fields.foldlM put buffer = .ok (Patch.writes 0 buffer fields) := by
  induction fields generalizing buffer with
  | nil => rfl
  | cons field fields ih =>
    rw [List.forall_mem_cons] at inside
    have length := Patch.length_write 0 inside.1
    rw [List.foldlM_cons, put, if_pos inside.1, ok_bind, ih (by rw [length]; exact inside.2)]
    rfl

theorem makeHeader_holds (sha256 : Sha256) (identity : WrittenIdentity)
    {descriptors : List SectionDescriptor} (totalBytes : Nat)
    (few : descriptors.length ≤ maxSections) :
    ∃ header, makeHeader sha256 identity.toQueryIndexIdentity descriptors totalBytes = .ok header ∧
      header.length = headerSize ∧
      (∀ field ∈ headerFields identity.toQueryIndexIdentity descriptors totalBytes,
        Patch.slice header field.1 field.2.length = field.2) ∧
      Patch.slice header headerChecksumOffset 32 =
        sha256.digest (Patch.slice header 0 headerChecksumOffset) := by
  obtain ⟨ordered, ends⟩ := headerFields_within identity totalBytes few
  unfold makeHeader
  generalize headerFields identity.toQueryIndexIdentity descriptors totalBytes = fields at *
  have blank : (List.replicate headerSize (0 : UInt8)).length = headerSize := List.length_replicate
  have inside : ∀ field ∈ fields,
      field.1 + field.2.length ≤ (List.replicate headerSize (0 : UInt8)).length := by
    intro field member
    have := ends field member
    rw [blank]
    simp only [headerChecksumOffset, headerSize] at this ⊢
    omega
  have length := (Patch.length_writes 0 inside).trans blank
  have read := Patch.slice_writes 0 inside (ordered.imp Before.apart)
  rw [foldlM_put inside, ok_bind]
  generalize Patch.writes 0 (List.replicate headerSize 0) fields = header at *
  have covered : (Checked.slice header 0 headerChecksumOffset : Outcome QueryIndexError _) =
      .ok (Patch.slice header 0 headerChecksumOffset) := by
    unfold Checked.slice
    rw [if_pos (by rw [length]; decide), Patch.drop_take_eq_slice]
    rfl
  have digestLength := sha256.length_digest (Patch.slice header 0 headerChecksumOffset)
  have room : headerChecksumOffset +
      (sha256.digest (Patch.slice header 0 headerChecksumOffset)).length ≤ header.length := by
    rw [digestLength, length]
    decide
  rw [covered, ok_bind, put, if_pos room]
  refine ⟨_, rfl, (Patch.length_write 0 room).trans length, fun field member => ?_, ?_⟩
  · rw [Patch.slice_write_of_apart 0 room (.inl (ends field member))]
    exact read field member
  · have kept : Patch.slice (Patch.write 0 header headerChecksumOffset
        (sha256.digest (Patch.slice header 0 headerChecksumOffset))) 0 headerChecksumOffset =
          Patch.slice header 0 headerChecksumOffset :=
      Patch.slice_write_of_apart 0 room (.inl (by simp))
    have written := Patch.slice_write 0 room
    rw [digestLength] at written
    rw [kept]
    exact written

end Fields

section Files

structure Holds (sha256 : Sha256) (file : List UInt8) (descriptor : SectionDescriptor)
    (section' : QueryIndexSection) : Prop where
  describes : Describes descriptor section'
  data : Patch.slice file descriptor.offset descriptor.length = section'.bytes
  digests : Patch.slice file descriptor.digestsOffset (descriptor.digestCount * 32) =
    digests sha256 section'.bytes

structure Written (sha256 : Sha256) (sections : List QueryIndexSection)
    (identity : WrittenIdentity) (descriptors : List SectionDescriptor) (file : List UInt8) : Prop where
  laidOut : LaidOut sections descriptors file.length
  holds : List.Forall₂ (Holds sha256 file) descriptors (orderedByKind sections)
  header : ∀ field ∈ headerFields identity.toQueryIndexIdentity descriptors file.length,
    Patch.slice file field.1 field.2.length = field.2
  checksum : Patch.slice file headerChecksumOffset 32 =
    sha256.digest (Patch.slice file 0 headerChecksumOffset)

def sectionPatches (sha256 : Sha256) (placed : List (SectionDescriptor × QueryIndexSection)) :
    List (Nat × List UInt8) :=
  placed.flatMap fun (descriptor, section') =>
    [(descriptor.offset, section'.bytes), (descriptor.digestsOffset, digests sha256 section'.bytes)]

theorem length_digests (sha256 : Sha256) (bytes : List UInt8) :
    (digests sha256 bytes).length = divCeil bytes.length pageSize * 32 := by
  unfold digests chunks
  rw [List.length_flatMap, List.map_map]
  simp [Function.comp_def, sha256.length_digest]

theorem byKind_eq_some {sections : List QueryIndexSection}
    (distinct : (sections.map QueryIndexSection.kind).Nodup) {section' : QueryIndexSection}
    (member : section' ∈ sections) : byKind sections section'.kind = some section' := by
  unfold byKind
  cases found : sections.reverse.find? (·.kind = section'.kind) with
  | none => simpa using List.find?_eq_none.mp found section' (List.mem_reverse.mpr member)
  | some other =>
    have same : other.kind = section'.kind := by simpa using List.find?_some found
    have among := List.mem_reverse.mp (List.mem_of_find?_eq_some found)
    rw [List.inj_on_of_nodup_map distinct among member same]

theorem foldlM_writeSection {sha256 : Sha256} {sections ordered : List QueryIndexSection}
    {descriptors : List SectionDescriptor} (described : List.Forall₂ Describes descriptors ordered)
    (known : ∀ section' ∈ ordered, byKind sections section'.kind = some section')
    (file : List UInt8) :
    descriptors.foldlM (writeSection sha256 sections) file =
      .ok (Patch.writes 0 file (sectionPatches sha256 (descriptors.zip ordered))) := by
  induction described generalizing file with
  | nil => rfl
  | @cons descriptor section' descriptors ordered describes _ ih =>
    rw [List.forall_mem_cons] at known
    rw [List.foldlM_cons, writeSection, describes.kind, known.1, ok_bind, ih known.2]
    rfl

theorem ranges_perm (descriptors : List SectionDescriptor) :
    (descriptors.flatMap fun descriptor => [descriptor.dataRange, descriptor.digestRange]).Perm
      (descriptors.map SectionDescriptor.dataRange ++
        descriptors.map SectionDescriptor.digestRange) := by
  have merged := List.map_append_flatMap_perm descriptors SectionDescriptor.dataRange
    fun descriptor => [descriptor.digestRange]
  rw [← List.map_eq_flatMap] at merged
  exact merged.symm

theorem ranges_sectionPatches (sha256 : Sha256) {descriptors : List SectionDescriptor}
    {ordered : List QueryIndexSection} (described : List.Forall₂ Describes descriptors ordered) :
    (sectionPatches sha256 (descriptors.zip ordered)).map
        (fun patch => (patch.1, patch.1 + patch.2.length)) =
      descriptors.flatMap fun descriptor => [descriptor.dataRange, descriptor.digestRange] := by
  induction described with
  | nil => rfl
  | @cons descriptor section' descriptors ordered describes _ ih =>
    rw [List.zip_cons_cons, sectionPatches, List.flatMap_cons, List.map_append, List.flatMap_cons]
    refine congrArg₂ _ ?_ ih
    simp [SectionDescriptor.dataRange, SectionDescriptor.digestRange, describes.length,
      describes.digests, length_digests]

theorem LaidOut.pieces (sha256 : Sha256) {sections : List QueryIndexSection}
    {descriptors : List SectionDescriptor} {totalBytes : Nat}
    (laidOut : LaidOut sections descriptors totalBytes) :
    (sectionPatches sha256 (descriptors.zip (orderedByKind sections))).Pairwise
        (fun patch other => Patch.Apart patch.1 patch.2.length other.1 other.2.length) ∧
      ∀ patch ∈ sectionPatches sha256 (descriptors.zip (orderedByKind sections)),
        headerSize ≤ patch.1 ∧ patch.1 + patch.2.length ≤ totalBytes := by
  have ranges := ranges_sectionPatches sha256 laidOut.described
  have perm := ranges ▸ ranges_perm descriptors
  constructor
  · exact List.pairwise_map.mp (Patch.pairwise_disjoint_of_perm perm laidOut.laid.disjoint)
  · intro patch member
    have among := perm.subset (List.mem_map_of_mem member)
    have within := laidOut.laid.within _ among
    exact ⟨within.1, within.2.2.2⟩

theorem writeQueryIndex_written (sha256 : Sha256) {sections : List QueryIndexSection}
    (identity : WrittenIdentity) {descriptors : List SectionDescriptor} {totalBytes : Nat}
    (accepted : layoutSections sections = .ok (descriptors, totalBytes)) :
    ∃ file, writeQueryIndex sha256 sections identity.toQueryIndexIdentity = .ok file ∧
      file.length = totalBytes ∧ Written sha256 sections identity descriptors file := by
  have laidOut := layoutSections_laidOut accepted
  have ordered := orderedByKind_perm sections
  have few : descriptors.length ≤ maxSections := by
    rw [laidOut.described.length_eq, ordered.length_eq]
    exact laidOut.few
  have known : ∀ section' ∈ orderedByKind sections, byKind sections section'.kind = some section' :=
    fun section' member => byKind_eq_some laidOut.distinct (ordered.mem_iff.mp member)
  obtain ⟨header, made, headerLength, fields, checksum⟩ :=
    makeHeader_holds sha256 identity totalBytes few
  unfold writeQueryIndex
  rw [accepted, ok_bind]
  dsimp only
  rw [foldlM_writeSection laidOut.described known, ok_bind, made, ok_bind]
  refine ⟨_, rfl, ?_⟩
  obtain ⟨apart, within⟩ := laidOut.pieces sha256
  have blank : (List.replicate totalBytes (0 : UInt8)).length = totalBytes := List.length_replicate
  have inside : ∀ patch ∈ sectionPatches sha256 (descriptors.zip (orderedByKind sections)),
      patch.1 + patch.2.length ≤ (List.replicate totalBytes (0 : UInt8)).length := by
    intro patch member
    rw [blank]
    exact (within patch member).2
  have length := (Patch.length_writes 0 inside).trans blank
  have read := Patch.slice_writes 0 inside apart
  generalize Patch.writes 0 (List.replicate totalBytes 0)
    (sectionPatches sha256 (descriptors.zip (orderedByKind sections))) = body at *
  have room : 0 + header.length ≤ body.length := by
    rw [length, headerLength, Nat.zero_add]
    exact laidOut.laid.cursor_le
  have whole := (Patch.length_write 0 room).trans length
  have front := Patch.slice_write 0 room
  rw [headerLength] at front
  -- What lies in the header is read from the file as from the header.
  have within_header {start length : Nat} (inside : start + length ≤ headerSize) :
      Patch.slice (Patch.write 0 body 0 header) start length = Patch.slice header start length := by
    rw [← front, Patch.slice_slice inside, Nat.zero_add, front]
  -- What is put behind the header is read from the file as it was put.
  have behind {patch : Nat × List UInt8}
      (member : patch ∈ sectionPatches sha256 (descriptors.zip (orderedByKind sections))) :
      Patch.slice (Patch.write 0 body 0 header) patch.1 patch.2.length = patch.2 := by
    have after := (within patch member).1
    rw [Patch.slice_write_of_apart 0 room (.inr (by omega))]
    exact read patch member
  refine ⟨whole, by rw [whole]; exact laidOut, ?_, ?_, ?_⟩
  · refine List.forall₂_iff_zip.mpr ⟨laidOut.described.length_eq, fun {descriptor section'} paired => ?_⟩
    have describes := (List.forall₂_iff_zip.mp laidOut.described).2 paired
    have data := behind (List.mem_flatMap.mpr ⟨_, paired, List.mem_cons_self ..⟩)
    have digested := behind
      (List.mem_flatMap.mpr ⟨_, paired, List.mem_cons_of_mem _ (List.mem_cons_self ..)⟩)
    refine ⟨describes, ?_, ?_⟩
    · rw [describes.length]
      exact data
    · rw [describes.digests, ← length_digests sha256]
      exact digested
  · rw [whole]
    intro field member
    have ends := (headerFields_within identity totalBytes few).2 field member
    rw [within_header (by simp only [headerChecksumOffset] at ends; omega)]
    exact fields field member
  · rw [within_header (by decide), within_header (by decide)]
    exact checksum

end Files

end Supercov.Index
