import Supercov.Index.Container

/-!
# A query index is safe to open and to read

Whatever the file holds, opening it refuses or yields an index whose sections
fit the mapping; every later answer is a refusal or bytes of one section, inside
the mapping and inside pages whose digest is the stored one.  Nothing overflows
or reads out of bounds on the way.
-/

namespace Supercov.Index

open Outcome

theorem getU32_yields (header : Header) {offset : Nat} (inside : offset + 4 ≤ headerSize) :
    (getU32 header offset).Yields (· < 2 ^ 32) := by
  have long := header.length_eq
  simp only [headerSize] at inside long
  refine Yields.bind_eq (Checked.add_yields (by omega)) ?_
  refine Yields.bind_eq (Checked.slice_yields (by omega) (by omega)) ?_
  have width : ((header.bytes.take (offset + 4)).drop offset).length = 4 := by
    rw [List.length_drop, List.length_take]
    omega
  have small := Bytes.readLE_lt ((header.bytes.take (offset + 4)).drop offset)
  rw [width] at small
  exact small

theorem getU64_yields (header : Header) {offset : Nat} (inside : offset + 8 ≤ headerSize) :
    (getU64 header offset).Yields (· < 2 ^ 64) := by
  have long := header.length_eq
  simp only [headerSize] at inside long
  refine Yields.bind_eq (Checked.add_yields (by omega)) ?_
  refine Yields.bind_eq (Checked.slice_yields (by omega) (by omega)) ?_
  have width : ((header.bytes.take (offset + 8)).drop offset).length = 8 := by
    rw [List.length_drop, List.length_take]
    omega
  have small := Bytes.readLE_lt ((header.bytes.take (offset + 8)).drop offset)
  rw [width] at small
  exact small

theorem Header.slice_yields (header : Header) {start stop : Nat} (ordered : start ≤ stop)
    (inside : stop ≤ headerSize) : (header.slice start stop).Yields fun _ => True :=
  Yields.mono (Checked.slice_yields ordered (by rw [header.length_eq]; exact inside))
    fun _ _ => trivial

theorem checkHeader_yields (sha256 : List UInt8 → List UInt8) (mmap : Mmap)
    (expected : QueryIndexIdentity) (header : Header) :
    (checkHeader sha256 mmap expected header).Yields fun _ => True := by
  unfold checkHeader
  apply Yields.refuseIf; intro _
  apply Yields.bind (getU32_yields header (by decide)); intro version _
  apply Yields.refuseIf; intro _
  apply Yields.bind (getU32_yields header (by decide)); intro size _
  apply Yields.refuseIf; intro _
  apply Yields.bind (header.slice_yields (by decide) (by decide)); intro covered _
  apply Yields.bind (header.slice_yields (by decide) (by decide)); intro checksum _
  apply Yields.refuseIf; intro _
  apply Yields.bind (getU64_yields header (by decide)); intro total _
  apply Yields.refuseIf; intro _
  apply Yields.bind (getU32_yields header (by decide)); intro page _
  apply Yields.refuseIf; intro _
  apply Yields.bind (getU64_yields header (by decide)); intro evidenceBytes _
  apply Yields.refuseIf; intro _
  apply Yields.bind (getU32_yields header (by decide)); intro archiveSchema _
  apply Yields.refuseIf; intro _
  apply Yields.bind (header.slice_yields (by decide) (by decide)); intro evidence _
  apply Yields.refuseIf; intro _
  apply Yields.bind (header.slice_yields (by decide) (by decide)); intro analysis _
  apply Yields.refuseIf; intro _
  apply Yields.bind (header.slice_yields (by decide) (by decide)); intro producer _
  unfold refuseIf
  split <;> trivial

/-- What the checks of a descriptor establish: its data and its digests lie in
the mapping, behind the header, and its records fill its data. -/
structure SectionDescriptor.Fits (descriptor : SectionDescriptor) (mmap : Mmap) : Prop where
  records : 0 < descriptor.recordSize →
    descriptor.recordSize * descriptor.count = descriptor.length
  digests : descriptor.digestCount = divCeil descriptor.length pageSize
  behindHeader : headerSize ≤ descriptor.offset
  dataInside : descriptor.offset + descriptor.length ≤ mmap.len
  digestsInside : descriptor.digestsOffset + descriptor.digestCount * 32 ≤ mmap.len

structure Sound (mmap : Mmap) (descriptors : List SectionDescriptor) : Prop where
  fits : ∀ descriptor ∈ descriptors, descriptor.Fits mmap
  distinct : (descriptors.map SectionDescriptor.kind).Nodup

theorem Sound.eq_of_kind {mmap : Mmap} {descriptors : List SectionDescriptor}
    (sound : Sound mmap descriptors) {first second : SectionDescriptor}
    (mem_first : first ∈ descriptors) (mem_second : second ∈ descriptors)
    (same : first.kind = second.kind) : first = second :=
  List.inj_on_of_nodup_map sound.distinct mem_first mem_second same

theorem readDescriptor_yields (header : Header) {offset : Nat}
    (inside : offset + descriptorSize ≤ headerSize) :
    (readDescriptor header offset).Yields fun descriptor => descriptor.digestCount < 2 ^ 32 := by
  simp only [descriptorSize, headerSize] at inside
  have room : ∀ skip, skip ≤ 56 → offset + skip + 8 ≤ headerSize := by
    intro skip small
    simp only [headerSize]
    omega
  have narrow : ∀ skip, skip ≤ 56 → offset + skip + 4 ≤ headerSize :=
    fun skip small => le_trans (by omega) (room skip small)
  unfold readDescriptor
  apply Yields.bind (getU32_yields header (narrow 0 (by decide))); intro kind _
  apply Yields.bind (getU32_yields header (narrow 4 (by decide))); intro recordSize _
  apply Yields.bind (getU64_yields header (room 8 (by decide))); intro start _
  apply Yields.bind (getU64_yields header (room 16 (by decide))); intro length _
  apply Yields.bind (getU64_yields header (room 24 (by decide))); intro count _
  apply Yields.bind (getU64_yields header (room 32 (by decide))); intro digestsOffset _
  apply Yields.bind (getU32_yields header (narrow 40 (by decide))); intro digestCount small
  exact small

theorem checkedEnd_yields (offset length : Nat) :
    (checkedEnd offset length).Yields (· = offset + length) := by
  unfold checkedEnd
  split <;> trivial

theorem checkedMul_yields (a b : Nat) : (checkedMul a b).Yields (· = a * b) := by
  unfold checkedMul
  split <;> trivial

theorem checkRecordShape_yields (descriptor : SectionDescriptor) :
    (checkRecordShape descriptor).Yields fun _ =>
      0 < descriptor.recordSize → descriptor.recordSize * descriptor.count = descriptor.length := by
  unfold checkRecordShape
  by_cases shaped : descriptor.recordSize > 0
  · rw [if_pos shaped]
    refine Yields.bind_eq (checkedMul_yields _ _) ?_
    unfold refuseIf
    split
    · trivial
    · rename_i filled
      exact fun _ => not_not.mp filled
  · rw [if_neg shaped]
    exact fun positive => absurd positive shaped

/-- What a turn of the loop keeps: the accepted sections are sound, and the
kinds seen are theirs. -/
def Accepted.Sound (mmap : Mmap) (accepted : Accepted) : Prop :=
  Index.Sound mmap accepted.descriptors ∧
    ∀ descriptor ∈ accepted.descriptors, descriptor.kind ∈ accepted.kinds

theorem Accepted.Sound.push {mmap : Mmap} {accepted : Accepted} (sound : accepted.Sound mmap)
    {descriptor : SectionDescriptor} (fits : descriptor.Fits mmap)
    (fresh : descriptor.kind ∉ accepted.kinds) (ranges : List (Nat × Nat)) :
    Accepted.Sound mmap {
      descriptors := accepted.descriptors ++ [descriptor]
      kinds := insert descriptor.kind accepted.kinds
      ranges := ranges } := by
  obtain ⟨⟨allFit, distinct⟩, seen⟩ := sound
  refine ⟨⟨?_, ?_⟩, ?_⟩
  · intro other member
    rcases List.mem_append.mp member with old | new
    · exact allFit other old
    · rw [List.mem_singleton.mp new]
      exact fits
  · rw [List.map_append, List.nodup_append]
    refine ⟨distinct, List.nodup_singleton _, ?_⟩
    intro kind old other new same
    obtain ⟨owner, member, owns⟩ := List.mem_map.mp old
    apply fresh
    rw [← List.mem_singleton.mp new, ← same, ← owns]
    exact seen owner member
  · intro other member
    rcases List.mem_append.mp member with old | new
    · exact Finset.mem_insert_of_mem (seen other old)
    · rw [List.mem_singleton.mp new]
      exact Finset.mem_insert_self _ _

theorem acceptSection_yields {mmap : Mmap} (header : Header) {accepted : Accepted}
    (sound : accepted.Sound mmap) {index : Nat} (bounded : index < maxSections) :
    (acceptSection mmap header accepted index).Yields (Accepted.Sound mmap) := by
  simp only [maxSections] at bounded
  unfold acceptSection
  refine Yields.bind_eq (Checked.mul_yields (by simp only [descriptorSize]; omega)) ?_
  refine Yields.bind_eq (Checked.add_yields (by simp only [descriptorOffset, descriptorSize]; omega)) ?_
  apply Yields.bind (readDescriptor_yields header
    (by simp only [descriptorOffset, descriptorSize, headerSize]; omega))
  intro descriptor fewDigests
  apply Yields.refuseIf
  intro fresh
  apply Yields.bind (checkRecordShape_yields descriptor)
  intro _ records
  apply Yields.refuseIf
  intro digests
  refine Yields.bind_eq (checkedEnd_yields _ _) ?_
  refine Yields.bind_eq (Checked.mul_yields (by omega)) ?_
  refine Yields.bind_eq (checkedEnd_yields _ _) ?_
  apply Yields.refuseIf
  intro bounds
  push Not at fresh digests bounds
  exact sound.push ⟨records, digests, bounds.1, bounds.2.1, bounds.2.2.2⟩ fresh.2 _

def QueryIndex.Opened (index : QueryIndex) (mmap : Mmap) : Prop :=
  index.mmap = mmap ∧ Sound index.mmap index.descriptors

theorem openMapping_yields (sha256 : List UInt8 → List UInt8) (mmap : Mmap)
    (expected : QueryIndexIdentity) :
    (openMapping sha256 mmap expected).Yields fun index => index.Opened mmap := by
  unfold openMapping
  apply Yields.bind (P := fun _ => True)
  · unfold mappedHeader
    split <;> trivial
  intro header _
  apply Yields.bind (checkHeader_yields sha256 mmap expected header)
  intro _ _
  apply Yields.bind (getU32_yields header (by decide))
  intro sectionCount _
  apply Yields.refuseIf
  intro few
  apply Yields.bind (P := Accepted.Sound mmap)
  · apply Yields.foldlM
    · exact ⟨⟨by simp, List.nodup_nil⟩, by simp⟩
    · intro accepted sound index member
      apply acceptSection_yields header sound
      exact lt_of_lt_of_le (List.mem_range.mp member) (not_lt.mp few)
  intro accepted sound
  apply Yields.refuseIf
  intro _
  exact ⟨rfl, sound.1⟩

def SectionDescriptor.pageData (descriptor : SectionDescriptor) (mmap : Mmap) (page : Nat) :
    List UInt8 :=
  (mmap.bytes.take (min (descriptor.offset + page * pageSize + pageSize)
    (descriptor.offset + descriptor.length))).drop (descriptor.offset + page * pageSize)

def SectionDescriptor.storedDigest (descriptor : SectionDescriptor) (mmap : Mmap) (page : Nat) :
    List UInt8 :=
  (mmap.bytes.take (descriptor.digestsOffset + page * 32 + 32)).drop
    (descriptor.digestsOffset + page * 32)

def SectionDescriptor.Authentic (sha256 : List UInt8 → List UInt8)
    (descriptor : SectionDescriptor) (mmap : Mmap) (page : Nat) : Prop :=
  sha256 (descriptor.pageData mmap page) = descriptor.storedDigest mmap page

theorem lt_divCeil_iff {a b page : Nat} (positive : 0 < b) : page < divCeil a b ↔ page * b < a := by
  have split := Nat.div_add_mod a b
  unfold divCeil
  by_cases partial_ : a % b > 0
  · rw [if_pos partial_, Nat.lt_succ_iff, Nat.le_div_iff_mul_le positive]
    constructor
    · intro within
      apply lt_of_le_of_ne within
      intro exact_
      rw [← exact_, Nat.mul_mod_left] at partial_
      exact absurd partial_ (lt_irrefl 0)
    · exact le_of_lt
  · rw [if_neg partial_]
    have whole : a / b * b = a := by
      rw [Nat.mul_comm]
      omega
    constructor
    · intro within
      exact lt_of_lt_of_le (Nat.mul_lt_mul_of_pos_right within positive) (le_of_eq whole)
    · intro within
      rw [← whole] at within
      exact Nat.lt_of_mul_lt_mul_right within

namespace QueryIndex

variable {sha256 : List UInt8 → List UInt8} {index : QueryIndex}

theorem descriptor_yields (index : QueryIndex) (kind : Nat) :
    (index.descriptor kind).Yields fun descriptor =>
      descriptor ∈ index.descriptors ∧ descriptor.kind = kind := by
  unfold descriptor
  cases found : index.descriptors.find? fun descriptor => descriptor.kind = kind with
  | none => trivial
  | some descriptor =>
    exact ⟨List.mem_of_find?_eq_some found, by simpa using List.find?_some found⟩

theorem pageDigests_eq {descriptor : SectionDescriptor} (fits : descriptor.Fits index.mmap)
    {page : Nat} (counted : page < descriptor.digestCount) :
    index.pageDigests sha256 descriptor page = .ok (descriptor.storedDigest index.mmap page,
      sha256 (descriptor.pageData index.mmap page)) := by
  have started : page * pageSize < descriptor.length := by
    rw [fits.digests] at counted
    exact (lt_divCeil_iff pageSize_pos).mp counted
  have mapped := index.mmap.length_lt
  have dataInside := fits.dataInside
  have digestsInside := fits.digestsInside
  simp only [Mmap.len] at dataInside digestsInside
  simp only [pageSize] at started
  unfold pageDigests
  refine bind_of_eq_ok (Checked.mul_eq_ok (by simp only [pageSize]; omega)) ?_
  refine bind_of_eq_ok (Checked.add_eq_ok (by simp only [pageSize]; omega)) ?_
  refine bind_of_eq_ok (Checked.add_eq_ok (by omega)) ?_
  refine bind_of_eq_ok (Checked.add_eq_ok (by simp only [pageSize]; omega)) ?_
  refine bind_of_eq_ok (Checked.mul_eq_ok (by omega)) ?_
  refine bind_of_eq_ok (Checked.add_eq_ok (by omega)) ?_
  refine bind_of_eq_ok (Checked.add_eq_ok (by omega)) ?_
  refine bind_of_eq_ok (Checked.slice_eq_ok (by omega) (by omega)) ?_
  refine bind_of_eq_ok (Checked.slice_eq_ok (by simp only [pageSize]; omega) (by omega)) ?_
  rfl

/-- What the set of verified pages says: for every section, they are authentic. -/
def Trusted (sha256 : List UInt8 → List UInt8) (index : QueryIndex) (verified : VerifiedPages) :
    Prop :=
  ∀ descriptor ∈ index.descriptors, ∀ page, (descriptor.kind, page) ∈ verified →
    descriptor.Authentic sha256 index.mmap page

theorem Trusted.insert (sound : Sound index.mmap index.descriptors) {verified : VerifiedPages}
    (trusted : index.Trusted sha256 verified) {descriptor : SectionDescriptor}
    (member : descriptor ∈ index.descriptors) {page : Nat}
    (authentic : descriptor.Authentic sha256 index.mmap page) :
    index.Trusted sha256 (insert (descriptor.kind, page) verified) := by
  intro other otherMember otherPage recorded
  rcases Finset.mem_insert.mp recorded with new | old
  · obtain ⟨sameKind, samePage⟩ := Prod.mk.injEq .. ▸ new
    rw [sound.eq_of_kind otherMember member sameKind, samePage]
    exact authentic
  · exact trusted other otherMember otherPage old

theorem verifyPage_ensures (sound : Sound index.mmap index.descriptors)
    {descriptor : SectionDescriptor} (member : descriptor ∈ index.descriptors) {page : Nat}
    (counted : page < descriptor.digestCount) :
    (index.verifyPage sha256 descriptor page).Ensures (index.Trusted sha256) fun _ =>
      descriptor.Authentic sha256 index.mmap page := by
  apply Session.Ensures.read
  intro verified trusted
  by_cases known : (descriptor.kind, page) ∈ verified
  · simp only [if_pos known]
    exact ⟨trusted descriptor member page known, trusted⟩
  · simp only [if_neg known]
    have digests : index.pageDigests sha256 descriptor page = _ :=
      pageDigests_eq (sound.fits descriptor member) counted
    refine Session.Ensures.bind_eq (by rw [digests]; exact Eq.refl _) ?_ verified trusted
    apply Session.Ensures.refuseIf
    intro matches_
    have authentic : descriptor.Authentic sha256 index.mmap page := not_not.mp matches_
    exact Session.Ensures.update
      (fun verified' trusted' => trusted'.insert sound member authentic) authentic

theorem verifyAll_ensures (sound : Sound index.mmap index.descriptors) :
    (index.verifyAll sha256).Ensures (index.Trusted sha256) fun _ =>
      ∀ descriptor ∈ index.descriptors, ∀ page ∈ List.range descriptor.digestCount,
        descriptor.Authentic sha256 index.mmap page := by
  apply Session.Ensures.forEach
  intro descriptor member
  apply Session.Ensures.forEach
  intro page counted
  exact verifyPage_ensures sound member (List.mem_range.mp counted)

def PagesAuthentic (sha256 : List UInt8 → List UInt8) (index : QueryIndex)
    (descriptor : SectionDescriptor) (offset length : Nat) : Prop :=
  ∀ page position, offset ≤ position → position < offset + length → position / pageSize = page →
    descriptor.Authentic sha256 index.mmap page

theorem verifyRange_ensures (sound : Sound index.mmap index.descriptors)
    {descriptor : SectionDescriptor} (member : descriptor ∈ index.descriptors)
    {offset length : Nat} (inside : offset + length ≤ descriptor.length) :
    (index.verifyRange sha256 descriptor offset length (offset + length)).Ensures
      (index.Trusted sha256) fun _ => index.PagesAuthentic sha256 descriptor offset length := by
  unfold verifyRange
  by_cases some_ : length > 0
  · rw [if_pos some_]
    refine Session.Ensures.bind_eq (Checked.sub_yields (by omega)) ?_
    apply Session.Ensures.mono (P := fun _ =>
      ∀ page ∈ List.range' (offset / pageSize)
        ((offset + length - 1) / pageSize + 1 - offset / pageSize),
        descriptor.Authentic sha256 index.mmap page)
    · apply Session.Ensures.forEach
      intro page listed
      apply verifyPage_ensures sound member
      rw [(sound.fits descriptor member).digests]
      apply (lt_divCeil_iff pageSize_pos).mpr
      have last : page ≤ (offset + length - 1) / pageSize := by
        have := List.mem_range'_1.mp listed
        omega
      have := (Nat.le_div_iff_mul_le pageSize_pos).mp last
      omega
    · intro _ authentic page position low high at_
      apply authentic
      have first : offset / pageSize ≤ page := at_ ▸ Nat.div_le_div_right low
      have last : page ≤ (offset + length - 1) / pageSize :=
        at_ ▸ Nat.div_le_div_right (Nat.le_sub_one_of_lt high)
      apply List.mem_range'_1.mpr
      omega
  · rw [if_neg some_]
    apply Session.Ensures.pure
    intro page position low high
    omega

/-- Bytes of a section: where they lie, and that their pages are authentic. -/
def Genuine (sha256 : List UInt8 → List UInt8) (index : QueryIndex)
    (descriptor : SectionDescriptor) (offset length : Nat) (content : List UInt8) : Prop :=
  offset + length ≤ descriptor.length ∧
    headerSize ≤ descriptor.offset ∧
    descriptor.offset + descriptor.length ≤ index.mmap.len ∧
    content = (index.mmap.bytes.drop (descriptor.offset + offset)).take length ∧
    index.PagesAuthentic sha256 descriptor offset length

theorem bytes_ensures (sound : Sound index.mmap index.descriptors) (kind offset length : Nat) :
    (index.bytes sha256 kind offset length).Ensures (index.Trusted sha256) fun content =>
      ∃ descriptor ∈ index.descriptors, descriptor.kind = kind ∧
        index.Genuine sha256 descriptor offset length content := by
  unfold bytes
  apply Session.Ensures.bind_lift (descriptor_yields index kind)
  intro descriptor ⟨member, ofKind⟩
  have fits := sound.fits descriptor member
  have mapped := index.mmap.length_lt
  have dataInside := fits.dataInside
  simp only [Mmap.len] at dataInside
  refine Session.Ensures.bind_eq (checkedEnd_yields offset length) ?_
  apply Session.Ensures.refuseIf
  intro inside
  rw [gt_iff_lt, not_lt] at inside
  apply Session.Ensures.bind (verifyRange_ensures sound member inside)
  intro _ authentic
  refine Session.Ensures.bind_eq (Checked.add_yields (by omega)) ?_
  refine Session.Ensures.bind_eq (Checked.add_yields (by omega)) ?_
  apply Session.Ensures.lift
  apply Yields.mono (Checked.slice_yields (by omega) (by omega))
  intro content sliced
  refine ⟨descriptor, member, ofKind, inside, fits.behindHeader, fits.dataInside, ?_, authentic⟩
  rw [sliced, List.drop_take]
  congr 1
  omega

theorem record_ensures (sound : Sound index.mmap index.descriptors) (kind position : Nat) :
    (index.record sha256 kind position).Ensures (index.Trusted sha256) fun content =>
      ∃ descriptor ∈ index.descriptors, descriptor.kind = kind ∧
        0 < descriptor.recordSize ∧ position < descriptor.count ∧
        index.Genuine sha256 descriptor (position * descriptor.recordSize) descriptor.recordSize
          content := by
  unfold record
  apply Session.Ensures.bind_lift (descriptor_yields index kind)
  intro descriptor ⟨member, ofKind⟩
  have fits := sound.fits descriptor member
  have mapped := index.mmap.length_lt
  have dataInside := fits.dataInside
  simp only [Mmap.len] at dataInside
  apply Session.Ensures.refuseIf
  intro passes
  push Not at passes
  have sized := Nat.pos_of_ne_zero passes.1
  have counted := passes.2
  have filled := fits.records sized
  have before : position * descriptor.recordSize ≤ descriptor.length := by
    rw [← filled, Nat.mul_comm]
    exact Nat.mul_le_mul_left _ (le_of_lt counted)
  refine Session.Ensures.bind_eq (Checked.mul_yields (by omega)) ?_
  apply Session.Ensures.mono (bytes_ensures sound kind _ _)
  intro content ⟨owner, ownerMember, ownerKind, genuine⟩
  have same := sound.eq_of_kind ownerMember member (ownerKind.trans ofKind.symm)
  subst same
  exact ⟨owner, ownerMember, ownerKind, sized, counted, genuine⟩

/-- What an answer to a request is worth. -/
def Answers (sha256 : List UInt8 → List UInt8) (index : QueryIndex) : Call → Answer → Prop
  | .descriptor kind, .descriptor descriptor =>
    descriptor ∈ index.descriptors ∧ descriptor.kind = kind
  | .bytes kind offset length, .bytes content =>
    ∃ descriptor ∈ index.descriptors, descriptor.kind = kind ∧
      index.Genuine sha256 descriptor offset length content
  | .record kind position, .bytes content =>
    ∃ descriptor ∈ index.descriptors, descriptor.kind = kind ∧
      0 < descriptor.recordSize ∧ position < descriptor.count ∧
      index.Genuine sha256 descriptor (position * descriptor.recordSize) descriptor.recordSize
        content
  | .verifyAll, .verified =>
    ∀ descriptor ∈ index.descriptors, ∀ page ∈ List.range descriptor.digestCount,
      descriptor.Authentic sha256 index.mmap page
  | _, _ => False

theorem answer_ensures (sound : Sound index.mmap index.descriptors) (call : Call) :
    (index.answer sha256 call).Ensures (index.Trusted sha256) (index.Answers sha256 call) := by
  cases call with
  | descriptor kind =>
    apply Session.Ensures.bind_lift (descriptor_yields index kind)
    intro descriptor found
    exact Session.Ensures.pure found
  | bytes kind offset length =>
    apply Session.Ensures.bind (bytes_ensures sound kind offset length)
    intro content genuine
    exact Session.Ensures.pure genuine
  | record kind position =>
    apply Session.Ensures.bind (record_ensures sound kind position)
    intro content genuine
    exact Session.Ensures.pure genuine
  | verifyAll =>
    apply Session.Ensures.bind (verifyAll_ensures sound)
    intro _ authentic
    exact Session.Ensures.pure authentic

theorem answers_forall (sound : Sound index.mmap index.descriptors) (calls : List Call)
    {verified : VerifiedPages} (trusted : index.Trusted sha256 verified) :
    List.Forall₂ (fun call outcome => outcome.Yields (index.Answers sha256 call)) calls
      (index.answers sha256 calls verified) := by
  induction calls generalizing verified with
  | nil => exact List.Forall₂.nil
  | cons call calls ih =>
    obtain ⟨yields, kept⟩ := answer_ensures sound call verified trusted
    exact List.Forall₂.cons yields (ih kept)

end QueryIndex

/-- For every file, opening it refuses or yields an index over its bytes; then
every answer to every list of requests is a refusal or what `Answers` says. -/
theorem openIndex_safe (sha256 : List UInt8 → List UInt8) (path : String) (mmap : Mmap)
    (expected : QueryIndexIdentity) :
    (openIndex sha256 path (.regular mmap) expected).Yields fun index =>
      index.mmap = mmap ∧
        ∀ calls, List.Forall₂ (fun call outcome => outcome.Yields (index.Answers sha256 call))
          calls (index.answers sha256 calls ∅) := by
  apply Yields.mono (openMapping_yields sha256 mmap expected)
  intro index ⟨same, sound⟩
  refine ⟨same, fun calls => QueryIndex.answers_forall sound calls ?_⟩
  intro descriptor member page recorded
  exact absurd recorded (Finset.notMem_empty _)

end Supercov.Index
