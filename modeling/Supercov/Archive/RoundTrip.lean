import Supercov.Archive.Framing

/-!
# What the archive writer writes, the reader reads

The reader refuses a header longer than its cap; the writer bounds no header.
So an accepted list of entries is read back, in the order of their paths,
exactly when each of their headers is within the reader's cap.
-/

namespace Supercov.Archive

open Outcome

section Canonical

variable {entries : List EvidenceArchiveEntry}

def Increasing (entries : List EvidenceArchiveEntry) : Prop :=
  entries.Pairwise fun left right => left.path < right.path

theorem validatePaths_eq_ok {done : PUnit} :
    validatePaths entries = .ok done ↔ ∀ entry ∈ entries, ¬ invalidPath entry.path.toList := by
  simp [validatePaths, forEach_eq_ok, validateArchivePath]

theorem firstDuplicate_eq_none :
    firstDuplicate entries = none ↔
      entries.IsChain fun left right => left.path ≠ right.path := by
  induction entries with
  | nil => simp [firstDuplicate]
  | cons first rest ih =>
    cases rest with
    | nil => simp [firstDuplicate]
    | cons second rest =>
      rw [firstDuplicate, List.isChain_cons_cons, ← ih]
      by_cases same : first.path = second.path <;> simp [same]

theorem refuseDuplicate_eq_ok {done : PUnit} :
    refuseDuplicate entries = .ok done ↔ firstDuplicate entries = none := by
  unfold refuseDuplicate
  cases firstDuplicate entries <;> simp

theorem increasing_iff (sorted : entries.Pairwise pathLe) :
    Increasing entries ↔ firstDuplicate entries = none := by
  rw [firstDuplicate_eq_none]
  constructor
  · intro increasing
    exact List.Pairwise.isChain (increasing.imp fun less => ne_of_lt less)
  · intro distinct
    have : IsTrans EvidenceArchiveEntry fun left right => left.path < right.path :=
      ⟨fun first second third => lt_trans (a := first.path) (b := second.path) (c := third.path)⟩
    apply List.IsChain.pairwise
    rw [List.isChain_iff_getElem] at distinct ⊢
    intro index within
    have ordered := List.isChain_iff_getElem.mp sorted.isChain index within
    exact lt_of_le_of_ne ordered (distinct index within)

theorem increasing_of_nodup (distinct : (entries.map EvidenceArchiveEntry.path).Nodup) :
    Increasing (entries.insertionSort pathLe) := by
  have sorted_distinct : ((entries.insertionSort pathLe).map EvidenceArchiveEntry.path).Nodup :=
    ((List.perm_insertionSort pathLe entries).map _).nodup_iff.mpr distinct
  have ordered := List.pairwise_insertionSort pathLe entries
  apply (ordered.and (List.pairwise_map.mp sorted_distinct)).imp
  intro left right ⟨le, ne⟩
  exact lt_of_le_of_ne le ne

theorem canonicalizeEntries_eq_ok {canonical : List EvidenceArchiveEntry} :
    canonicalizeEntries entries = .ok canonical ↔
      canonical = entries.insertionSort pathLe ∧
        (∀ entry ∈ entries, ¬ invalidPath entry.path.toList) ∧
        Increasing (entries.insertionSort pathLe) ∧
        ∃ entry ∈ entries, entry.path = "manifest.json" := by
  rw [increasing_iff (List.pairwise_insertionSort pathLe entries)]
  simp only [canonicalizeEntries, bind_eq_ok, validatePaths_eq_ok, refuseDuplicate_eq_ok,
    refuseIf_eq_ok, pure_eq, ok.injEq, List.mem_insertionSort]
  constructor
  · rintro ⟨_, valid, _, distinct, _, manifest, rfl⟩
    push Not at manifest
    exact ⟨rfl, valid, distinct, manifest⟩
  · rintro ⟨rfl, valid, distinct, manifest⟩
    refine ⟨⟨⟩, valid, ⟨⟩, distinct, ⟨⟩, ?_, rfl⟩
    push Not
    exact manifest

theorem Increasing.eq_of_path (increasing : Increasing entries)
    {first second : EvidenceArchiveEntry} (mem_first : first ∈ entries)
    (mem_second : second ∈ entries) (same : first.path = second.path) : first = second := by
  have distinct : (entries.map EvidenceArchiveEntry.path).Nodup :=
    List.pairwise_map.mpr (increasing.imp fun less => ne_of_lt less)
  exact List.inj_on_of_nodup_map distinct mem_first mem_second same

theorem insertionSort_eq_of_perm {permuted : List EvidenceArchiveEntry}
    (increasing : Increasing (entries.insertionSort pathLe)) (same : permuted.Perm entries) :
    permuted.insertionSort pathLe = entries.insertionSort pathLe := by
  have sorted : (permuted.insertionSort pathLe).Perm (entries.insertionSort pathLe) :=
    (List.perm_insertionSort pathLe permuted).trans
      (same.trans (List.perm_insertionSort pathLe entries).symm)
  apply List.Perm.eq_of_pairwise _ (List.pairwise_insertionSort pathLe permuted)
    (List.pairwise_insertionSort pathLe entries) sorted
  intro first second member member' le ge
  exact increasing.eq_of_path (sorted.mem_iff.mp member) member' (le_antisymm le ge)

end Canonical

section Frames

theorem readExactOrTruncated_append (damaged : Bool) (part : String) (front rest : List UInt8) :
    readExactOrTruncated damaged front.length part (front ++ rest) = .ok (front, rest) := by
  simp [readExactOrTruncated]

theorem readToEnd_append (damaged : Bool) (entry : EvidenceArchiveEntry) (rest : List UInt8) :
    readToEnd damaged entry.path entry.contents.length (entry.contents ++ rest) =
      .ok (entry, rest) := by
  have taken : (entry.contents ++ rest).take entry.contents.length = entry.contents := by simp
  unfold readToEnd
  rw [if_neg (by simp), dif_pos (by rw [taken]; exact entry.length_lt)]
  simp

theorem frame_eq (entry : EvidenceArchiveEntry) :
    ∃ first size, entry.frame = first :: (size ++ (entry.encodedHeader ++ entry.contents)) ∧
      size.length = 3 ∧
      (entry.encodedHeader.length < 2 ^ 32 →
        Bytes.readBE (first :: size) = entry.encodedHeader.length) := by
  have wide := Bytes.length_writeBE 4 entry.encodedHeader.length
  unfold EvidenceArchiveEntry.frame
  cases written : Bytes.writeBE 4 entry.encodedHeader.length with
  | nil => simp [written] at wide
  | cons first size =>
    rw [written] at wide
    refine ⟨first, size, rfl, by simpa using wide, ?_⟩
    intro short
    rw [← written]
    exact Bytes.readBE_writeBE short

theorem encodedHeader_pos (entry : EvidenceArchiveEntry) : 0 < entry.encodedHeader.length := by
  simp [EvidenceArchiveEntry.encodedHeader]

def ReaderState.visit (state : ReaderState) (entry : EvidenceArchiveEntry) : ReaderState :=
  { state with
    seen := insert entry.path state.seen
    previous := some entry.path
    entries := state.entries ++ [entry] }

/-- `serde_json` reads a header back that it wrote. -/
def ReadsHeaders (fromSlice : List UInt8 → Option EntryHeader) : Prop :=
  ∀ header : EntryHeader, header.bytes < 2 ^ 64 → fromSlice header.toVec = some header

/-- The entry may follow what was read before. -/
def Follows (state : ReaderState) (entry : EvidenceArchiveEntry) : Prop :=
  ∀ previous ∈ state.previous, previous < entry.path

theorem refuseUnordered_of_follows {state : ReaderState} {entry : EvidenceArchiveEntry}
    (follows : Follows state entry) :
    refuseUnordered state.previous entry.path = .ok ⟨⟩ := by
  unfold Follows at follows
  cases before : state.previous with
  | none => rfl
  | some previous =>
    have less := follows previous (by simp [before])
    simp [refuseUnordered, refuseIf, ne_of_lt less, not_lt_of_gt less]

variable {fromSlice : List UInt8 → Option EntryHeader} {damaged : Bool}

theorem start_follows (entry : EvidenceArchiveEntry) : Follows .start entry := by
  intro previous before
  cases before

theorem readEntries_frame (reads : ReadsHeaders fromSlice) {entry : EvidenceArchiveEntry}
    (fits : entry.encodedHeader.length ≤ maxEntryHeaderBytes)
    (valid : ¬ invalidPath entry.path.toList) {state : ReaderState} (follows : Follows state entry)
    (fuel : Nat) (rest : List UInt8) :
    readEntries fromSlice damaged (fun _ => true) (fuel + 1) state (entry.frame ++ rest) =
      readEntries fromSlice damaged (fun _ => true) fuel (state.visit entry) rest := by
  obtain ⟨first, size, framed, three, sized⟩ := frame_eq entry
  have short : entry.encodedHeader.length < 2 ^ 32 := lt_of_le_of_lt fits (by decide)
  have known := reads entry.header (lt_trans entry.length_lt (by decide))
  rw [framed, List.cons_append, readEntries]
  have turn : readEntry fromSlice damaged (fun _ => true) state first
      (size ++ (entry.encodedHeader ++ entry.contents) ++ rest) =
        .ok (state.visit entry, rest) := by
    have ended : entry.encodedHeader.getLast? = some newline := by
      simp [EvidenceArchiveEntry.encodedHeader]
    have before : entry.encodedHeader.dropLast = entry.header.toVec := by
      simp [EvidenceArchiveEntry.encodedHeader]
    have parsed : parseHeader fromSlice entry.encodedHeader.dropLast = .ok entry.header := by
      rw [before, parseHeader, known]
    unfold readEntry
    rw [List.append_assoc, List.append_assoc, ← three]
    refine bind_of_eq_ok (readExactOrTruncated_append damaged _ size _) ?_
    simp only [sized short]
    refine bind_of_eq_ok (refuseIf_neg (Nat.ne_of_gt (encodedHeader_pos entry))) ?_
    refine bind_of_eq_ok (refuseIf_neg (Nat.not_lt.mpr fits)) ?_
    refine bind_of_eq_ok (readExactOrTruncated_append damaged _ entry.encodedHeader _) ?_
    refine bind_of_eq_ok (refuseIf_neg (not_not.mpr ended)) ?_
    refine bind_of_eq_ok parsed ?_
    refine bind_of_eq_ok (refuseIf_neg (not_not.mpr rfl)) ?_
    refine bind_of_eq_ok (refuseIf_neg valid) ?_
    refine bind_of_eq_ok (refuseUnordered_of_follows follows) ?_
    rw [if_pos trivial]
    exact bind_of_eq_ok (readToEnd_append damaged entry rest) rfl
  rw [turn]
  rfl

theorem readEntries_longHeader {entry : EvidenceArchiveEntry}
    (long : maxEntryHeaderBytes < entry.encodedHeader.length)
    (short : entry.encodedHeader.length < 2 ^ 32) (state : ReaderState) (fuel : Nat)
    (rest : List UInt8) :
    readEntries fromSlice damaged (fun _ => true) (fuel + 1) state (entry.frame ++ rest) =
      .refused (.invalidHeader "header is too large") := by
  obtain ⟨first, size, framed, three, sized⟩ := frame_eq entry
  rw [framed, List.cons_append, readEntries]
  have turn : readEntry fromSlice damaged (fun _ => true) state first
      (size ++ (entry.encodedHeader ++ entry.contents) ++ rest) =
        .refused (.invalidHeader "header is too large") := by
    unfold readEntry
    rw [List.append_assoc, ← three]
    refine bind_of_eq_ok (readExactOrTruncated_append damaged _ size _) ?_
    simp only [sized short]
    refine bind_of_eq_ok (refuseIf_neg (Nat.ne_of_gt (encodedHeader_pos entry))) ?_
    rw [refuseIf_pos long]
    rfl
  rw [turn]
  rfl

def ReaderState.visitAll (state : ReaderState) (entries : List EvidenceArchiveEntry) :
    ReaderState :=
  entries.foldl ReaderState.visit state

theorem visitAll_entries (state : ReaderState) (entries : List EvidenceArchiveEntry) :
    (state.visitAll entries).entries = state.entries ++ entries := by
  induction entries generalizing state with
  | nil => simp [ReaderState.visitAll]
  | cons entry entries ih =>
    have step := ih (state.visit entry)
    simpa [ReaderState.visitAll, ReaderState.visit] using step

theorem mem_visitAll_seen (state : ReaderState) (entries : List EvidenceArchiveEntry)
    (path : String) :
    path ∈ (state.visitAll entries).seen ↔
      path ∈ state.seen ∨ ∃ entry ∈ entries, entry.path = path := by
  induction entries generalizing state with
  | nil => simp [ReaderState.visitAll]
  | cons entry entries ih =>
    have step := ih (state.visit entry)
    simp only [ReaderState.visitAll, List.foldl_cons] at step ⊢
    rw [step]
    simp only [ReaderState.visit, Finset.mem_insert, List.exists_mem_cons_iff]
    tauto

theorem follows_visit {state : ReaderState} {entry next : EvidenceArchiveEntry}
    (less : entry.path < next.path) : Follows (state.visit entry) next := by
  intro previous same
  simp only [ReaderState.visit, Option.mem_def, Option.some.injEq] at same
  rw [← same]
  exact less

theorem readEntries_frames (reads : ReadsHeaders fromSlice) {entries : List EvidenceArchiveEntry}
    (short : ∀ entry ∈ entries, entry.encodedHeader.length < 2 ^ 32)
    (valid : ∀ entry ∈ entries, ¬ invalidPath entry.path.toList) (increasing : Increasing entries)
    {state : ReaderState} (follows : ∀ entry ∈ entries, Follows state entry) {fuel : Nat}
    (enough : entries.length ≤ fuel) :
    readEntries fromSlice false (fun _ => true) fuel state
        (entries.flatMap EvidenceArchiveEntry.frame) =
      if ∀ entry ∈ entries, entry.encodedHeader.length ≤ maxEntryHeaderBytes then
        .ok (state.visitAll entries)
      else .refused (.invalidHeader "header is too large") := by
  induction entries generalizing state fuel with
  | nil => cases fuel <;> simp [readEntries, ReaderState.visitAll]
  | cons entry entries ih =>
    obtain ⟨before, increasing⟩ := List.pairwise_cons.mp increasing
    obtain ⟨fuel, rfl⟩ : ∃ less, fuel = less + 1 :=
      Nat.exists_eq_add_one.mpr (lt_of_lt_of_le (by simp) enough)
    rw [List.flatMap_cons]
    by_cases fits : entry.encodedHeader.length ≤ maxEntryHeaderBytes
    · rw [readEntries_frame reads fits (valid entry (by simp)) (follows entry (by simp)),
        ih (fun other member => short other (List.mem_cons_of_mem _ member))
          (fun other member => valid other (List.mem_cons_of_mem _ member)) increasing
          (fun other member => follows_visit (before other member))
          (by simpa using enough)]
      simp [fits, ReaderState.visitAll]
    · rw [readEntries_longHeader (not_le.mp fits) (short entry (by simp)), if_neg]
      intro all
      exact fits (all entry (by simp))

end Frames

section Archives

variable {fromSlice : List UInt8 → Option EntryHeader} {gzip : Gzip}
  {entries canonical : List EvidenceArchiveEntry} {published : Published}

/-- What the writer publishes for entries in their canonical order. -/
def publish (gzip : Gzip) (canonical : List EvidenceArchiveEntry) : Published :=
  let framed := evidenceArchiveMagic ++ canonical.flatMap EvidenceArchiveEntry.frame
  let file := gzip.compress framed
  { file := file
    metadata := {
      schemaVersion := evidenceArchiveSchemaVersion
      format := "framed+gzip"
      file := "evidence.raw.gz"
      files := canonical.length
      uncompressedBytes := framed.length
      compressedBytes := file.length } }

/-- Which entries the writer takes, and what it makes of them. -/
structure Written (gzip : Gzip) (entries : List EvidenceArchiveEntry) (published : Published) :
    Prop where
  frontend : ∃ entry ∈ entries, entry.path = "frontend.json"
  model : ∃ entry ∈ entries, entry.path = "coverage-model.json"
  manifest : ∃ entry ∈ entries, entry.path = "manifest.json"
  valid : ∀ entry ∈ entries, ¬ invalidPath entry.path.toList
  increasing : Increasing (entries.insertionSort pathLe)
  short : ∀ entry ∈ entries, entry.encodedHeader.length < 2 ^ 32
  published : published = publish gzip (entries.insertionSort pathLe)

theorem writeFramed_eq_ok {framed : List UInt8} :
    writeFramed entries = .ok framed ↔
      (∀ entry ∈ entries, entry.encodedHeader.length < 2 ^ 32) ∧
        framed = evidenceArchiveMagic ++ entries.flatMap EvidenceArchiveEntry.frame := by
  unfold writeFramed
  split
  · rename_i short
    simp only [ok.injEq, eq_comm]
    tauto
  · rename_i long
    simp only [reduceCtorEq, false_iff, not_and]
    exact fun short => absurd short long

theorem writeArchive_eq_ok :
    writeArchive gzip entries = .ok published ↔ Written gzip entries published := by
  simp only [writeArchive, bind_eq_ok, refuseIf_eq_ok, pure_eq, ok.injEq, not_forall, not_not,
    exists_prop, canonicalizeEntries_eq_ok, writeFramed_eq_ok]
  constructor
  · rintro ⟨_, frontend, _, model, _, ⟨rfl, valid, increasing, manifest⟩, _, ⟨short, rfl⟩, rfl⟩
    exact ⟨frontend, model, manifest, valid, increasing,
      fun entry member => short entry ((List.mem_insertionSort pathLe).mpr member), rfl⟩
  · rintro ⟨frontend, model, manifest, valid, increasing, short, rfl⟩
    exact ⟨⟨⟩, frontend, ⟨⟩, model, _, ⟨rfl, valid, increasing, manifest⟩, _,
      ⟨fun entry member => short entry ((List.mem_insertionSort pathLe).mp member), rfl⟩, rfl⟩

theorem length_le_flatMap_frame (entries : List EvidenceArchiveEntry) :
    entries.length ≤ (entries.flatMap EvidenceArchiveEntry.frame).length := by
  induction entries with
  | nil => simp
  | cons entry entries ih =>
    obtain ⟨first, size, framed, _⟩ := frame_eq entry
    rw [List.flatMap_cons, framed]
    simp only [List.length_cons, List.length_append]
    omega

theorem readArchive_publish (lossless : gzip.Lossless) (reads : ReadsHeaders fromSlice)
    (written : Written gzip entries published) :
    readArchive fromSlice gzip published.file =
      if ∀ entry ∈ entries, entry.encodedHeader.length ≤ maxEntryHeaderBytes then
        .ok (entries.insertionSort pathLe)
      else .refused (.invalidHeader "header is too large") := by
  have members : ∀ entry, entry ∈ entries.insertionSort pathLe ↔ entry ∈ entries :=
    fun entry => List.mem_insertionSort pathLe
  have looped := readEntries_frames reads
    (fun entry member => written.short entry ((members entry).mp member))
    (fun entry member => written.valid entry ((members entry).mp member)) written.increasing
    (fun entry _ => start_follows entry) (length_le_flatMap_frame (entries.insertionSort pathLe))
  simp only [members] at looped
  have opened : gzip.decompress published.file =
      { bytes := evidenceArchiveMagic ++
          (entries.insertionSort pathLe).flatMap EvidenceArchiveEntry.frame
        damaged := false
        trailing := [] } := by
    rw [written.published]
    exact lossless _
  unfold readArchive readArchiveSelected
  rw [opened]
  refine bind_of_eq_ok (readExactOrTruncated_append false _ evidenceArchiveMagic _) ?_
  refine bind_of_eq_ok (refuseIf_neg (not_not.mpr rfl)) ?_
  rw [readFramedEntries, looped]
  by_cases fits : ∀ entry ∈ entries, entry.encodedHeader.length ≤ maxEntryHeaderBytes
  · have seen : ∀ path, (∃ entry ∈ entries, entry.path = path) →
        ¬ path ∉ (ReaderState.start.visitAll (entries.insertionSort pathLe)).seen := by
      intro path ⟨entry, member, named⟩
      rw [not_not, mem_visitAll_seen]
      exact Or.inr ⟨entry, (members entry).mpr member, named⟩
    rw [if_pos fits, if_pos fits]
    simp only [ok_bind, refuseIf_neg (seen _ written.manifest),
      refuseIf_neg (seen _ written.frontend), refuseIf_neg (seen _ written.model), pure_eq,
      visitAll_entries]
    rfl
  · rw [if_neg fits, if_neg fits]
    rfl

/-- A list is read back as it is: the entries written, in the order of their
paths. -/
def RoundTrips (fromSlice : List UInt8 → Option EntryHeader) (gzip : Gzip)
    (entries : List EvidenceArchiveEntry) (published : Published) : Prop :=
  ∃ returned, readArchive fromSlice gzip published.file = .ok returned ∧
    returned.Perm entries ∧ Increasing returned

/-- Every order of the entries gives the same framed bytes. -/
def OrderIrrelevant (entries : List EvidenceArchiveEntry) : Prop :=
  ∀ permuted : List EvidenceArchiveEntry, permuted.Perm entries →
    (canonicalizeEntries permuted >>= writeFramed) = (canonicalizeEntries entries >>= writeFramed)

theorem Written.orderIrrelevant (written : Written gzip entries published) :
    OrderIrrelevant entries := by
  intro permuted same
  have sorted := insertionSort_eq_of_perm written.increasing same
  have canonical : canonicalizeEntries entries = .ok (entries.insertionSort pathLe) :=
    canonicalizeEntries_eq_ok.mpr ⟨rfl, written.valid, written.increasing, written.manifest⟩
  have permuted_canonical : canonicalizeEntries permuted = .ok (entries.insertionSort pathLe) := by
    rw [canonicalizeEntries_eq_ok, sorted]
    simp only [same.mem_iff]
    exact ⟨trivial, written.valid, written.increasing, written.manifest⟩
  rw [canonical, permuted_canonical]

/-- For entries that the writer accepts. -/
theorem writeArchive_roundTrips_iff (lossless : gzip.Lossless) (reads : ReadsHeaders fromSlice)
    (accepted : writeArchive gzip entries = .ok published) :
    (RoundTrips fromSlice gzip entries published ∧ OrderIrrelevant entries) ↔
      ∀ entry ∈ entries, entry.encodedHeader.length ≤ maxEntryHeaderBytes := by
  have written := writeArchive_eq_ok.mp accepted
  have readBack := readArchive_publish lossless reads written
  constructor
  · intro ⟨⟨returned, succeeds, _⟩, _⟩
    by_contra long
    rw [readBack, if_neg long] at succeeds
    cases succeeds
  · intro fits
    rw [if_pos fits] at readBack
    exact ⟨⟨_, readBack, List.perm_insertionSort pathLe entries, written.increasing⟩,
      written.orderIrrelevant⟩

end Archives

/-- The canonical spelling of a header, read back. -/
def readHeader (bytes : List UInt8) : Option EntryHeader := do
  let text ← JsonText.readUtf8 bytes
  let rest ← JsonText.expect "\x7b\"path\":".toList text
  let (path, rest) ← JsonText.unquote rest
  let rest ← JsonText.expect ",\"bytes\":".toList rest
  let (size, rest) ← JsonText.readNumber rest
  if rest = ['\x7d'] then some { path := String.ofList path, bytes := size } else none

theorem readHeader_reads : ReadsHeaders readHeader := by
  intro header _
  have ends : ∀ c ∈ ['\x7d'].head?, c.isDigit = false := by simp
  unfold readHeader EntryHeader.toVec EntryHeader.toText
  simp only [JsonText.readUtf8_utf8, JsonText.expect_append, JsonText.unquote_quote,
    JsonText.readNumber_number _ ends, Option.bind_eq_bind, Option.bind_some, if_true,
    String.ofList_toList]

def storedGzip : Gzip where
  compress := id
  decompress bytes := { bytes := bytes, damaged := false, trailing := [] }

theorem storedGzip_lossless : storedGzip.Lossless := fun _ => rfl

def emptyEntry (path : String) : EvidenceArchiveEntry :=
  { path := path, contents := [], length_lt := by simp }

def requiredEntries : List EvidenceArchiveEntry :=
  [emptyEntry "manifest.json", emptyEntry "frontend.json", emptyEntry "coverage-model.json"]

theorem requiredEntries_roundTrips :
    ∃ published, writeArchive storedGzip requiredEntries = .ok published ∧
      RoundTrips readHeader storedGzip requiredEntries published ∧
      OrderIrrelevant requiredEntries := by
  have written : Written storedGzip requiredEntries
      (publish storedGzip (requiredEntries.insertionSort pathLe)) :=
    { frontend := by simp [requiredEntries, emptyEntry]
      model := by simp [requiredEntries, emptyEntry]
      manifest := by simp [requiredEntries, emptyEntry]
      valid := by decide
      increasing := increasing_of_nodup (by decide)
      short := by decide +kernel
      published := rfl }
  have accepted := writeArchive_eq_ok.mpr written
  exact ⟨_, accepted, (writeArchive_roundTrips_iff storedGzip_lossless readHeader_reads accepted).mpr
    (by decide +kernel)⟩

def longPath : String := String.ofList (List.replicate 70000 'z')

def longEntries : List EvidenceArchiveEntry := emptyEntry longPath :: requiredEntries

theorem longPath_toList : longPath.toList = List.replicate 70000 'z' := String.toList_ofList

theorem longPath_valid : ¬ invalidPath longPath.toList := by
  have only : ∀ c ∈ longPath.toList, c = 'z' := by
    intro c member
    rw [longPath_toList] at member
    exact List.eq_of_mem_replicate member
  have some_ : longPath.toList ≠ [] := by
    apply List.ne_nil_of_length_pos
    rw [longPath_toList, List.length_replicate]
    decide
  have whole : longPath.toList.splitOn '/' = [longPath.toList] := by
    apply List.splitOnP_eq_singleton
    intro c member
    rw [only c member]
    rfl
  have absent : ∀ c ≠ 'z', c ∉ longPath.toList := fun c other member => other (only c member)
  unfold invalidPath
  rw [whole]
  intro refused
  rcases refused with empty | first | last | backslash | nul | part
  · exact some_ empty
  · exact absent '/' (by decide) (List.mem_of_head? first)
  · exact absent '/' (by decide) (List.mem_of_getLast? last)
  · exact absent _ (by decide) backslash
  · exact absent _ (by decide) nul
  · obtain ⟨part, member, relative⟩ := part
    rw [List.mem_singleton.mp member] at relative
    rcases relative with empty | one | two
    · exact some_ empty
    · exact absent '.' (by decide) (by simp [one])
    · exact absent '.' (by decide) (by simp [two])

theorem length_toText (header : EntryHeader) :
    header.toText.length = 8 + ((JsonText.quote header.path.toList).length +
      (9 + ((JsonText.number header.bytes).length + 1))) := by
  have opening : "\x7b\"path\":".toList.length = 8 := by simp
  have middle : ",\"bytes\":".toList.length = 9 := by simp
  unfold EntryHeader.toText
  rw [List.length_append, List.length_append, List.length_append, List.length_append,
    List.length_singleton, opening, middle]

theorem encodedHeader_bounds (entry : EvidenceArchiveEntry) :
    entry.path.length < entry.encodedHeader.length ∧
      entry.encodedHeader.length ≤
        24 * entry.path.length + 4 * (JsonText.number entry.contents.length).length + 81 := by
  have low := JsonText.length_le_utf8 entry.header.toText
  have high := JsonText.length_utf8_le entry.header.toText
  have quoted := JsonText.length_quote entry.path.toList
  have spelled := length_toText entry.header
  have counted : entry.path.toList.length = entry.path.length := String.length_toList
  have encoded : entry.encodedHeader.length = (JsonText.utf8 entry.header.toText).length + 1 := by
    simp [EvidenceArchiveEntry.encodedHeader, EntryHeader.toVec]
  simp only [EvidenceArchiveEntry.header] at low high spelled encoded
  omega

theorem longPath_length : longPath.length = 70000 := by
  rw [← String.length_toList, longPath_toList, List.length_replicate]

theorem longHeader_length :
    maxEntryHeaderBytes < (emptyEntry longPath).encodedHeader.length ∧
      (emptyEntry longPath).encodedHeader.length < 2 ^ 32 := by
  obtain ⟨low, high⟩ := encodedHeader_bounds (emptyEntry longPath)
  have same : (emptyEntry longPath).path.length = 70000 := longPath_length
  have digits : (JsonText.number (emptyEntry longPath).contents.length).length = 1 := rfl
  rw [same] at low
  rw [same, digits] at high
  exact ⟨lt_trans (by decide) low, lt_of_le_of_lt high (by decide)⟩

/-- The writer accepts an entry whose header the reader refuses. -/
theorem longPath_refused :
    ∃ published, writeArchive storedGzip longEntries = .ok published ∧
      readArchive readHeader storedGzip published.file =
        .refused (.invalidHeader "header is too large") := by
  have distinct : (longEntries.map EvidenceArchiveEntry.path).Nodup := by
    apply List.nodup_cons.mpr
    refine ⟨?_, by decide⟩
    intro member
    have short : ∀ path ∈ requiredEntries.map EvidenceArchiveEntry.path, path.length < 70000 := by
      decide
    have less := short longPath member
    rw [longPath_length] at less
    exact lt_irrefl _ less
  have written : Written storedGzip longEntries
      (publish storedGzip (longEntries.insertionSort pathLe)) :=
    { frontend := by simp [longEntries, requiredEntries, emptyEntry]
      model := by simp [longEntries, requiredEntries, emptyEntry]
      manifest := by simp [longEntries, requiredEntries, emptyEntry]
      valid := List.forall_mem_cons.mpr ⟨longPath_valid, by decide⟩
      increasing := increasing_of_nodup distinct
      short := List.forall_mem_cons.mpr ⟨longHeader_length.2, by decide +kernel⟩
      published := rfl }
  refine ⟨_, writeArchive_eq_ok.mpr written, ?_⟩
  rw [readArchive_publish storedGzip_lossless readHeader_reads written, if_neg]
  intro fits
  exact absurd (fits (emptyEntry longPath) (by simp [longEntries])) (not_le.mpr longHeader_length.1)

end Supercov.Archive
