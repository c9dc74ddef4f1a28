import Supercov.Archive.RoundTrip

/-!
# The archive reader accepts what the writer can write

The reader's loop takes the frames of entries off the front, and nothing else.  One
that keeps only some of the entries skips the payloads of the others, and ends as the
one that keeps them all.
-/

namespace Supercov.Archive

open Outcome

/-- Bytes as a slice or a vector can hold them. -/
structure ByteString where
  bytes : List UInt8
  length_lt : bytes.length < 2 ^ 63

structure Framing (entries : List EvidenceArchiveEntry) (input : List UInt8) : Prop where
  framed : writeFramed entries = .ok (evidenceArchiveMagic ++ input)
  valid : ∀ entry ∈ entries, ¬ invalidPath entry.path.toList
  increasing : Increasing entries
  fits : ∀ entry ∈ entries, entry.encodedHeader.length ≤ maxEntryHeaderBytes
  manifest : ∃ entry ∈ entries, entry.path = "manifest.json"
  frontend : ∃ entry ∈ entries, entry.path = "frontend.json"
  model : ∃ entry ∈ entries, entry.path = "coverage-model.json"

section Taken

variable {fromSlice : List UInt8 → Option EntryHeader} {damaged : Bool}

theorem readExactOrTruncated_eq_ok {count : Nat} {part : String}
    {input front rest : List UInt8} :
    readExactOrTruncated damaged count part input = .ok (front, rest) ↔
      input = front ++ rest ∧ front.length = count := by
  unfold readExactOrTruncated
  constructor
  · intro taken
    split at taken
    · next enough =>
      cases taken
      exact ⟨(List.take_append_drop count input).symm, List.length_take_of_le enough⟩
    · split at taken <;> cases taken
  · rintro ⟨rfl, rfl⟩
    simp

theorem readToEnd_eq_ok {path : String} {limit : Nat} {input rest : List UInt8}
    {entry : EvidenceArchiveEntry} :
    readToEnd damaged path limit input = .ok (entry, rest) ↔
      entry.path = path ∧ entry.contents.length = limit ∧ input = entry.contents ++ rest := by
  constructor
  · intro taken
    unfold readToEnd at taken
    split at taken
    · split at taken <;> cases taken
    · next enough =>
      split at taken
      · cases taken
        exact ⟨rfl, List.length_take_of_le (not_lt.mp enough),
          (List.take_append_drop limit input).symm⟩
      · cases taken
  · rintro ⟨rfl, rfl, rfl⟩
    exact readToEnd_append damaged entry rest

theorem refuseUnordered_eq_ok {state : ReaderState} {entry : EvidenceArchiveEntry} {done : PUnit} :
    refuseUnordered state.previous entry.path = .ok done ↔ Follows state entry := by
  constructor
  · intro passes previous before
    rw [Option.mem_def] at before
    rw [before] at passes
    simp only [refuseUnordered, bind_eq_ok, refuseIf_eq_ok] at passes
    obtain ⟨_, other, notLess⟩ := passes
    exact lt_of_le_of_ne (not_lt.mp notLess) other
  · intro follows
    exact refuseUnordered_of_follows follows

theorem frame_of_readEntry {state after : ReaderState} {first : UInt8} {input rest : List UInt8}
    (turn : readEntry fromSlice damaged (fun _ => true) state first input = .ok (after, rest)) :
    ∃ entry : EvidenceArchiveEntry, first :: input = entry.frame ++ rest ∧
      ¬ invalidPath entry.path.toList ∧ entry.encodedHeader.length ≤ maxEntryHeaderBytes ∧
      Follows state entry ∧ after = state.visit entry := by
  unfold readEntry at turn
  obtain ⟨⟨size, afterSize⟩, sizeTaken, turn⟩ := bind_eq_ok.mp turn
  obtain ⟨_, _, turn⟩ := bind_eq_ok.mp turn
  obtain ⟨_, capped, turn⟩ := bind_eq_ok.mp turn
  obtain ⟨⟨encoded, afterHeader⟩, headerTaken, turn⟩ := bind_eq_ok.mp turn
  obtain ⟨_, _, turn⟩ := bind_eq_ok.mp turn
  obtain ⟨header, _, turn⟩ := bind_eq_ok.mp turn
  obtain ⟨_, canonical, turn⟩ := bind_eq_ok.mp turn
  obtain ⟨_, valid, turn⟩ := bind_eq_ok.mp turn
  obtain ⟨_, ordered, turn⟩ := bind_eq_ok.mp turn
  dsimp only at turn
  rw [if_pos rfl] at turn
  obtain ⟨⟨entry, afterPayload⟩, payloadTaken, ended⟩ := bind_eq_ok.mp turn
  clear turn
  obtain ⟨rfl, three⟩ := readExactOrTruncated_eq_ok.mp sizeTaken
  obtain ⟨rfl, sized⟩ := readExactOrTruncated_eq_ok.mp headerTaken
  obtain ⟨named, counted, rfl⟩ := readToEnd_eq_ok.mp payloadTaken
  rw [refuseIf_eq_ok, not_not] at canonical
  have ownHeader : entry.header = header := by
    cases header
    simp only [EvidenceArchiveEntry.header, named, counted]
  have spelled : entry.encodedHeader = encoded := by
    rw [canonical, EvidenceArchiveEntry.encodedHeader, ownHeader]
  have length_ : Bytes.writeBE 4 entry.encodedHeader.length = first :: size := by
    have four : (first :: size).length = 4 := by rw [List.length_cons, three]
    have back := Bytes.writeBE_readBE (first :: size)
    rw [four] at back
    rw [spelled, sized, back]
  have framed : first :: (size ++ (encoded ++ (entry.contents ++ afterPayload))) =
      entry.frame ++ afterPayload := by
    rw [EvidenceArchiveEntry.frame, length_, spelled]
    simp only [List.cons_append, List.append_assoc]
  have after_ : after = state.visit entry ∧ rest = afterPayload := by
    rw [pure_eq, Outcome.ok.injEq, Prod.mk.injEq] at ended
    rw [← ended.1, ← ended.2, ReaderState.visit, named]
    exact ⟨rfl, rfl⟩
  obtain ⟨rfl, rfl⟩ := after_
  refine ⟨entry, framed, ?_, ?_, ?_, rfl⟩
  · rw [named]
    exact refuseIf_eq_ok.mp valid
  · rw [spelled, sized]
    exact not_lt.mp (refuseIf_eq_ok.mp capped)
  · rw [← named] at ordered
    exact refuseUnordered_eq_ok.mp ordered

theorem frames_of_readEntries {fuel : Nat} {state after : ReaderState} {input : List UInt8}
    (looped : readEntries fromSlice damaged (fun _ => true) fuel state input = .ok after) :
    ∃ entries : List EvidenceArchiveEntry, input = entries.flatMap EvidenceArchiveEntry.frame ∧
      (∀ entry ∈ entries, ¬ invalidPath entry.path.toList) ∧
      (∀ entry ∈ entries, entry.encodedHeader.length ≤ maxEntryHeaderBytes) ∧
      Increasing entries ∧ (∀ entry ∈ entries, Follows state entry) ∧
      after = state.visitAll entries := by
  induction fuel generalizing state input with
  | zero =>
    cases input with
    | nil =>
      cases damaged <;> cases looped
      exact ⟨[], rfl, by simp, by simp, List.Pairwise.nil, by simp, rfl⟩
    | cons first input => cases looped
  | succ fuel ih =>
    cases input with
    | nil =>
      cases damaged <;> cases looped
      exact ⟨[], rfl, by simp, by simp, List.Pairwise.nil, by simp, rfl⟩
    | cons first input =>
      rw [readEntries] at looped
      obtain ⟨⟨next, rest⟩, turn, looped⟩ := bind_eq_ok.mp looped
      obtain ⟨entry, framed, valid, fits, follows, rfl⟩ := frame_of_readEntry turn
      obtain ⟨entries, rfl, allValid, allFit, increasing, later, rfl⟩ := ih looped
      have less : ∀ other ∈ entries, entry.path < other.path := fun other member =>
        later other member entry.path rfl
      refine ⟨entry :: entries, ?_, ?_, ?_, ?_, ?_, rfl⟩
      · rw [framed, List.flatMap_cons]
      · exact List.forall_mem_cons.mpr ⟨valid, allValid⟩
      · exact List.forall_mem_cons.mpr ⟨fits, allFit⟩
      · exact List.pairwise_cons.mpr ⟨less, increasing⟩
      · refine List.forall_mem_cons.mpr ⟨follows, fun other member previous before => ?_⟩
        exact lt_trans (follows previous before) (less other member)

end Taken

section Selected

variable (retain : String → Bool)

structure Selects (full kept : ReaderState) : Prop where
  seen : kept.seen = full.seen
  previous : kept.previous = full.previous
  entries : kept.entries = full.entries.filter fun entry => retain entry.path

variable {retain} {fromSlice : List UInt8 → Option EntryHeader} {damaged : Bool}

theorem discardPayload_eq {buffer fuel remaining : Nat} {input : List UInt8}
    (some_ : 0 < remaining → 0 < buffer) (enough : remaining ≤ fuel) :
    discardPayload damaged buffer fuel remaining input =
      if remaining ≤ input.length then .ok (input.drop remaining)
      else if damaged then .refused .io else .refused (.truncated "payload") := by
  induction fuel generalizing remaining input with
  | zero =>
    rw [Nat.le_zero.mp enough]
    simp [discardPayload]
  | succ fuel ih =>
    cases remaining with
    | zero => simp [discardPayload]
    | succ remaining =>
      have positive := some_ (Nat.succ_pos remaining)
      set piece := min (remaining + 1) buffer with pieceDef
      have pieceLe : piece ≤ remaining + 1 := Nat.min_le_left ..
      have piecePos : 0 < piece := by omega
      simp only [discardPayload, ← pieceDef]
      unfold readExactOrTruncated
      by_cases whole : piece ≤ input.length
      · rw [if_pos whole, ok_bind]
        simp only
        rw [ih (fun _ => positive) (by omega), List.length_drop, List.drop_drop]
        have sum : piece + (remaining + 1 - piece) = remaining + 1 := by omega
        have lengths : remaining + 1 - piece ≤ input.length - piece ↔
            remaining + 1 ≤ input.length := by omega
        rw [sum]
        simp only [lengths]
      · have less : ¬ remaining + 1 ≤ input.length := by omega
        rw [if_neg whole, if_neg less]
        cases damaged <;> rfl

theorem readToEnd_agrees {path : String} {limit buffer : Nat} {input : List UInt8}
    (some_ : 0 < limit → 0 < buffer) (short : input.length < 2 ^ 63) :
    (readToEnd damaged path limit input).Agrees
      (fun taken rest => taken.1.path = path ∧ rest = taken.2 ∧ rest.length ≤ input.length)
      (discardPayload damaged buffer limit limit input) := by
  rw [discardPayload_eq some_ le_rfl]
  unfold readToEnd
  have fits : (input.take limit).length < 2 ^ 63 :=
    lt_of_le_of_lt (List.length_take_le' _ _) short
  by_cases enough : limit ≤ input.length
  · rw [if_neg (not_lt.mpr enough), dif_pos fits, if_pos enough]
    refine ⟨rfl, rfl, ?_⟩
    rw [List.length_drop]
    omega
  · rw [if_pos (not_le.mp enough), if_neg enough]
    cases damaged <;> exact rfl

theorem readEntry_agrees {full kept : ReaderState} (selects : Selects retain full kept)
    {first : UInt8} {input : List UInt8} (short : input.length < 2 ^ 63) :
    (readEntry fromSlice damaged (fun _ => true) full first input).Agrees
      (fun taken taken' => Selects retain taken.1 taken'.1 ∧ taken'.2 = taken.2 ∧
        taken.2.length ≤ input.length)
      (readEntry fromSlice damaged retain kept first input) := by
  unfold readEntry
  apply Agrees.bind_left
  rintro ⟨size, afterSize⟩ sizeTaken
  apply Agrees.bind_left
  intro _ _
  apply Agrees.bind_left
  intro _ _
  apply Agrees.bind_left
  rintro ⟨encoded, afterHeader⟩ headerTaken
  apply Agrees.bind_left
  intro _ _
  apply Agrees.bind_left
  intro header _
  apply Agrees.bind_left
  intro _ _
  apply Agrees.bind_left
  intro _ _
  rw [selects.previous]
  apply Agrees.bind_left
  intro _ _
  obtain ⟨rfl, -⟩ := readExactOrTruncated_eq_ok.mp sizeTaken
  obtain ⟨rfl, -⟩ := readExactOrTruncated_eq_ok.mp headerTaken
  have shorter : afterHeader.length < 2 ^ 63 := by
    simp only [List.length_append] at short
    omega
  dsimp only
  rw [if_pos rfl]
  by_cases keeps : retain header.path = true
  · rw [if_pos keeps]
    apply Agrees.bind_left
    rintro ⟨entry, rest⟩ taken
    obtain ⟨named, -, rfl⟩ := readToEnd_eq_ok.mp taken
    have own : [entry].filter (fun entry => retain entry.path) = [entry] := by
      rw [List.filter_singleton, named, keeps]
      rfl
    refine ⟨⟨?_, rfl, ?_⟩, rfl, ?_⟩
    · simp only [selects.seen]
    · simp only [selects.entries, List.filter_append, own]
    · simp only [List.length_append]
      omega
  · rw [if_neg keeps]
    have positive : 0 < header.bytes →
        0 < max kept.discarded (min header.bytes (256 * 1024)) := by omega
    refine Agrees.bind (readToEnd_agrees positive shorter) ?_
    rintro ⟨entry, rest⟩ _ ⟨named, rfl, less⟩
    have other : [entry].filter (fun entry => retain entry.path) = [] := by
      rw [List.filter_singleton, named, Bool.eq_false_iff.mpr keeps]
      rfl
    refine ⟨⟨?_, rfl, ?_⟩, rfl, ?_⟩
    · simp only [selects.seen]
    · simp only [selects.entries, List.filter_append, other, List.append_nil]
    · simp only [List.length_append]
      omega

theorem readEntries_agrees {fuel : Nat} {full kept : ReaderState}
    (selects : Selects retain full kept) {input : List UInt8} (short : input.length < 2 ^ 63) :
    (readEntries fromSlice damaged (fun _ => true) fuel full input).Agrees (Selects retain)
      (readEntries fromSlice damaged retain fuel kept input) := by
  induction fuel generalizing full kept input with
  | zero =>
    cases input with
    | nil =>
      cases damaged
      · exact selects
      · exact rfl
    | cons first input => trivial
  | succ fuel ih =>
    cases input with
    | nil =>
      cases damaged
      · exact selects
      · exact rfl
    | cons first input =>
      rw [readEntries, readEntries]
      rw [List.length_cons] at short
      refine Agrees.bind (readEntry_agrees selects (by omega)) ?_
      rintro ⟨next, rest⟩ ⟨next', _⟩ ⟨selects', rfl, less⟩
      exact ih selects' (lt_of_le_of_lt less (by omega))

end Selected

section Exact

variable {fromSlice : List UInt8 → Option EntryHeader}

theorem readFramedEntries_selected (damaged : Bool) (retain : String → Bool)
    (input : ByteString) :
    readFramedEntries fromSlice damaged retain input.bytes = (do
      let entries ← readFramedEntries fromSlice damaged (fun _ => true) input.bytes
      .ok (entries.filter fun entry => retain entry.path)) := by
  apply Agrees.eq_bind
  have start : Selects retain .start .start := ⟨rfl, rfl, rfl⟩
  refine Agrees.bind (readEntries_agrees start input.length_lt) ?_
  intro full kept selects
  rw [selects.seen]
  apply Agrees.bind_left
  intro _ _
  apply Agrees.bind_left
  intro _ _
  apply Agrees.bind_left
  intro _ _
  exact selects.entries

theorem framing_of_read {entries : List EvidenceArchiveEntry} {input : List UInt8}
    (read : readFramedEntries fromSlice false (fun _ => true) input = .ok entries) :
    Framing entries input := by
  obtain ⟨state, looped, read⟩ := bind_eq_ok.mp read
  obtain ⟨_, manifest, read⟩ := bind_eq_ok.mp read
  obtain ⟨_, frontend, read⟩ := bind_eq_ok.mp read
  obtain ⟨_, model, read⟩ := bind_eq_ok.mp read
  obtain ⟨taken, rfl, valid, fits, increasing, -, rfl⟩ := frames_of_readEntries looped
  have kept : entries = taken := by
    have all := visitAll_entries .start taken
    rw [pure_eq, Outcome.ok.injEq] at read
    rw [← read, all]
    rfl
  subst kept
  have held (path : String) (seen : path ∈ (ReaderState.start.visitAll entries).seen) :
      ∃ entry ∈ entries, entry.path = path := by
    rcases (mem_visitAll_seen _ _ _).mp seen with before | found
    · exact absurd before (Finset.notMem_empty path)
    · exact found
  rw [refuseIf_eq_ok, not_not] at manifest frontend model
  have short : ∀ entry ∈ entries, entry.encodedHeader.length < 2 ^ 32 := fun entry member =>
    lt_of_le_of_lt (fits entry member) (by decide)
  exact
    { framed := writeFramed_eq_ok.mpr ⟨short, rfl⟩
      valid := valid
      increasing := increasing
      fits := fits
      manifest := held _ manifest
      frontend := held _ frontend
      model := held _ model }

theorem Framing.read (reads : ReadsHeaders fromSlice) {entries : List EvidenceArchiveEntry}
    {input : List UInt8} (framing : Framing entries input) :
    readFramedEntries fromSlice false (fun _ => true) input = .ok entries := by
  obtain ⟨short, framed⟩ := writeFramed_eq_ok.mp framing.framed
  have same := List.append_cancel_left framed
  subst same
  have looped := readEntries_frames reads short framing.valid framing.increasing
    (fun entry _ => start_follows entry) (length_le_flatMap_frame entries)
  rw [if_pos framing.fits] at looped
  have seen (path : String) (held : ∃ entry ∈ entries, entry.path = path) :
      ¬ path ∉ (ReaderState.start.visitAll entries).seen := by
    rw [not_not, mem_visitAll_seen]
    exact Or.inr held
  rw [readFramedEntries, looped]
  simp only [ok_bind, refuseIf_neg (seen _ framing.manifest), refuseIf_neg (seen _ framing.frontend),
    refuseIf_neg (seen _ framing.model), pure_eq, visitAll_entries]
  rfl

/-- The reader takes the bytes the writer frames, and no others; one that keeps some of
the entries takes the same bytes and keeps those of them. -/
theorem readFramedEntries_exact (reads : ReadsHeaders fromSlice) (input : ByteString) :
    (∀ entries, readFramedEntries fromSlice false (fun _ => true) input.bytes = .ok entries ↔
      Framing entries input.bytes) ∧
    ∀ retain, readFramedEntries fromSlice false retain input.bytes = (do
      let entries ← readFramedEntries fromSlice false (fun _ => true) input.bytes
      .ok (entries.filter fun entry => retain entry.path)) :=
  ⟨fun _ => ⟨framing_of_read, fun framing => framing.read reads⟩,
    fun retain => readFramedEntries_selected false retain input⟩

def requiredFrames : ByteString where
  bytes := (requiredEntries.insertionSort pathLe).flatMap EvidenceArchiveEntry.frame
  length_lt := by decide +kernel

theorem requiredFrames_framing :
    Framing (requiredEntries.insertionSort pathLe) requiredFrames.bytes where
  framed := writeFramed_eq_ok.mpr ⟨by decide +kernel, rfl⟩
  valid := by decide +kernel
  increasing := increasing_of_nodup (by decide)
  fits := by decide +kernel
  manifest := by decide +kernel
  frontend := by decide +kernel
  model := by decide +kernel

theorem requiredFrames_exact :
    readFramedEntries readHeader false (fun _ => true) requiredFrames.bytes =
        .ok (requiredEntries.insertionSort pathLe) ∧
      readFramedEntries readHeader false (· = "manifest.json") requiredFrames.bytes =
        .ok [emptyEntry "manifest.json"] := by
  obtain ⟨exact_, selected⟩ := readFramedEntries_exact readHeader_reads requiredFrames
  have whole := (exact_ _).mpr requiredFrames_framing
  refine ⟨whole, ?_⟩
  rw [selected, whole]
  decide +kernel

end Exact

end Supercov.Archive
