import Supercov.Library.Outcome
import Supercov.Library.Bytes
import Supercov.Library.JsonText
import Mathlib.Data.Finset.Insert
import Mathlib.Data.List.Sort
import Mathlib.Data.String.Basic

/-!
# The evidence archive

An archive is a magic line and one frame per entry, compressed: the length of
the entry's header, the header as one line of JSON, the payload.  The compressor
and the JSON reader are parameters.
-/

namespace Supercov.Archive

open Outcome

def evidenceArchiveMagic : List UInt8 := JsonText.utf8 "SUPERCOV-EVIDENCE-3\n".toList
def evidenceArchiveSchemaVersion : Nat := 3
def maxEntryHeaderBytes : Nat := 64 * 1024

/-- The byte that ends a header. -/
def newline : UInt8 := 10

inductive EvidenceArchiveError where
  | io
  | json
  | invalidMagic
  | invalidHeader (reason : String)
  | invalidPath (path : String)
  | duplicatePath (path : String)
  | unsortedPath (previous current : String)
  | missingManifest
  | missingFrontend
  | missingCoverageModel
  | truncated (part : String)
  | trailingCompressedData
  deriving DecidableEq, Repr

/-- A path and its bytes, of which a vector holds at most `isize::MAX`. -/
structure EvidenceArchiveEntry where
  path : String
  contents : List UInt8
  length_lt : contents.length < 2 ^ 63
  deriving DecidableEq

structure EvidenceArchiveMetadata where
  schemaVersion : Nat
  format : String
  file : String
  files : Nat
  uncompressedBytes : Nat
  compressedBytes : Nat
  deriving DecidableEq, Repr

structure EntryHeader where
  path : String
  bytes : Nat
  deriving DecidableEq, Repr

/-- `serde_json::to_vec` of a header. -/
def EntryHeader.toText (header : EntryHeader) : List Char :=
  "\x7b\"path\":".toList ++ (JsonText.quote header.path.toList ++
    (",\"bytes\":".toList ++ (JsonText.number header.bytes ++ ['\x7d'])))

def EntryHeader.toVec (header : EntryHeader) : List UInt8 := JsonText.utf8 header.toText

/-- Whether a path is refused: empty, absolute or ending in a slash, with a
backslash or a NUL, or with an empty or relative part. -/
def invalidPath (path : List Char) : Prop :=
  path = [] ∨ path.head? = some '/' ∨ path.getLast? = some '/' ∨ '\\' ∈ path ∨ '\x00' ∈ path ∨
    ∃ part ∈ path.splitOn '/', part = [] ∨ part = ['.'] ∨ part = ['.', '.']

instance (path : List Char) : Decidable (invalidPath path) := by
  unfold invalidPath
  infer_instance

def validateArchivePath (path : String) : Outcome EvidenceArchiveError PUnit :=
  refuseIf (invalidPath path.toList) (.invalidPath path)

section Writing

def pathLe (left right : EvidenceArchiveEntry) : Prop := left.path ≤ right.path

instance : DecidableRel pathLe := fun left right =>
  inferInstanceAs (Decidable (left.path ≤ right.path))

instance : Std.Total pathLe := ⟨fun left right => le_total left.path right.path⟩

instance : IsTrans EvidenceArchiveEntry pathLe :=
  ⟨fun first second third => le_trans (a := first.path) (b := second.path) (c := third.path)⟩

def firstDuplicate : List EvidenceArchiveEntry → Option String
  | first :: second :: rest =>
    if first.path = second.path then some first.path else firstDuplicate (second :: rest)
  | _ => none

def refuseDuplicate (entries : List EvidenceArchiveEntry) : Outcome EvidenceArchiveError PUnit :=
  match firstDuplicate entries with
  | some path => .refused (.duplicatePath path)
  | none => .ok ⟨⟩

def validatePaths (entries : List EvidenceArchiveEntry) : Outcome EvidenceArchiveError PUnit :=
  forEach (fun entry => validateArchivePath entry.path) entries

def canonicalizeEntries (entries : List EvidenceArchiveEntry) :
    Outcome EvidenceArchiveError (List EvidenceArchiveEntry) := do
  validatePaths entries
  let entries := entries.insertionSort pathLe
  refuseDuplicate entries
  refuseIf (∀ entry ∈ entries, entry.path ≠ "manifest.json") .missingManifest
  return entries

def EvidenceArchiveEntry.header (entry : EvidenceArchiveEntry) : EntryHeader :=
  { path := entry.path, bytes := entry.contents.length }

def EvidenceArchiveEntry.encodedHeader (entry : EvidenceArchiveEntry) : List UInt8 :=
  entry.header.toVec ++ [newline]

def EvidenceArchiveEntry.frame (entry : EvidenceArchiveEntry) : List UInt8 :=
  Bytes.writeBE 4 entry.encodedHeader.length ++ (entry.encodedHeader ++ entry.contents)

/-- `write_framed_with_magic` panics on a header of 4 GiB. -/
def writeFramed (entries : List EvidenceArchiveEntry) : Outcome EvidenceArchiveError (List UInt8) :=
  if ∀ entry ∈ entries, entry.encodedHeader.length < 2 ^ 32 then
    .ok (evidenceArchiveMagic ++ entries.flatMap EvidenceArchiveEntry.frame)
  else
    .crashed

/-- What the decoder makes of a file: the bytes of its first member, whether
decoding fails behind them, and the input behind the member. -/
structure Decoded where
  bytes : List UInt8
  damaged : Bool
  trailing : List UInt8

structure Gzip where
  compress : List UInt8 → List UInt8
  decompress : List UInt8 → Decoded

def Gzip.Lossless (gzip : Gzip) : Prop :=
  ∀ bytes, gzip.decompress (gzip.compress bytes) =
    { bytes := bytes, damaged := false, trailing := [] }

structure Published where
  file : List UInt8
  metadata : EvidenceArchiveMetadata

def writeArchive (gzip : Gzip) (entries : List EvidenceArchiveEntry) :
    Outcome EvidenceArchiveError Published := do
  refuseIf (∀ entry ∈ entries, entry.path ≠ "frontend.json") .missingFrontend
  refuseIf (∀ entry ∈ entries, entry.path ≠ "coverage-model.json") .missingCoverageModel
  let entries ← canonicalizeEntries entries
  let framed ← writeFramed entries
  let file := gzip.compress framed
  return {
    file := file
    metadata := {
      schemaVersion := evidenceArchiveSchemaVersion
      format := "framed+gzip"
      file := "evidence.raw.gz"
      files := entries.length
      uncompressedBytes := framed.length
      compressedBytes := file.length
    }
  }

end Writing

section Reading

/-- What the reader keeps between entries; `discarded` is the length of the
buffer it skips payloads through. -/
structure ReaderState where
  seen : Finset String
  previous : Option String
  discarded : Nat
  entries : List EvidenceArchiveEntry

def ReaderState.start : ReaderState :=
  { seen := ∅, previous := none, discarded := 0, entries := [] }

variable (fromSlice : List UInt8 → Option EntryHeader) (damaged : Bool)
  (retain : String → Bool)

/-- `read_exact`: the bytes and those behind them. -/
def readExactOrTruncated (count : Nat) (part : String) (input : List UInt8) :
    Outcome EvidenceArchiveError (List UInt8 × List UInt8) :=
  if count ≤ input.length then .ok (input.take count, input.drop count)
  else if damaged then .refused .io
  else .refused (.truncated part)

/-- `take(limit).read_to_end`: a vector of more than `isize::MAX` bytes panics. -/
def readToEnd (path : String) (limit : Nat) (input : List UInt8) :
    Outcome EvidenceArchiveError (EvidenceArchiveEntry × List UInt8) :=
  if input.length < limit then
    if damaged then .refused .io else .refused (.truncated "payload")
  else if fits : (input.take limit).length < 2 ^ 63 then
    .ok ({ path := path, contents := input.take limit, length_lt := fits }, input.drop limit)
  else .crashed

/-- Skips a payload through the buffer; the fuel is what remains, so a turn that
reads nothing would never end. -/
def discardPayload (buffer : Nat) : Nat → Nat → List UInt8 →
    Outcome EvidenceArchiveError (List UInt8)
  | _, 0, input => .ok input
  | 0, _ + 1, _ => .crashed
  | fuel + 1, remaining, input => do
    let length := min remaining buffer
    let (_, input) ← readExactOrTruncated damaged length "payload" input
    discardPayload buffer fuel (remaining - length) input

def refuseUnordered (previous : Option String) (current : String) :
    Outcome EvidenceArchiveError PUnit :=
  match previous with
  | none => .ok ⟨⟩
  | some previous => do
    refuseIf (previous = current) (.duplicatePath current)
    refuseIf (current < previous) (.unsortedPath previous current)

def parseHeader (encoded : List UInt8) : Outcome EvidenceArchiveError EntryHeader :=
  match fromSlice encoded with
  | some header => .ok header
  | none => .refused .json

/-- One turn of the loop of `read_framed_entries`, its first byte read. -/
def readEntry (state : ReaderState) (first : UInt8) (input : List UInt8) :
    Outcome EvidenceArchiveError (ReaderState × List UInt8) := do
  let (encodedSize, input) ← readExactOrTruncated damaged 3 "header length" input
  let headerSize := Bytes.readBE (first :: encodedSize)
  refuseIf (headerSize = 0) (.invalidHeader "empty header")
  refuseIf (headerSize > maxEntryHeaderBytes) (.invalidHeader "header is too large")
  let (encodedHeader, input) ← readExactOrTruncated damaged headerSize "header" input
  refuseIf (encodedHeader.getLast? ≠ some newline)
    (.invalidHeader "header is not newline terminated")
  let header ← parseHeader fromSlice encodedHeader.dropLast
  refuseIf (encodedHeader ≠ header.toVec ++ [newline])
    (.invalidHeader "header is not canonical JSON")
  validateArchivePath header.path
  refuseUnordered state.previous header.path
  let state := { state with
    seen := insert header.path state.seen
    previous := some header.path }
  if retain header.path then do
    let (entry, input) ← readToEnd damaged header.path header.bytes input
    return ({ state with entries := state.entries ++ [entry] }, input)
  else do
    let capacity := min header.bytes (256 * 1024)
    let buffer := max state.discarded capacity
    let input ← discardPayload damaged buffer header.bytes header.bytes input
    return ({ state with discarded := buffer }, input)

/-- The loop of `read_framed_entries`.  Every entry takes a byte, so the fuel, a
bound on the bytes, is never used up. -/
def readEntries : Nat → ReaderState → List UInt8 → Outcome EvidenceArchiveError ReaderState
  | _, state, [] => if damaged then .refused .io else .ok state
  | 0, _, _ :: _ => .crashed
  | fuel + 1, state, first :: input => do
    let (state, input) ← readEntry fromSlice damaged retain state first input
    readEntries fuel state input

def readFramedEntries (input : List UInt8) :
    Outcome EvidenceArchiveError (List EvidenceArchiveEntry) := do
  let state ← readEntries fromSlice damaged retain input.length .start input
  refuseIf ("manifest.json" ∉ state.seen) .missingManifest
  refuseIf ("frontend.json" ∉ state.seen) .missingFrontend
  refuseIf ("coverage-model.json" ∉ state.seen) .missingCoverageModel
  return state.entries

def readArchiveSelected (gzip : Gzip) (file : List UInt8) :
    Outcome EvidenceArchiveError (List EvidenceArchiveEntry) := do
  let decoded := gzip.decompress file
  let (magic, input) ← readExactOrTruncated decoded.damaged evidenceArchiveMagic.length "magic"
    decoded.bytes
  refuseIf (magic ≠ evidenceArchiveMagic) .invalidMagic
  let entries ← readFramedEntries fromSlice decoded.damaged retain input
  refuseIf (decoded.trailing ≠ []) .trailingCompressedData
  return entries

def readArchive (gzip : Gzip) (file : List UInt8) :
    Outcome EvidenceArchiveError (List EvidenceArchiveEntry) :=
  readArchiveSelected fromSlice (fun _ => true) gzip file

end Reading

end Supercov.Archive
