import Supercov.Library.JsonText
import Supercov.Library.Ordered
import Supercov.Library.Patch
import Supercov.Library.Runs
import Mathlib.Logic.Function.Basic

/-!
# The registry of built images

Each container creation records the image it starts in one file: it reads the file, adds its
image and writes the whole anew under a temporary name, which it then gives the file's own.
Every connection of the relay does so on a thread of its own, and all through the same two names.
-/

namespace Supercov.DockerProxy

/-- Which copy of the project each image was built from. -/
structure Registry where
  entries : List (List Char × List Char)
  ordered : Ordered.Sorted entries

namespace Registry

def empty : Registry := ⟨[], List.Pairwise.nil⟩

def get (registry : Registry) (id : List Char) : Option (List Char) :=
  Ordered.find id registry.entries

def insert (registry : Registry) (id fingerprint : List Char) : Registry :=
  ⟨Ordered.put id fingerprint registry.entries, registry.ordered.put id fingerprint⟩

end Registry

structure Format where
  encode : Registry → List UInt8
  decode : List UInt8 → Option Registry
  decode_encode : ∀ registry, decode (encode registry) = some registry

/-- `serde_json::to_vec_pretty` of a map of strings. -/
def prettyEntry (entry : List Char × List Char) : List Char :=
  "\n  ".toList ++ JsonText.quote entry.1 ++ ": ".toList ++ JsonText.quote entry.2

def prettyMore : List (List Char × List Char) → List Char
  | [] => "\n\x7d".toList
  | entry :: entries => ',' :: (prettyEntry entry ++ prettyMore entries)

def prettyText : List (List Char × List Char) → List Char
  | [] => "\x7b\x7d".toList
  | entry :: entries => '\x7b' :: (prettyEntry entry ++ prettyMore entries)

def readPrettyEntry (text : List Char) : Option ((List Char × List Char) × List Char) := do
  let text ← JsonText.expect "\n  ".toList text
  let (key, text) ← JsonText.unquote text
  let text ← JsonText.expect ": ".toList text
  let (value, text) ← JsonText.unquote text
  return ((key, value), text)

def readPrettyMore : Nat → List Char → Option (List (List Char × List Char))
  | 0, _ => none
  | fuel + 1, text =>
    if text = "\n\x7d".toList then some []
    else do
      let text ← JsonText.expect [','] text
      let (entry, text) ← readPrettyEntry text
      let entries ← readPrettyMore fuel text
      return entry :: entries

def readPretty (text : List Char) : Option (List (List Char × List Char)) :=
  if text = "\x7b\x7d".toList then some []
  else do
    let text ← JsonText.expect ['\x7b'] text
    let (entry, text) ← readPrettyEntry text
    let entries ← readPrettyMore (text.length + 1) text
    return entry :: entries

theorem readPrettyEntry_prettyEntry (entry : List Char × List Char) (rest : List Char) :
    readPrettyEntry (prettyEntry entry ++ rest) = some (entry, rest) := by
  unfold readPrettyEntry prettyEntry
  simp only [List.append_assoc, JsonText.expect_append, JsonText.unquote_quote,
    Option.bind_eq_bind, Option.bind_some]
  rfl

theorem length_le_prettyMore (entries : List (List Char × List Char)) :
    entries.length < (prettyMore entries).length := by
  induction entries with
  | nil => decide
  | cons entry entries inductionHypothesis =>
    rw [prettyMore, List.length_cons, List.length_cons, List.length_append]
    omega

theorem readPrettyMore_prettyMore {fuel : Nat} (entries : List (List Char × List Char))
    (enough : entries.length < fuel) : readPrettyMore fuel (prettyMore entries) = some entries := by
  induction entries generalizing fuel with
  | nil =>
    obtain ⟨fuel, rfl⟩ := Nat.exists_eq_add_of_lt enough
    exact if_pos rfl
  | cons entry entries inductionHypothesis =>
    cases fuel with
    | zero => exact absurd enough (Nat.not_lt_zero _)
    | succ fuel =>
      have goesOn : prettyMore (entry :: entries) ≠ "\n\x7d".toList :=
        fun same => absurd (List.cons.inj same).1 (by decide)
      have comma : JsonText.expect [','] (prettyMore (entry :: entries)) =
          some (prettyEntry entry ++ prettyMore entries) := rfl
      unfold readPrettyMore
      rw [if_neg goesOn, comma]
      simp only [Option.bind_eq_bind, Option.bind_some, readPrettyEntry_prettyEntry,
        inductionHypothesis (Nat.lt_of_succ_lt_succ enough)]
      rfl

theorem readPretty_prettyText (entries : List (List Char × List Char)) :
    readPretty (prettyText entries) = some entries := by
  cases entries with
  | nil => exact if_pos rfl
  | cons entry entries =>
    have goesOn : prettyText (entry :: entries) ≠ "\x7b\x7d".toList :=
      fun same => absurd (List.cons.inj (List.cons.inj same).2).1 (by decide)
    have brace : JsonText.expect ['\x7b'] (prettyText (entry :: entries)) =
        some (prettyEntry entry ++ prettyMore entries) := rfl
    unfold readPretty
    rw [if_neg goesOn, brace]
    simp only [Option.bind_eq_bind, Option.bind_some, readPrettyEntry_prettyEntry,
      readPrettyMore_prettyMore entries ((length_le_prettyMore entries).trans (Nat.lt_succ_self _))]
    rfl

def prettyJson : Format where
  encode registry := JsonText.utf8 (prettyText registry.entries)
  decode bytes := do
    let entries ← (JsonText.readUtf8 bytes).bind readPretty
    if ordered : Ordered.Sorted entries then some ⟨entries, ordered⟩ else none
  decode_encode registry := by
    rw [JsonText.readUtf8_utf8]
    simp only [Option.bind_some, readPretty_prettyText, Option.bind_eq_bind]
    exact dif_pos registry.ordered

/-- The files that are there, by number, and the two a name leads to. -/
structure Disk where
  contents : Nat → List UInt8
  files : Nat
  registry : Option Nat
  temporary : Option Nat
  registry_lt : ∀ file ∈ registry, file < files
  temporary_lt : ∀ file ∈ temporary, file < files
  apart : ∀ file ∈ registry, file ∉ temporary

namespace Disk

variable (disk : Disk)

def fill (file : Nat) (bytes : List UInt8) : Disk :=
  { disk with contents := Function.update disk.contents file bytes }

def write (file offset : Nat) (bytes : List UInt8) : Disk :=
  disk.fill file (Patch.write 0 (disk.contents file) offset bytes)

/-- Opens the temporary name: the file that is there, without its bytes, or a new one. -/
def create : Nat × Disk :=
  match disk.temporary with
  | some file => (file, disk.fill file [])
  | none =>
    (disk.files,
      { contents := Function.update disk.contents disk.files []
        files := disk.files + 1
        registry := disk.registry
        temporary := some disk.files
        registry_lt := fun file held => (disk.registry_lt file held).trans (Nat.lt_succ_self _)
        temporary_lt := fun _ held => Option.mem_some_iff.mp held ▸ Nat.lt_succ_self _
        apart := fun file held other =>
          (disk.registry_lt file held).ne (Option.mem_some_iff.mp other).symm })

/-- The registry's name gets the file of the temporary one, if there is any. -/
def rename : Disk :=
  if disk.temporary.isSome then
    { disk with
      registry := disk.temporary
      temporary := none
      registry_lt := disk.temporary_lt
      temporary_lt := fun _ held => nomatch held
      apart := fun _ _ => Option.not_mem_none _ }
  else disk

end Disk

/-- What a creation is about to do. -/
inductive Stage where
  | waiting
  | reading (file : Nat) (taken : List UInt8)
  | holding (registry : Registry)
  | writing (file offset : Nat) (rest : List UInt8)
  | recorded

/-- Between the opening of the registry and the renaming. -/
def Stage.Busy : Stage → Prop
  | waiting | recorded => False
  | reading .. | holding .. | writing .. => True

structure Relay where
  disk : Disk
  stages : Nat → Stage

namespace Relay

def move (relay : Relay) (creation : Nat) (stage : Stage) (disk : Disk) : Relay :=
  ⟨disk, Function.update relay.stages creation stage⟩

end Relay

/-- A creation does its next file operation, which moves `most` bytes beyond the first at most. -/
structure Turn where
  creation : Nat
  most : Nat

section Recording

variable (format : Format) (images : Nat → List Char) (fingerprint : List Char)

def added (creation : Nat) (bytes : Option (List UInt8)) : Registry :=
  ((bytes.bind format.decode).getD .empty).insert (images creation) fingerprint

def takeTurn (relay : Relay) (turn : Turn) : Relay :=
  let disk := relay.disk
  match relay.stages turn.creation with
  | .waiting =>
    match disk.registry with
    | none => relay.move turn.creation (.holding (added format images fingerprint turn.creation none)) disk
    | some file => relay.move turn.creation (.reading file []) disk
  | .reading file taken =>
    match (disk.contents file).drop taken.length with
    | [] =>
      relay.move turn.creation
        (.holding (added format images fingerprint turn.creation (some taken))) disk
    | byte :: rest =>
      relay.move turn.creation (.reading file (taken ++ byte :: rest.take turn.most)) disk
  | .holding registry =>
    let (file, disk) := disk.create
    relay.move turn.creation (.writing file 0 (format.encode registry)) disk
  | .writing file offset rest =>
    match rest with
    | [] => relay.move turn.creation .recorded disk.rename
    | byte :: rest =>
      let bytes := byte :: rest.take turn.most
      relay.move turn.creation (.writing file (offset + bytes.length) (rest.drop turn.most))
        (disk.write file offset bytes)
  | .recorded => relay

variable {relay : Relay} {turn : Turn}

theorem takeTurn_absent (held : relay.stages turn.creation = .waiting)
    (named : relay.disk.registry = none) :
    takeTurn format images fingerprint relay turn =
      relay.move turn.creation (.holding (added format images fingerprint turn.creation none))
        relay.disk := by
  simp only [takeTurn, held, named]

theorem takeTurn_opens {file : Nat} (held : relay.stages turn.creation = .waiting)
    (named : relay.disk.registry = some file) :
    takeTurn format images fingerprint relay turn =
      relay.move turn.creation (.reading file []) relay.disk := by
  simp only [takeTurn, held, named]

theorem takeTurn_read {file : Nat} {taken : List UInt8}
    (held : relay.stages turn.creation = .reading file taken)
    (unread : (relay.disk.contents file).drop taken.length = []) :
    takeTurn format images fingerprint relay turn =
      relay.move turn.creation
        (.holding (added format images fingerprint turn.creation (some taken))) relay.disk := by
  simp only [takeTurn, held, unread]

theorem takeTurn_reads {file : Nat} {taken rest : List UInt8} {byte : UInt8}
    (held : relay.stages turn.creation = .reading file taken)
    (unread : (relay.disk.contents file).drop taken.length = byte :: rest) :
    takeTurn format images fingerprint relay turn =
      relay.move turn.creation (.reading file (taken ++ byte :: rest.take turn.most))
        relay.disk := by
  simp only [takeTurn, held, unread]

theorem takeTurn_creates {registry : Registry}
    (held : relay.stages turn.creation = .holding registry) :
    takeTurn format images fingerprint relay turn =
      relay.move turn.creation (.writing relay.disk.create.1 0 (format.encode registry))
        relay.disk.create.2 := by
  simp only [takeTurn, held]

theorem takeTurn_renames {file offset : Nat}
    (held : relay.stages turn.creation = .writing file offset []) :
    takeTurn format images fingerprint relay turn =
      relay.move turn.creation .recorded relay.disk.rename := by
  simp only [takeTurn, held]

theorem takeTurn_writes {file offset : Nat} {byte : UInt8} {rest : List UInt8}
    (held : relay.stages turn.creation = .writing file offset (byte :: rest)) :
    takeTurn format images fingerprint relay turn =
      relay.move turn.creation
        (.writing file (offset + (byte :: rest.take turn.most).length) (rest.drop turn.most))
        (relay.disk.write file offset (byte :: rest.take turn.most)) := by
  simp only [takeTurn, held]

theorem takeTurn_recorded (held : relay.stages turn.creation = .recorded) :
    takeTurn format images fingerprint relay turn = relay := by
  simp only [takeTurn, held]

theorem stages_takeTurn_of_ne {other : Nat} (different : other ≠ turn.creation) :
    (takeTurn format images fingerprint relay turn).stages other = relay.stages other := by
  have moved : ∀ stage disk, (relay.move turn.creation stage disk).stages other =
      relay.stages other := by
    intro stage disk
    simp [Relay.move, different]
  cases held : relay.stages turn.creation with
  | waiting =>
    cases named : relay.disk.registry with
    | none => rw [takeTurn_absent _ _ _ held named, moved]
    | some file => rw [takeTurn_opens _ _ _ held named, moved]
  | reading file taken =>
    cases unread : (relay.disk.contents file).drop taken.length with
    | nil => rw [takeTurn_read _ _ _ held unread, moved]
    | cons byte rest => rw [takeTurn_reads _ _ _ held unread, moved]
  | holding registry => rw [takeTurn_creates _ _ _ held, moved]
  | writing file offset rest =>
    cases rest with
    | nil => rw [takeTurn_renames _ _ _ held, moved]
    | cons byte rest => rw [takeTurn_writes _ _ _ held, moved]
  | recorded => rw [takeTurn_recorded _ _ _ held]

end Recording

end Supercov.DockerProxy
