import Supercov.Library.JsonText
import Supercov.Library.Outcome
import Supercov.Library.Text

/-!
# Relaying the body of a message

The proxy copies a body as its head frames it: a length of bytes, or chunks, each behind a line
with its size and before the end of its last line, up to one of no size and the trailers.

What a relay that succeeds consumed is one body and what it wrote is the same bytes, unless a
chunk's size is one of the two largest that the machine holds or the stream ends in the trailers.
-/

namespace Supercov.DockerProxy

inductive RelayError where
  /-- The reader or the writer failed. -/
  | io
  /-- A line that is not UTF-8. -/
  | notText
  | cutShort (what : String)
  | badChunkSize
  deriving DecidableEq

structure Head where
  headers : List (List Char × List Char)

namespace Head

def header (head : Head) (name : List Char) : Option (List Char) :=
  (head.headers.find? fun header => header.1.map Char.toLower = name.map Char.toLower).map (·.2)

def chunked (head : Head) : Bool :=
  (head.header "transfer-encoding".toList).any fun value =>
    "chunked".toList <:+: value.map Char.toLower

def contentLength (head : Head) : Option Nat :=
  (head.header "content-length".toList).bind fun value => Text.unsigned 64 (Text.trim value)

end Head

/-- The two ends of a relay: which of its operations on them fail, and how many bytes beyond the
first a read gives at most. -/
structure Peers where
  fails : Nat → Bool
  most : Nat → Nat

structure Link where
  input : List UInt8
  output : List UInt8
  operations : Nat

def newline : UInt8 := 10

/-- The bytes up to and with the first line feed, or all of them. -/
def takeLine : List UInt8 → List UInt8 × List UInt8
  | [] => ([], [])
  | byte :: rest =>
    if byte = newline then ([byte], rest)
    else
      let (line, after) := takeLine rest
      (byte :: line, after)

section Relaying

variable (peers : Peers)

def operate (link : Link) : Outcome RelayError Link :=
  if peers.fails link.operations then .refused .io
  else .ok { link with operations := link.operations + 1 }

def readLine (link : Link) : Outcome RelayError (List UInt8 × List Char × Link) := do
  let link ← operate peers link
  let (line, rest) := takeLine link.input
  match JsonText.readUtf8 line with
  | none => .refused .notText
  | some text => .ok (line, text, { link with input := rest })

def writeAll (bytes : List UInt8) (link : Link) : Outcome RelayError Link := do
  let link ← operate peers link
  return { link with output := link.output ++ bytes }

def bufferSize : Nat := 64 * 1024

/-- The range up to `stop` of a sequence. -/
def checkRange (stop length : Nat) : Outcome RelayError PUnit :=
  if stop ≤ length then .ok ⟨⟩ else .crashed

def copyExact : Nat → Nat → Link → Outcome RelayError Link
  | 0, _, _ => .crashed
  | fuel + 1, remaining, link =>
    if remaining = 0 then .ok link
    else do
      let want := min bufferSize remaining
      checkRange want bufferSize
      let link ← operate peers link
      let read := min (min want (peers.most link.operations + 1)) link.input.length
      if read = 0 then .refused (.cutShort "body cut short")
      else do
        checkRange read bufferSize
        let link ←
          writeAll peers (link.input.take read) { link with input := link.input.drop read }
        let remaining ← Checked.sub remaining read
        copyExact fuel remaining link

def hexValue (c : Char) : Option Nat :=
  if c.isDigit then some (c.toNat - '0'.toNat)
  else if 'a' ≤ c ∧ c ≤ 'f' then some (c.toNat - 'a'.toNat + 10)
  else if 'A' ≤ c ∧ c ≤ 'F' then some (c.toNat - 'A'.toNat + 10)
  else none

/-- `usize::from_str_radix` of base 16. -/
def fromHex (text : List Char) : Option Nat :=
  let digits := if text.head? = some '+' then text.tail else text
  if digits = [] then none
  else
    ((digits.mapM hexValue).map (·.foldl (fun value digit => 16 * value + digit) 0)).filter
      (· < 2 ^ 64)

def chunkSize (line : List Char) : Option Nat :=
  fromHex (Text.trim (((Text.trim line).splitOn ';').headD []))

/-- The trailers, then the blank line that ends the body. -/
def relayTrailers : Nat → Link → Outcome RelayError Link
  | 0, _ => .crashed
  | fuel + 1, link => do
    let (line, text, link) ← readLine peers link
    if line = [] then .ok link
    else do
      let link ← writeAll peers line link
      if Text.trim text = [] then .ok link else relayTrailers fuel link

def relayChunks : Nat → Link → Outcome RelayError Link
  | 0, _ => .crashed
  | fuel + 1, link => do
    let (line, text, link) ← readLine peers link
    if line = [] then .refused (.cutShort "chunk cut short")
    else do
      let link ← writeAll peers line link
      match chunkSize text with
      | none => .refused .badChunkSize
      | some size =>
        if size = 0 then do
          let link ← relayTrailers peers (link.input.length + 1) link
          operate peers link
        else do
          let total ← Checked.add 64 size 2
          let link ← copyExact peers (link.input.length + 1) total link
          let link ← operate peers link
          relayChunks fuel link

/-- Copy a body framed by the head; every round of a loop reads a byte at least, so that the
input bounds them. -/
def relayBody (head : Head) (link : Link) : Outcome RelayError Link :=
  if head.chunked then relayChunks peers (link.input.length + 1) link
  else
    match head.contentLength with
    | some length => do
      let link ← copyExact peers (link.input.length + 1) length link
      operate peers link
    | none => .ok link

/-- The payloads of chunks that were copied: what does not read as they did is a panic. -/
def decodeChunks : Nat → List UInt8 → List UInt8 → Outcome RelayError (List UInt8)
  | 0, _, _ => .crashed
  | fuel + 1, encoded, decoded =>
    let (line, rest) := takeLine encoded
    match (JsonText.readUtf8 line).bind chunkSize with
    | none => .crashed
    | some size =>
      if size = 0 then .ok decoded
      else do
        let total ← Checked.add 64 size 2
        checkRange total rest.length
        let payload ← Checked.slice (rest.take total) 0 size
        decodeChunks fuel (rest.drop total) (decoded ++ payload)

def readBody (head : Head) (link : Link) : Outcome RelayError (List UInt8 × List UInt8) := do
  let link ← relayBody peers head { link with output := [] }
  if head.chunked then do
    let decoded ← decodeChunks (link.output.length + 1) link.output []
    return (decoded, link.input)
  else return (link.output, link.input)

end Relaying

def IsLine (line : List UInt8) : Prop := ∃ content, line = content ++ [newline] ∧ newline ∉ content

def sizeIn (line : List UInt8) : Option Nat := (JsonText.readUtf8 line).bind chunkSize

inductive Trailers : List UInt8 → Prop
  | blank {line text} (ended : IsLine line) (read : JsonText.readUtf8 line = some text)
      (blank : Text.trim text = []) : Trailers line
  | field {line text rest} (ended : IsLine line) (read : JsonText.readUtf8 line = some text)
      (shown : Text.trim text ≠ []) (more : Trailers rest) : Trailers (line ++ rest)

inductive Body : List UInt8 → List UInt8 → Prop
  | last {line trailers} (ended : IsLine line) (zero : sizeIn line = some 0)
      (trail : Trailers trailers) : Body (line ++ trailers) []
  | chunk {line payload ending rest payloads size} (ended : IsLine line)
      (sized : sizeIn line = some size) (nonzero : size ≠ 0) (payload_length : payload.length = size)
      (ending_length : ending.length = 2) (more : Body rest payloads) :
      Body (line ++ ((payload ++ ending) ++ rest)) (payload ++ payloads)

def Framed (head : Head) (body payload : List UInt8) : Prop :=
  if head.chunked then Body body payload
  else payload = body ∧ body.length = head.contentLength.getD 0

/-- A chunk's size to which two cannot be added. -/
inductive Oversized : List UInt8 → Prop
  | here {bytes line rest size} (first : takeLine bytes = (line, rest))
      (sized : sizeIn line = some size) (large : 2 ^ 64 ≤ size + 2) : Oversized bytes
  | behind {line chunk rest size} (ended : IsLine line) (sized : sizeIn line = some size)
      (nonzero : size ≠ 0) (length : chunk.length = size + 2) (more : Oversized rest) :
      Oversized (line ++ (chunk ++ rest))

/-- The stream ends before the blank line does. -/
inductive CutTrailers : List UInt8 → Prop
  | ended : CutTrailers []
  | within {line text} (open_ : newline ∉ line) (begun : line ≠ [])
      (read : JsonText.readUtf8 line = some text) : CutTrailers line
  | field {line text rest} (ended : IsLine line) (read : JsonText.readUtf8 line = some text)
      (shown : Text.trim text ≠ []) (more : CutTrailers rest) : CutTrailers (line ++ rest)

/-- The stream ends behind the size of the last chunk, and before the body does. -/
inductive Cut : List UInt8 → Prop
  | within {line} (open_ : newline ∉ line) (zero : sizeIn line = some 0) : Cut line
  | last {line rest} (ended : IsLine line) (zero : sizeIn line = some 0)
      (more : CutTrailers rest) : Cut (line ++ rest)
  | behind {line chunk rest size} (ended : IsLine line) (sized : sizeIn line = some size)
      (nonzero : size ≠ 0) (length : chunk.length = size + 2) (more : Cut rest) :
      Cut (line ++ (chunk ++ rest))

/-- A body is relayed and read without a panic, whatever the peers do, and as it is framed where
they succeed. -/
def Relays (head : Head) (input : List UInt8) : Prop :=
  ∀ (peers : Peers) (output : List UInt8) (operations : Nat),
    let link : Link := { input, output, operations }
    (relayBody peers head link).Yields (fun link' => ∃ body payload, Framed head body payload ∧
      input = body ++ link'.input ∧ link'.output = output ++ body) ∧
    (readBody peers head link).Yields fun (decoded, rest) => ∃ body,
      Framed head body decoded ∧ input = body ++ rest

section FirstLine

variable {bytes line rest : List UInt8}

theorem isLine_of_mem (held : newline ∈ (takeLine bytes).1) : IsLine (takeLine bytes).1 := by
  induction bytes with
  | nil => cases held
  | cons byte bytes ih =>
    rw [takeLine] at held ⊢
    split_ifs at held ⊢ with feed
    · exact ⟨[], by rw [feed]; rfl, List.not_mem_nil⟩
    · obtain ⟨content, same, unbroken⟩ := ih ((List.mem_cons.mp held).resolve_left (Ne.symm feed))
      exact ⟨byte :: content, congrArg (byte :: ·) same,
        List.not_mem_cons_of_ne_of_not_mem (Ne.symm feed) unbroken⟩

theorem takeLine_append (bytes : List UInt8) : (takeLine bytes).1 ++ (takeLine bytes).2 = bytes := by
  induction bytes with
  | nil => rfl
  | cons byte bytes ih =>
    rw [takeLine]
    split_ifs
    · rfl
    · exact congrArg (byte :: ·) ih

theorem takeLine_nil_of_not_mem (open_ : newline ∉ (takeLine bytes).1) : (takeLine bytes).2 = [] := by
  induction bytes with
  | nil => rfl
  | cons byte bytes ih =>
    rw [takeLine] at open_ ⊢
    split_ifs at open_ ⊢ with feed
    · rw [feed] at open_
      exact absurd List.mem_cons_self open_
    · exact ih fun held => open_ (List.mem_cons_of_mem _ held)

theorem takeLine_cases (first : takeLine bytes = (line, rest)) :
    bytes = line ++ rest ∧ (IsLine line ∨ (newline ∉ line ∧ rest = [])) := by
  have whole := takeLine_append bytes
  have ended : newline ∈ (takeLine bytes).1 → _ := isLine_of_mem
  have unended : newline ∉ (takeLine bytes).1 → _ := takeLine_nil_of_not_mem
  rw [first] at whole ended unended
  refine ⟨whole.symm, ?_⟩
  by_cases held : newline ∈ line
  · exact Or.inl (ended held)
  · exact Or.inr ⟨held, unended held⟩

theorem takeLine_of_not_mem (open_ : newline ∉ line) : takeLine line = (line, []) := by
  induction line with
  | nil => rfl
  | cons byte line ih =>
    have ⟨first, open_⟩ := List.ne_and_not_mem_of_not_mem_cons open_
    rw [takeLine, if_neg (Ne.symm first), ih open_]

theorem takeLine_of_isLine (ended : IsLine line) (rest : List UInt8) :
    takeLine (line ++ rest) = (line, rest) := by
  obtain ⟨content, rfl, unbroken⟩ := ended
  induction content with
  | nil => rfl
  | cons byte content ih =>
    have ⟨first, unbroken⟩ := List.ne_and_not_mem_of_not_mem_cons unbroken
    rw [List.cons_append, List.cons_append, takeLine, if_neg (Ne.symm first), ih unbroken]

theorem ne_nil_of_isLine (ended : IsLine line) : line ≠ [] := by
  obtain ⟨content, rfl, -⟩ := ended
  simp

end FirstLine

end Supercov.DockerProxy
