import Mathlib.Data.List.Sort

/-!
# A file as a program sees it

Comments that no toolchain reads are erased from a file as if they had never been written,
then blank lines and the blank that ends a line.  Every offset of the file keeps a place in
the text that is left.

A text is its bytes.  What a slice or an access out of bounds would stop is no text.

What a parser found in a file is built into units, each declaration within the one it
stands in.  A unit has a digest of its own text, in which each declaration within it is one
placeholder; the file has a digest of all that a program can observe of it.  Two views of a
file are compared unit by unit, by path.
-/

namespace Supercov.Units

abbrev Text := List UInt8

instance : LawfulBEq Text := inferInstance

abbrev Span := Nat × Nat

def newline : UInt8 := 10

def space : UInt8 := 32

def isBlank (byte : UInt8) : Bool :=
  byte = space ∨ byte = 9 ∨ byte = 13

def isWord (byte : UInt8) : Bool :=
  48 ≤ byte ∧ byte ≤ 57 ∨ 65 ≤ byte ∧ byte ≤ 90 ∨ 97 ≤ byte ∧ byte ≤ 122 ∨ byte = 95 ∨ byte = 36

def isCharBoundary (text : Text) (index : Nat) : Bool :=
  index = 0 ∨ index = text.length ∨ text[index]?.any fun byte => byte < 128 ∨ 192 ≤ byte

def slice (text : Text) (start stop : Nat) : Option Text :=
  if start ≤ stop ∧ isCharBoundary text start ∧ isCharBoundary text stop then
    some ((text.take stop).drop start)
  else none

/-- The index that the search for the first item not `before` ends at: where the items
that are `before` do not all stand first, it is the one that halving finds. -/
def partitionPoint {Item : Type} (before : Item → Bool) (items : List Item) : Nat :=
  let isBefore index := items[index]?.any before
  let rec halve : Nat → Nat → Nat → Nat
    | 0, base, _ => base
    | fuel + 1, base, size =>
      if size ≤ 1 then base
      else
        let half := size / 2
        halve fuel (if isBefore (base + half) then base + half else base) (size - half)
  let base := halve items.length 0 items.length
  if isBefore base then base + 1 else base

def blanks (text : Text) : Nat :=
  (text.takeWhile isBlank).length

/-- What to take out for one comment so that the text reads as if the comment had never
been written. -/
def erasure (source : Text) (start stop : Nat) : Option (Nat × Nat × Text) := do
  let head ← slice source 0 start
  let line := head.reverse.takeWhile (· ≠ newline)
  let lineStart := start - line.length
  let after := stop + blanks (source.drop stop)
  let terminated := source.length ≤ after ∨ source[after]? = some newline
  if terminated then
    if line.all isBlank then
      return (lineStart, if after < source.length then after + 1 else after, [])
    else
      return (start - blanks line, after, [])
  else
    let preceded := start = lineStart ∨ line.head?.any isBlank
    let stop := if preceded then after else stop
    let glue := (0 < start ∧ (source[start - 1]?).any isWord) ∧ (source[stop]?).any isWord
    return (start, stop, if glue then [space] else [])

structure Kept where
  text : Text := []
  places : List Nat := []

def Kept.push (kept : Kept) (text : Text) : Kept where
  text := kept.text ++ text
  places := kept.places ++ List.range' kept.text.length text.length

def Kept.drop (kept : Kept) (length : Nat) (replacement : Text) : Kept where
  text := kept.text ++ replacement
  places := kept.places ++ List.replicate length kept.text.length

def Kept.finish (kept : Kept) : Kept where
  text := kept.text
  places := kept.places ++ [kept.text.length]

def eraseComment (source : Text) : Kept × Nat → Span → Option (Kept × Nat)
  | (kept, cursor), (start, stop) =>
    if source.length < stop ∨ stop ≤ start then some (kept, cursor)
    else do
      let (start, stop, replacement) ← erasure source start stop
      let start := max start cursor
      if stop ≤ start then
        return (kept, cursor)
      let text ← slice source cursor start
      return ((kept.push text).drop (stop - start) replacement, stop)

def spanLe (span other : Span) : Bool :=
  span.1 < other.1 ∨ span.1 = other.1 ∧ span.2 ≤ other.2

def eraseComments (source : Text) (comments : List Span) : Option Kept := do
  let (kept, cursor) ←
    (comments.insertionSort fun span other => spanLe span other).foldlM (eraseComment source) ({}, 0)
  let rest ← slice source cursor source.length
  return (kept.push rest).finish

/-- Whether a string of the sorted ones owns part of a stretch. -/
def inside (strings : List Span) (start stop : Nat) : Bool :=
  (strings[partitionPoint (fun string => string.2 ≤ start) strings]?).any fun string =>
    string.1 < stop

def linesOf : Text → List Text
  | [] => []
  | byte :: rest =>
    if byte = newline then [byte] :: linesOf rest
    else
      match linesOf rest with
      | [] => [[byte]]
      | line :: lines => (byte :: line) :: lines

/-- One pass over a line: a blank line is dropped, and the blank that ends any other. -/
def eraseLine (strings : List Span) : Kept × Nat → Text → Kept × Nat
  | (kept, lineStart), line =>
    let content := line.takeWhile (· ≠ newline)
    let ending := line.drop content.length
    let trimmed := content.length - blanks content.reverse
    let next := lineStart + line.length
    if trimmed = 0 then
      if 0 < line.length ∧ ¬ inside strings lineStart next then (kept.drop line.length [], next)
      else (kept.push line, next)
    else
      if trimmed < content.length ∧
          ¬ inside strings (lineStart + trimmed) (lineStart + content.length) then
        (((kept.push (content.take trimmed)).drop (content.length - trimmed) []).push ending, next)
      else (kept.push line, next)

def eraseBlank (text : Text) (strings : List Span) : Kept :=
  ((linesOf text).foldl (eraseLine strings) ({}, 0)).1.finish

/-- The end of the line a removed declaration sat on, when nothing but blank follows it
there; otherwise the position itself. -/
def lineEndAfter (text : Text) (position : Nat) : Nat :=
  let stop := position + blanks (text.drop position)
  if text[stop]? = some newline then stop + 1 else position

def lineStarts (source : Text) : List Nat :=
  0 :: (source.zipIdx.filter fun byte => byte.1 = newline).map fun byte => byte.2 + 1

inductive UnitKind where
  | file | function | method | constructor | getter | setter | initializer
  | classDeclaration | object | interface | enum | record | annotation | namespaceDeclaration
  | type | property
  | impl | struct | union | trait | const | static | mod | macroDefinition
  | module | singleton
  deriving DecidableEq

namespace UnitKind

def word : UnitKind → String
  | file => "file"
  | function => "function"
  | method => "method"
  | constructor => "constructor"
  | getter => "get"
  | setter => "set"
  | initializer => "init"
  | classDeclaration => "class"
  | object => "object"
  | interface => "interface"
  | enum => "enum"
  | record => "record"
  | annotation => "annotation"
  | namespaceDeclaration => "namespace"
  | type => "type"
  | property => "property"
  | impl => "impl"
  | struct => "struct"
  | union => "union"
  | trait => "trait"
  | const => "const"
  | static => "static"
  | mod => "mod"
  | macroDefinition => "macro"
  | module => "module"
  | singleton => "singleton"

def text (kind : UnitKind) : Text :=
  kind.word.toUTF8.toList

end UnitKind

/-- One declaration the parser found, in bytes. -/
structure Item where
  name : Text
  kind : UnitKind
  start : Nat
  stop : Nat
  inert : Bool

structure Outline where
  comments : List Span
  /-- String literals: whitespace inside them is content, not formatting. -/
  strings : List Span
  declarations : List Item
  separator : Text

/-- One declaration, positioned the way anchors are. -/
structure CodeUnit (Digest : Type) where
  path : Text
  kind : UnitKind
  line : Nat
  column : Nat
  endLine : Nat
  endColumn : Nat
  digest : Digest
  parent : Option Nat
  inert : Bool
  deriving DecidableEq

/-- What a parser could say about one file. -/
structure Code (Digest : Type) where
  semantic : Digest
  structural : Digest
  units : List (CodeUnit Digest)
  erased : List Nat
  deriving DecidableEq

/-- A declaration with its place among the others. -/
structure Built where
  path : Text
  kind : UnitKind
  start : Nat
  stop : Nat
  parent : Option Nat
  inert : Bool

def decimal (number : Nat) : Text :=
  (Nat.repr number).toUTF8.toList

def itemLe (item other : Item) : Bool :=
  item.start < other.start ∨ item.start = other.start ∧ other.stop ≤ item.stop

/-- Of neighbours with one span the first. -/
def dedup : List Item → List Item
  | [] => []
  | item :: rest =>
    match dedup rest with
    | [] => [item]
    | later :: others =>
      if later.start = item.start ∧ later.stop = item.stop then item :: others
      else item :: later :: others

/-- The spans that fit the file, in source order with the wider first, each once. -/
def declarationsOf (source : Text) (declarations : List Item) : List Item :=
  dedup ((declarations.filter fun item => item.start < item.stop ∧ item.stop ≤ source.length)
    |>.insertionSort fun item other => itemLe item other)

/-- The open declarations, without those that end before a position. -/
def popped (position : Nat) : Nat × Built → List (Nat × Built) → (Nat × Built) × List (Nat × Built)
  | top, [] => (top, [])
  | top, next :: below =>
    if top.2.stop ≤ position then popped position next below else (top, next :: below)

def underPath (separator : Text) (holder : Built) (name : Text) : Text :=
  if holder.path = [] then name else holder.path ++ separator ++ name

/-- The declarations from `index` on, each within the innermost one that is open where it
starts.  `names` are those given before, each with what it was given in. -/
def nest (separator : Text) (top : Nat × Built) (below : List (Nat × Built))
    (names : List (Nat × Text)) (index : Nat) : List Item → List Built
  | [] => []
  | item :: rest =>
    let (holder, outer) := popped item.start top below
    let seen := names.count (holder.1, item.name) + 1
    let name := if seen = 1 then item.name else item.name ++ 35 :: decimal seen
    let unit : Built :=
      { path := underPath separator holder.2 name
        kind := item.kind
        start := item.start
        stop := min item.stop holder.2.stop
        parent := some holder.1
        inert := item.inert || holder.2.inert }
    unit :: nest separator (index, unit) (holder :: outer) ((holder.1, item.name) :: names)
      (index + 1) rest

def fileUnit (source : Text) : Built where
  path := []
  kind := .file
  start := 0
  stop := source.length
  parent := none
  inert := false

def builtOf (source : Text) (outline : Outline) : List Built :=
  fileUnit source ::
    nest outline.separator (0, fileUnit source) [] [] 1 (declarationsOf source outline.declarations)

/-- The text that is left of a file, and the place of every offset in it. -/
def keptOf (source : Text) (outline : Outline) : Option Kept := do
  let uncommented ← eraseComments source outline.comments
  let strings := (outline.strings.filter fun string =>
      string.1 < string.2 ∧ string.2 ≤ source.length).map fun string =>
    (uncommented.places.getD string.1 0, uncommented.places.getD string.2 0)
  let kept := eraseBlank uncommented.text (strings.insertionSort fun span other => spanLe span other)
  return { text := kept.text, places := uncommented.places.map fun place => kept.places.getD place 0 }

section Texts

variable (kept : Kept)

def Kept.place (offset : Nat) : Nat :=
  kept.places.getD offset 0

/-- A unit's own text from a position on, `children` of it to come. -/
def ownText (stop : Nat) (cursor : Nat) : List Built → Option Text
  | [] => slice kept.text cursor stop
  | child :: children =>
    let start := kept.place child.start
    if start < cursor then ownText stop cursor children
    else do
      let before ← slice kept.text cursor start
      -- An inert declaration leaves no mark.
      if child.inert then
        let after ← ownText stop (lineEndAfter kept.text (kept.place child.stop)) children
        return before ++ after
      else
        let after ← ownText stop (kept.place child.stop) children
        return before ++ 0 :: after

def childrenOf (index : Nat) (built : List Built) : List Built :=
  built.filter fun unit => unit.parent = some index

def unitText (built : List Built) (index : Nat) (unit : Built) : Option Text :=
  ownText kept (kept.place unit.stop) (kept.place unit.start) (childrenOf index built)

/-- All that a program can observe from a position on, `inert` declarations to come. -/
def semanticText (cursor : Nat) : List Built → Option Text
  | [] => slice kept.text cursor kept.text.length
  | unit :: inert =>
    let start := kept.place unit.start
    if start < cursor then semanticText cursor inert
    else do
      let before ← slice kept.text cursor start
      let after ← semanticText (lineEndAfter kept.text (kept.place unit.stop)) inert
      return before ++ after

end Texts

def structureLine (unit : Built) : Text :=
  unit.kind.text ++ 1 :: unit.path ++ [newline]

def textLe (text other : Text) : Bool :=
  text ≤ other

def structureText (built : List Built) : Text :=
  ((((built.drop 1).filter fun unit => !unit.inert).map structureLine).insertionSort
    fun text other => textLe text other).flatten

def position (lines : List Nat) (offset : Nat) : Nat × Nat :=
  let line := partitionPoint (· ≤ offset) lines
  (line, offset - lines.getD (line - 1) 0 + 1)

/-- The lines nothing of which is left. -/
def erasedLines (source : Text) (kept : Kept) : List Nat :=
  let lines := lineStarts source
  ((List.range lines.length).filter fun index =>
    let start := lines.getD index 0
    let next := lines.getD (index + 1) source.length
    start < next ∧ kept.place start = kept.place next).map (· + 1)

section Build

variable {Digest : Type} (digest : Text → Digest)

def codeUnit (lines : List Nat) (unit : Built) (text : Text) : CodeUnit Digest :=
  let (line, column) := position lines unit.start
  let (endLine, endColumn) := position lines unit.stop
  { path := unit.path
    kind := unit.kind
    line
    column
    endLine
    endColumn
    digest := digest text
    parent := unit.parent
    inert := unit.inert }

def build (source : Text) (outline : Outline) : Option (Code Digest) := do
  let kept ← keptOf source outline
  let built := builtOf source outline
  let texts ← built.zipIdx.mapM fun unit => unitText kept built unit.2 unit.1
  let semantic ← semanticText kept 0 (built.filter (·.inert))
  return {
    semantic := digest semantic
    structural := digest (structureText built)
    units := (built.zip texts).map fun unit => codeUnit digest (lineStarts source) unit.1 unit.2
    erased := erasedLines source kept }

end Build

/-- What moved between two views of a file: indices into the old view for what changed or
went, into the new for what arrived. -/
structure Diff where
  changed : List Nat
  removed : List Nat
  added : List Nat
  structural : Bool
  deriving DecidableEq

section Compare

variable {Digest : Type} [DecidableEq Digest]

def Code.byPath (code : Code Digest) (path : Text) : Option (CodeUnit Digest) :=
  code.units.reverse.find? (·.path = path)

def Code.indices (code : Code Digest) (condition : CodeUnit Digest → Bool) : List Nat :=
  (code.units.zipIdx.filter fun unit => condition unit.1).map Prod.snd

def Code.diff (old new : Code Digest) : Diff where
  changed := old.indices fun unit => (new.byPath unit.path).any (·.digest ≠ unit.digest)
  removed := old.indices fun unit => (new.byPath unit.path).isNone
  added := new.indices fun unit => (old.byPath unit.path).isNone
  structural := old.structural ≠ new.structural

def CodeUnit.isCode (unit : CodeUnit Digest) : Bool :=
  match unit.kind with
  | .function | .method | .constructor | .getter | .setter | .initializer => true
  | _ => false

/-- Nothing but declaration bodies changed, and only in units that are code with a probe
of their own. -/
def Diff.narrow (diff : Diff) (old : Code Digest) (probed : List Nat) : Bool :=
  !diff.structural && diff.added.isEmpty && diff.removed.isEmpty &&
    diff.changed.all fun index =>
      (old.units[index]?).any (·.isCode) && probed.contains index

end Compare

end Supercov.Units
